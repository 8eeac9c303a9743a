import KernelEvmStorage.Storage.Footprints

/-!
# Transaction objects, receipts and the 256-bit word codec

A 256-bit word is written as its 32 little-endian bytes at offset 0 and read
back as the first 32 bytes of the value, so it comes back whatever the path
held before.  A transaction object is a run of such writes, one field after
another under the object's path: stated as a list of fields, every field keeps
what its own write left, since the later writes are at other paths.  So every
numeric field of a stored object reads back as the word written, and storing an
object at its layout path never fails.  Over a list of objects, each object
writes under its own path only, so the last object stored with a hash wins.
A receipt is written whole by `store_write_all`, in pieces at consecutive
offsets; receipts of distinct hashes each leave their encoding in front of what
the path held beyond it, so exactly their encoding where it held nothing.
-/

namespace KernelEvmStorage

/-! ## The word codec -/

theorem U256.fromLittleEndian_leBytes (value : U256) :
    U256.fromLittleEndian (leBytes 32 value.toNat) = value := by
  have hlt : value.toNat < 256 ^ 32 := value.isLt
  rw [U256.fromLittleEndian, leValue_leBytes, Nat.mod_eq_of_lt hlt, BitVec.ofNat_toNat, BitVec.setWidth_eq]

theorem writeU256_apply (path : OwnedPath) (value : U256) (s : Store) :
    writeU256 path value s =
      .ok () (s.set path.bytes (leBytes 32 value.toNat ++ ((s.value path.bytes).getD []).drop 32)) := by
  rw [writeU256, Runtime.storeWrite_zero (by simp [U256.toLittleEndian, MAX_FILE_CHUNK_SIZE])]
  simp [U256.toLittleEndian]

theorem readU256_apply_of_some {path : OwnedPath} {s : Store} {v : Bytes}
    (hv : s.value path.bytes = some v) :
    readU256 path s = .ok (U256.fromLittleEndian (v.take WORD_SIZE)) s := by
  rw [readU256, bind_apply_of_ok (Runtime.storeRead_apply_of_some hv (Nat.zero_le _))]
  rfl

/-- A value that starts with the word's 32 little-endian bytes reads back as
the word. -/
theorem readU256_of_leBytes {path : OwnedPath} {s : Store} {value : U256} {rest : Bytes}
    (hv : s.value path.bytes = some (leBytes 32 value.toNat ++ rest)) : readU256 path s = .ok value s := by
  rw [readU256_apply_of_some hv, WORD_SIZE, List.take_append_of_le_length (by simp),
    List.take_of_length_le (by simp), U256.fromLittleEndian_leBytes]

/-! ## Writes at consecutive offsets -/

/-- Writing pieces of at most the cap at consecutive offsets, from an offset
within the value, never fails, and puts the pieces in one run from that offset
over what the value held. -/
theorem foldlM_storeWrite_value (path : OwnedPath) :
    ∀ (pieces : List Bytes) (offset : Nat) (s : Store), (∀ c ∈ pieces, c.length ≤ MAX_FILE_CHUNK_SIZE) →
      offset ≤ ((s.value path.bytes).getD []).length →
      ∃ s', (pieces.foldlM (fun offset chunk => do
        Runtime.storeWrite path chunk offset
        pure (offset + chunk.length)) offset : EStateM Error Store Nat) s =
          .ok (offset + pieces.flatten.length) s' ∧
        (s'.value path.bytes).getD [] = ((s.value path.bytes).getD []).take offset ++ pieces.flatten ++
          ((s.value path.bytes).getD []).drop (offset + pieces.flatten.length)
  | [], offset, s, _, _ => ⟨s, rfl, by simp⟩
  | c :: pieces, offset, s, hpieces, hoff => by
      have hc := hpieces c (List.mem_cons_self _ _)
      have hlen : (((s.value path.bytes).getD []).take offset ++ c).length = offset + c.length := by
        rw [List.length_append, List.length_take, Nat.min_eq_left hoff]
      obtain ⟨s', hrest, hv⟩ := foldlM_storeWrite_value path pieces (offset + c.length)
        (s.set path.bytes (((s.value path.bytes).getD []).take offset ++ c ++
          ((s.value path.bytes).getD []).drop (offset + c.length)))
        (fun c' hc' => hpieces c' (List.mem_cons_of_mem _ hc'))
        (by rw [Store.set_value, if_pos rfl, Option.getD_some, List.length_append, hlen]; omega)
      have hstep : (Runtime.storeWrite path c offset >>= fun _ =>
          (pure (offset + c.length) : EStateM Error Store Nat)) s = .ok (offset + c.length) _ :=
        bind_apply_of_ok (Runtime.storeWrite_apply_of_le hc hoff)
      refine ⟨s', ?_, ?_⟩
      · rw [List.foldlM_cons, bind_apply_of_ok hstep, hrest, List.flatten_cons, List.length_append, Nat.add_assoc]
      · rw [hv, Store.set_value, if_pos rfl, Option.getD_some, List.take_left' hlen, ← hlen, List.drop_append,
          List.drop_drop, hlen, List.flatten_cons, List.length_append]
        simp only [List.append_assoc, Nat.add_assoc, Nat.add_comm pieces.flatten.length]

/-- `store_write_all` never fails, and leaves the value in front of what the path
held beyond it. -/
theorem storeWriteAll_value (path : OwnedPath) (value : Bytes) (s : Store) :
    ∃ s', storeWriteAll path value s = .ok () s' ∧
      (s'.value path.bytes).getD [] = value ++ ((s.value path.bytes).getD []).drop value.length := by
  obtain ⟨s', hfold, hv⟩ := foldlM_storeWrite_value path _ 0 s (length_le_of_mem_chunks _ value) (Nat.zero_le _)
  rw [flatten_chunks (by decide), List.take_zero, List.nil_append, Nat.zero_add] at hv
  exact ⟨s', bind_apply_of_ok hfold, hv⟩

theorem storeWriteAll_ok (path : OwnedPath) (value : Bytes) (s : Store) :
    ∃ s', storeWriteAll path value s = .ok () s' :=
  let ⟨s', hrun, _⟩ := storeWriteAll_value path value s
  ⟨s', hrun⟩

/-! ## Fields written one after another -/

/-- A field of a stored transaction object: the suffix of its path, and the
write of its value at the full path. -/
structure FieldWrite where
  suffix : OwnedPath
  write : OwnedPath → EStateM Error Store Unit

/-- Each field in turn: derive its path under `pre`, then write it. -/
def writeFields (pre : OwnedPath) : List FieldWrite → EStateM Error Store Unit
  | [] => pure ()
  | field :: fields => do
      let path ← concat pre field.suffix
      field.write path
      writeFields pre fields

/-- A field's write changes its own path only and never fails. -/
def FieldWrite.WellBehaved (field : FieldWrite) : Prop :=
  ∀ p, ChangesOnly (· = p.bytes) (field.write p) ∧ ∀ s, ∃ s', field.write p s = .ok () s'

/-- Every successful run of `x` leaves at `p` a value that starts with `w`. -/
def Leaves {α : Type} (p w : Bytes) (x : EStateM Error Store α) : Prop :=
  ∀ s a s', x s = .ok a s' → ∃ rest, s'.value p = some (w ++ rest)

section Fields

variable {pre : OwnedPath} {fields : List FieldWrite}

theorem writeFields_changesOnly (hw : ∀ f ∈ fields, f.WellBehaved) :
    ChangesOnly (fun q => ∃ f ∈ fields, q = pre.bytes ++ f.suffix.bytes) (writeFields pre fields) := by
  induction fields with
  | nil => exact (Confined.pure _).changesOnly
  | cons f fields ih =>
      refine ChangesOnly.concat_bind fun p hp => ?_
      refine (((hw f (List.mem_cons_self _ _) p).1.mono fun q hq =>
        ⟨f, List.mem_cons_self _ _, hq.trans hp⟩)).bind fun _ => ?_
      exact (ih fun f' hf' => hw f' (List.mem_cons_of_mem _ hf')).mono
        fun q ⟨f', hf', hq⟩ => ⟨f', List.mem_cons_of_mem _ hf', hq⟩

theorem writeFields_ok (hconcat : ∀ f ∈ fields, ∃ p, concat pre f.suffix = .ok p)
    (hw : ∀ f ∈ fields, f.WellBehaved) (s : Store) :
    ∃ s', writeFields pre fields s = .ok () s' := by
  induction fields generalizing s with
  | nil => exact ⟨s, rfl⟩
  | cons f fields ih =>
      obtain ⟨p, hp⟩ := hconcat f (List.mem_cons_self _ _)
      obtain ⟨s₁, hf⟩ := (hw f (List.mem_cons_self _ _) p).2 s
      obtain ⟨s', hrest⟩ := ih (fun f' hf' => hconcat f' (List.mem_cons_of_mem _ hf'))
        (fun f' hf' => hw f' (List.mem_cons_of_mem _ hf')) s₁
      refine ⟨s', ?_⟩
      show ((liftM (concat pre f.suffix) : EStateM Error Store OwnedPath) >>= fun path =>
        f.write path >>= fun _ => writeFields pre fields) s = _
      rw [hp]
      exact (bind_apply_of_ok hf).trans hrest

/-- With distinct suffixes, a field keeps what its own write left: the later
writes are at other paths. -/
theorem writeFields_leaves (hw : ∀ f ∈ fields, f.WellBehaved)
    (hnodup : (fields.map fun f => f.suffix.bytes).Nodup) {g : FieldWrite} (hg : g ∈ fields)
    {w : Bytes} (hgw : ∀ p, Leaves p.bytes w (g.write p)) {s s' : Store} {a : Unit}
    (hrun : writeFields pre fields s = .ok a s') :
    ∃ p, concat pre g.suffix = .ok p ∧ ∃ rest, s'.value p.bytes = some (w ++ rest) := by
  induction fields generalizing s with
  | nil => cases hg
  | cons f fields ih =>
      rw [List.map_cons, List.nodup_cons] at hnodup
      have hw' : ∀ f' ∈ fields, f'.WellBehaved := fun f' hf' => hw f' (List.mem_cons_of_mem _ hf')
      obtain ⟨p, hp, hrun⟩ := concat_bind_eq_ok hrun
      obtain ⟨_, s₁, hf, hrest⟩ := eq_ok_of_bind_eq_ok hrun
      rcases List.mem_cons.mp hg with rfl | hg
      · obtain ⟨rest, hv⟩ := hgw p s _ s₁ hf
        have hkeep := @writeFields_changesOnly pre fields hw' s₁ p.bytes fun ⟨f', hf', hq⟩ =>
          hnodup.1 (List.mem_map.mpr ⟨f', hf', (List.append_cancel_left ((concat_bytes hp).symm.trans hq)).symm⟩)
        rw [hrest, EStateM.Result.state] at hkeep
        exact ⟨p, hp, rest, hkeep.trans hv⟩
      · exact ih hw' hnodup.2 hg hrest

end Fields

/-! ## Transaction objects -/

/-- The fields `storeTransactionObject` writes, in its order. -/
def transactionObjectFields (blockHash : H256) (blockNumber : U256) (object : TransactionObject) :
    List FieldWrite :=
  [⟨TRANSACTION_OBJECT_BLOCK_HASH, fun p => Runtime.storeWrite p blockHash.bytes 0⟩,
    ⟨TRANSACTION_OBJECT_BLOCK_NUMBER, fun p => writeU256 p blockNumber⟩,
    ⟨TRANSACTION_OBJECT_FROM, fun p => Runtime.storeWrite p object.«from».bytes 0⟩,
    ⟨TRANSACTION_OBJECT_GAS_USED, fun p => writeU256 p object.gasUsed⟩,
    ⟨TRANSACTION_OBJECT_GAS_PRICE, fun p => writeU256 p object.gasPrice⟩,
    ⟨TRANSACTION_OBJECT_INPUT, fun p => storeWriteAll p object.input⟩,
    ⟨TRANSACTION_OBJECT_NONCE, fun p => writeU256 p object.nonce⟩] ++
  (object.«to».map fun «to» => ⟨TRANSACTION_OBJECT_TO, fun p => Runtime.storeWrite p «to».bytes 0⟩).toList ++
  [⟨TRANSACTION_OBJECT_INDEX, fun p => Runtime.storeWrite p (leBytes 2 object.index.toNat) 0⟩,
    ⟨TRANSACTION_OBJECT_VALUE, fun p => writeU256 p object.value⟩,
    ⟨TRANSACTION_OBJECT_V, fun p => writeU256 p object.v⟩,
    ⟨TRANSACTION_OBJECT_R, fun p => Runtime.storeWrite p object.r.bytes 0⟩,
    ⟨TRANSACTION_OBJECT_S, fun p => Runtime.storeWrite p object.s.bytes 0⟩]

theorem storeTransactionObject_eq (objectPath : OwnedPath) (blockHash : H256) (blockNumber : U256)
    (object : TransactionObject) :
    storeTransactionObject objectPath blockHash blockNumber object =
      writeFields objectPath (transactionObjectFields blockHash blockNumber object) := by
  cases hto : object.«to» <;>
    simp only [hto, storeTransactionObject, transactionObjectFields, writeFields, Option.map, Option.toList,
      List.cons_append, List.nil_append, bind_pure_unit, pure_bind, bind_assoc]

/-! ## Every field of an object -/

theorem storeWrite_wellBehaved (suffix : OwnedPath) {src : Bytes} (hsrc : src.length ≤ MAX_FILE_CHUNK_SIZE) :
    FieldWrite.WellBehaved ⟨suffix, fun p => Runtime.storeWrite p src 0⟩ := fun p =>
  ⟨Runtime.storeWrite_changesOnly p src 0, fun _ => ⟨_, Runtime.storeWrite_zero hsrc⟩⟩

theorem writeU256_wellBehaved (suffix : OwnedPath) (value : U256) :
    FieldWrite.WellBehaved ⟨suffix, fun p => writeU256 p value⟩ := fun p =>
  ⟨writeU256_changesOnly p value, fun s => ⟨_, writeU256_apply p value s⟩⟩

theorem storeWriteAll_wellBehaved (suffix : OwnedPath) (value : Bytes) :
    FieldWrite.WellBehaved ⟨suffix, fun p => storeWriteAll p value⟩ := fun p =>
  ⟨storeWriteAll_changesOnly p value, storeWriteAll_ok p value⟩

section Objects

variable (blockHash : H256) (blockNumber : U256) (object : TransactionObject)

/-- Every field of an object writes at a suffix of the object layout, changes
its own path only and never fails. -/
theorem transactionObjectFields_spec :
    ∀ f ∈ transactionObjectFields blockHash blockNumber object,
      f.suffix ∈ TRANSACTION_OBJECT_FIELDS ∧ f.WellBehaved := by
  have h32 : ∀ x : H256, x.bytes.length ≤ MAX_FILE_CHUNK_SIZE := fun x => by rw [x.length_eq]; decide
  have h20 : ∀ x : H160, x.bytes.length ≤ MAX_FILE_CHUNK_SIZE := fun x => by rw [x.length_eq]; decide
  intro f hf
  simp only [transactionObjectFields, List.mem_append, List.mem_cons, List.not_mem_nil, or_false] at hf
  rcases hf with ((rfl | rfl | rfl | rfl | rfl | rfl | rfl) | hto) | (rfl | rfl | rfl | rfl | rfl)
  pick_goal 8
  · cases hto' : object.«to» <;> simp only [hto', Option.map, Option.toList, List.mem_singleton,
      List.not_mem_nil] at hto
    subst hto
    exact ⟨by dsimp only; decide, storeWrite_wellBehaved _ (h20 _)⟩
  all_goals refine ⟨by dsimp only; decide, ?_⟩
  exacts [storeWrite_wellBehaved _ (h32 _), writeU256_wellBehaved _ _, storeWrite_wellBehaved _ (h20 _),
    writeU256_wellBehaved _ _, writeU256_wellBehaved _ _, storeWriteAll_wellBehaved _ _,
    writeU256_wellBehaved _ _, storeWrite_wellBehaved _ (by rw [length_leBytes]; decide),
    writeU256_wellBehaved _ _, writeU256_wellBehaved _ _, storeWrite_wellBehaved _ (h32 _),
    storeWrite_wellBehaved _ (h32 _)]

theorem transactionObjectFields_nodup :
    ((transactionObjectFields blockHash blockNumber object).map fun f => f.suffix.bytes).Nodup := by
  cases hto : object.«to» <;>
    simp only [transactionObjectFields, hto, Option.map, Option.toList, List.cons_append, List.nil_append,
      List.map_cons, List.map_nil] <;> decide

theorem writeU256_leaves (path : OwnedPath) (value : U256) :
    Leaves path.bytes (leBytes 32 value.toNat) (writeU256 path value) := by
  intro s _ s' h
  rw [writeU256_apply] at h
  cases h
  exact ⟨_, if_pos rfl⟩

theorem mem_transactionObjectFields_of_word {suffix : OwnedPath} {value : U256}
    (h : (suffix, value) ∈ [(TRANSACTION_OBJECT_BLOCK_NUMBER, blockNumber),
      (TRANSACTION_OBJECT_GAS_USED, object.gasUsed), (TRANSACTION_OBJECT_GAS_PRICE, object.gasPrice),
      (TRANSACTION_OBJECT_NONCE, object.nonce), (TRANSACTION_OBJECT_VALUE, object.value),
      (TRANSACTION_OBJECT_V, object.v)]) :
    ⟨suffix, fun p => writeU256 p value⟩ ∈ transactionObjectFields blockHash blockNumber object := by
  simp only [List.mem_cons, Prod.mk.injEq, List.not_mem_nil, or_false] at h
  rcases h with ⟨rfl, rfl⟩ | ⟨rfl, rfl⟩ | ⟨rfl, rfl⟩ | ⟨rfl, rfl⟩ | ⟨rfl, rfl⟩ | ⟨rfl, rfl⟩ <;>
    simp only [transactionObjectFields, List.mem_append, List.mem_cons, true_or, or_true]

end Objects

/-- The fields of an object are all under its path, so storing it changes
nothing else. -/
theorem storeTransactionObject_changesOnly (objectPath : OwnedPath) (blockHash : H256)
    (blockNumber : U256) (object : TransactionObject) :
    ChangesOnly (IsStrictlyUnder objectPath.bytes)
      (storeTransactionObject objectPath blockHash blockNumber object) := by
  rw [storeTransactionObject_eq]
  exact (writeFields_changesOnly fun f hf => (transactionObjectFields_spec blockHash blockNumber object f hf).2).mono
    fun _ ⟨_, _, hq⟩ => hq ▸ isStrictlyUnder_append_path _ _

theorem storeTransactionObjects_changesOnly (block : L2Block) (objects : List TransactionObject) :
    ChangesOnly (fun q => ∃ o ∈ objects, IsStrictlyUnder (Layout.object o.hash).bytes q)
      (storeTransactionObjects block objects) :=
  ChangesOnly.forM objects fun o ho => by
    rw [objectPath_eq, ok_bind]
    exact (storeTransactionObject_changesOnly _ _ _ _).mono fun _ hq => ⟨o, ho, hq⟩

theorem readU256_writeU256 :
    (∀ (path : OwnedPath) (value : U256) (s : Store), ∃ s', writeU256 path value s = .ok () s' ∧
      s'.value path.bytes = some (leBytes 32 value.toNat ++ ((s.value path.bytes).getD []).drop 32) ∧
      readU256 path s' = .ok value s') ∧
    (∀ (objectPath : OwnedPath) (blockHash : H256) (blockNumber : U256) (object : TransactionObject)
      (s s' : Store), storeTransactionObject objectPath blockHash blockNumber object s = .ok () s' →
      ∀ field ∈ [(TRANSACTION_OBJECT_BLOCK_NUMBER, blockNumber), (TRANSACTION_OBJECT_GAS_USED, object.gasUsed),
        (TRANSACTION_OBJECT_GAS_PRICE, object.gasPrice), (TRANSACTION_OBJECT_NONCE, object.nonce),
        (TRANSACTION_OBJECT_VALUE, object.value), (TRANSACTION_OBJECT_V, object.v)],
        ∃ p, concat objectPath field.1 = .ok p ∧ readU256 p s' = .ok field.2 s') ∧
    (∀ (h : TransactionHash) (blockHash : H256) (blockNumber : U256) (object : TransactionObject) (s : Store),
      ∃ s', storeTransactionObject (Layout.object h) blockHash blockNumber object s = .ok () s') := by
  refine ⟨fun path value s => ⟨_, writeU256_apply path value s, if_pos rfl, readU256_of_leBytes (if_pos rfl)⟩,
    fun objectPath blockHash blockNumber object s s' hrun field hfield => ?_,
    fun h blockHash blockNumber object s => ?_⟩
  · have hspec := transactionObjectFields_spec blockHash blockNumber object
    rw [storeTransactionObject_eq] at hrun
    obtain ⟨p, hp, rest, hv⟩ := writeFields_leaves (fun f hf => (hspec f hf).2)
      (transactionObjectFields_nodup blockHash blockNumber object)
      (mem_transactionObjectFields_of_word blockHash blockNumber object hfield)
      (fun p => writeU256_leaves p field.2) hrun
    exact ⟨p, hp, readU256_of_leBytes hv⟩
  · have hspec := transactionObjectFields_spec blockHash blockNumber object
    rw [storeTransactionObject_eq]
    exact writeFields_ok (fun f hf => ⟨_, concat_eq_join (length_append_field (Layout.length_object h).le
      (length_object_fields _ (hspec f hf).1))⟩) (fun f hf => (hspec f hf).2) s

/-- A stored object with block number 7 reads it back. -/
theorem readU256_writeU256_blockNumber :
    ∃ s', storeTransactionObject (Layout.object zeroHash)
        zeroHash 7
        ⟨zeroHash, FixedBytes.replicate 20 0,
          1, 2, [3], 4, none, 5, 6, 7, zeroHash,
          zeroHash⟩ Store.empty = .ok () s' ∧
      ∃ p, concat (Layout.object zeroHash)
        TRANSACTION_OBJECT_BLOCK_NUMBER = .ok p ∧ readU256 p s' = .ok 7 s' := by
  obtain ⟨s', hs⟩ := readU256_writeU256.2.2 _ _ 7 _ Store.empty
  exact ⟨s', hs, readU256_writeU256.2.1 _ _ _ _ _ _ hs _ (List.mem_cons_self _ _)⟩


/-! ## A run of objects -/

/-- The fields `storeTransactionObject` writes with `writeU256`, with their
values. -/
def wordFields (blockNumber : U256) (object : TransactionObject) : List (OwnedPath × U256) :=
  [(TRANSACTION_OBJECT_BLOCK_NUMBER, blockNumber), (TRANSACTION_OBJECT_GAS_USED, object.gasUsed),
    (TRANSACTION_OBJECT_GAS_PRICE, object.gasPrice), (TRANSACTION_OBJECT_NONCE, object.nonce),
    (TRANSACTION_OBJECT_VALUE, object.value), (TRANSACTION_OBJECT_V, object.v)]

/-- Storing an object at its layout path never fails, and leaves each word
field starting with the word's 32 bytes. -/
theorem storeTransactionObject_words (h : TransactionHash) (blockHash : H256) (blockNumber : U256)
    (object : TransactionObject) (s : Store) :
    ∃ s', storeTransactionObject (Layout.object h) blockHash blockNumber object s = .ok () s' ∧
      ∀ field ∈ wordFields blockNumber object, ∃ p, concat (Layout.object h) field.1 = .ok p ∧
        ∃ rest, s'.value p.bytes = some (leBytes 32 field.2.toNat ++ rest) := by
  have hspec := transactionObjectFields_spec blockHash blockNumber object
  rw [storeTransactionObject_eq]
  obtain ⟨s', hrun⟩ := writeFields_ok (fun f hf => ⟨_, concat_eq_join (length_append_field
    (Layout.length_object h).le (length_object_fields _ (hspec f hf).1))⟩) (fun f hf => (hspec f hf).2) s
  exact ⟨s', hrun, fun field hfield => writeFields_leaves (fun f hf => (hspec f hf).2)
    (transactionObjectFields_nodup blockHash blockNumber object)
    (mem_transactionObjectFields_of_word blockHash blockNumber object hfield)
    (fun p => writeU256_leaves p field.2) hrun⟩

/-- Object paths all have one length, so a path under two of them is under one
object only. -/
theorem Layout.eq_of_isStrictlyUnder_object {h h' : TransactionHash} {q : Bytes}
    (hq : IsStrictlyUnder (Layout.object h).bytes q) (hq' : IsStrictlyUnder (Layout.object h').bytes q) :
    h = h' :=
  Layout.object_injective (OwnedPath.bytes_injective (eq_of_isAtOrUnder_of_length_eq hq.isAtOrUnder
    hq'.isAtOrUnder (by rw [Layout.length_object, Layout.length_object])))

/-- The last object stored with each hash wins: `storeTransactionObjects` never
fails, and afterwards every word field of an object that no later object of the
list shares a hash with reads back as that object's value, its block number as
the block's. -/
theorem storeTransactionObjects_lastWins (block : L2Block) :
    ∀ (objects : List TransactionObject) (s : Store),
      ∃ s', storeTransactionObjects block objects s = .ok () s' ∧
        ∀ pre o post, objects = pre ++ o :: post → (∀ o' ∈ post, o'.hash ≠ o.hash) →
          ∀ field ∈ wordFields block.number o,
            ∃ p, concat (Layout.object o.hash) field.1 = .ok p ∧ readU256 p s' = .ok field.2 s'
  | [], s => ⟨s, rfl, fun pre _ _ h => absurd h.symm (by simp)⟩
  | o :: rest, s => by
      obtain ⟨s₁, h₁, hwords⟩ := storeTransactionObject_words o.hash block.hash block.number o s
      obtain ⟨s', hrest, hlast⟩ := storeTransactionObjects_lastWins block rest s₁
      have hobj : ((monadLift (objectPath o.hash) : EStateM Error Store OwnedPath) >>= fun p =>
          storeTransactionObject p block.hash block.number o) s = .ok () s₁ := by
        rw [objectPath_eq, ok_bind]
        exact h₁
      refine ⟨s', (bind_apply_of_ok hobj).trans hrest, fun pre o' post hsplit hpost field hfield => ?_⟩
      cases pre with
      | nil =>
          obtain ⟨rfl, rfl⟩ := List.cons.inj hsplit
          obtain ⟨p, hp, tail, hv⟩ := hwords field hfield
          have hunder : IsStrictlyUnder (Layout.object o.hash).bytes p.bytes :=
            (concat_bytes hp).symm ▸ isStrictlyUnder_append_path _ _
          have hkeep := storeTransactionObjects_changesOnly block rest s₁ p.bytes fun ⟨o'', ho'', hq⟩ =>
            hpost o'' ho'' (Layout.eq_of_isStrictlyUnder_object hq hunder)
          rw [hrest, EStateM.Result.state] at hkeep
          exact ⟨p, hp, readU256_of_leBytes (hkeep.trans hv)⟩
      | cons o'' pre =>
          obtain ⟨-, rfl⟩ := List.cons.inj hsplit
          exact hlast pre o' post rfl hpost field hfield

/-- Two objects with one hash, gas used 1 then 9: the second one's value is
read back. -/
theorem storeTransactionObjects_lastWins_repeated :
    ∃ s', storeTransactionObjects ⟨0, zeroHash, []⟩
        [⟨zeroHash, FixedBytes.replicate 20 0,
          1, 0, [], 0, none, 0, 0, 0, zeroHash,
          zeroHash⟩,
        ⟨zeroHash, FixedBytes.replicate 20 0,
          9, 0, [], 0, none, 1, 0, 0, zeroHash,
          zeroHash⟩] Store.empty = .ok () s' ∧
      ∃ p, concat (Layout.object zeroHash) TRANSACTION_OBJECT_GAS_USED =
        .ok p ∧ readU256 p s' = .ok 9 s' := by
  obtain ⟨s', hrun, hlast⟩ := storeTransactionObjects_lastWins ⟨0, zeroHash, []⟩
    [⟨zeroHash, FixedBytes.replicate 20 0,
      1, 0, [], 0, none, 0, 0, 0, zeroHash,
      zeroHash⟩,
    ⟨zeroHash, FixedBytes.replicate 20 0,
      9, 0, [], 0, none, 1, 0, 0, zeroHash,
      zeroHash⟩] Store.empty
  exact ⟨s', hrun, hlast [_] _ [] rfl (fun _ h => absurd h (List.not_mem_nil _)) _
    (List.mem_cons_of_mem _ (List.mem_cons_self _ _))⟩

/-! ## Receipts -/

/-- Receipts of distinct hashes never fail to be stored, from any store, and
each receipt path then holds the receipt's encoding in front of what the path
held beyond it. -/
theorem storeTransactionReceipts_values {Receipt : Type} (hashOf : Receipt → TransactionHash)
    (rlpBytes : Receipt → Bytes) :
    ∀ (receipts : List Receipt) (s : Store), (receipts.map hashOf).Nodup →
      ∃ s', storeTransactionReceipts hashOf rlpBytes receipts s = .ok () s' ∧
        ∀ r ∈ receipts, (s'.value (Layout.receipt (hashOf r)).bytes).getD [] =
          rlpBytes r ++ ((s.value (Layout.receipt (hashOf r)).bytes).getD []).drop (rlpBytes r).length
  | [], s, _ => ⟨s, rfl, by simp⟩
  | r :: rest, s, hnodup => by
      rw [List.map_cons, List.nodup_cons, List.mem_map] at hnodup
      obtain ⟨s₁, h₁, hv₁⟩ := storeWriteAll_value (Layout.receipt (hashOf r)) (rlpBytes r) s
      have hkeep : ∀ r' ∈ rest, s₁.value (Layout.receipt (hashOf r')).bytes =
          s.value (Layout.receipt (hashOf r')).bytes := fun r' hr' => by
        have hq := storeWriteAll_changesOnly (Layout.receipt (hashOf r)) (rlpBytes r) s _ fun heq =>
          hnodup.1 ⟨r', hr', Layout.receipt_injective (OwnedPath.bytes_injective heq)⟩
        rwa [h₁] at hq
      obtain ⟨s', hrest, hvs⟩ := storeTransactionReceipts_values hashOf rlpBytes rest s₁ hnodup.2
      have hr := storeTransactionReceipts_changesOnly hashOf rlpBytes rest s₁ (Layout.receipt (hashOf r)).bytes
        fun ⟨r', hr', heq⟩ => hnodup.1 ⟨r', hr', (Layout.receipt_injective (OwnedPath.bytes_injective heq)).symm⟩
      rw [hrest, EStateM.Result.state] at hr
      have hone : ((monadLift (receiptPath (hashOf r)) : EStateM Error Store OwnedPath) >>= fun p =>
          storeTransactionReceipt rlpBytes p r) s = .ok () s₁ := by
        rw [receiptPath_eq, ok_bind]
        exact h₁
      refine ⟨s', (bind_apply_of_ok hone).trans hrest, ?_⟩
      rintro r' (_ | ⟨_, hr'⟩)
      · rw [hr, hv₁]
      · rw [hvs r' hr', hkeep r' hr']

end KernelEvmStorage
