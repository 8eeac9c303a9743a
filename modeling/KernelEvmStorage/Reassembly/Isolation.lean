import KernelEvmStorage.Reassembly.Refinement
import KernelEvmStorage.Storage.Objects

/-!
# Independence of the storing operations

Every storing function writes inside the subtree of its own entity.  For the
chunked-transaction calls this gives more than a frame: a call's result and
writes depend only on the subtree of its hash, so the calls of one hash in any
interleaving return what they return alone.  The frame is stated for values
everywhere outside the subtree, but for subkeys only away from the paths above
it: creating a transaction adds a step under `/chunked_transactions`.

The same footprint carries the ingestion invariant: a fragment is stored only
while the count of its hash is, and removal and completion delete both.
-/

namespace KernelEvmStorage

/-- A call of the chunked-transaction interface: a request for a hash. -/
structure Call where
  hash : TransactionHash
  request : Request

/-- The storage function that serves a call. -/
def Call.exec (c : Call) : EStateM Error Store (Option Bytes) := c.request.exec c.hash

theorem Request.exec_confined (h : TransactionHash) (q : Request) :
    Confined (IsAtOrUnder (Layout.chunked h).bytes) (q.exec h) := by
  cases q with
  | create N => exact (createChunkedTransaction_confined h N).bind fun _ => Confined.pure _
  | storeChunk i data => exact storeTransactionChunk_confined h i data
  | remove => exact (removeChunkedTransaction_confined h).bind fun _ => Confined.pure _

/-- A run interleaved with calls for other hashes returns, for the calls of
`h`, what the run of those calls alone returns, and ends with the same subtree
of `h`, from any two stores that agree on that subtree. -/
theorem runAll_filter_hash (h : TransactionHash) :
    ∀ (calls : List Call) (s t : Store), s.AgreeOn (IsAtOrUnder (Layout.chunked h).bytes) t →
      ((calls.zip (runAll Call.exec calls s).1).filter fun c => c.1.hash = h).map Prod.snd =
          (runAll Call.exec (calls.filter fun c => c.hash = h) t).1 ∧
        (runAll Call.exec calls s).2.AgreeOn (IsAtOrUnder (Layout.chunked h).bytes)
          (runAll Call.exec (calls.filter fun c => c.hash = h) t).2
  | [], _, _, hst => ⟨rfl, hst⟩
  | c :: calls, s, t, hst => by
      by_cases hc : c.hash = h
      · subst hc
        obtain ⟨hres, hagree⟩ := (Request.exec_confined c.hash c.request).agree s t hst
        obtain ⟨ih, hend⟩ := runAll_filter_hash c.hash calls _ _ hagree
        simp only [runAll, List.zip_cons_cons, List.filter_cons, decide_True, if_true,
          List.map_cons]
        exact ⟨congrArg₂ List.cons hres ih, hend⟩
      · have hkeep : (c.exec s).state.AgreeOn (IsAtOrUnder (Layout.chunked h).bytes) t :=
          fun q hq => ((Request.exec_confined c.hash c.request).changesOnly s q
            (Layout.not_isAtOrUnder_chunked_of_ne hc hq)).trans (hst q hq)
        simp only [runAll, List.zip_cons_cons, List.filter_cons, hc, decide_False]
        exact runAll_filter_hash h calls _ _ hkeep

/-! ## Independence of the storing operations -/

/-- Creating a transaction adds its hash to the steps below
`/chunked_transactions`, a path outside its subtree. -/
theorem createChunkedTransaction_adds_subkey (h : TransactionHash) (N : UInt16) :
    ¬IsAtOrUnder (Layout.chunked h).bytes CHUNKED_TRANSACTIONS.bytes ∧
      Store.empty.subkeys CHUNKED_TRANSACTIONS.bytes = ∅ ∧
      (createChunkedTransaction h N Store.empty).state.subkeys CHUNKED_TRANSACTIONS.bytes =
        {hexEncode h.bytes} := by
  have hpath : (Layout.numChunks h).bytes = CHUNKED_TRANSACTIONS.bytes ++ PATH_SEPARATOR ::
      (hexEncode h.bytes ++ PATH_SEPARATOR :: ascii "num_chunks") := by
    rw [Layout.numChunks_bytes, Layout.chunked_bytes, List.append_assoc, List.cons_append]
  refine ⟨fun hle => absurd hle.isPrefix.length_le (by rw [Layout.length_chunked]; decide), rfl, ?_⟩
  rw [createChunkedTransaction_apply N (by simp)]
  simp only [EStateM.Result.state, Store.subkeys, Store.set, Store.empty, insert_emptyc_eq,
    Finset.filter_singleton, hpath, if_pos (isStrictlyUnder_append _ _), Finset.image_singleton,
    childStep_append_sep (separator_not_mem_hexEncode _)]

theorem createChunkedTransaction_adds_subkey_empty :
    ¬IsAtOrUnder (Layout.chunked zeroHash).bytes
        CHUNKED_TRANSACTIONS.bytes ∧
      (createChunkedTransaction zeroHash 1 Store.empty).state.subkeys
        CHUNKED_TRANSACTIONS.bytes ≠ Store.empty.subkeys CHUNKED_TRANSACTIONS.bytes := by
  obtain ⟨hout, hbefore, hafter⟩ := createChunkedTransaction_adds_subkey zeroHash 1
  rw [hbefore, hafter]
  exact ⟨hout, Finset.singleton_ne_empty _⟩

/-- Each storing operation writes only the subtree of its own entity: the
chunked-transaction calls keep every value outside the subtree of their hash,
and every subkey set but those of the paths above it; the block, object and
receipt writers change values only under their entities' paths.  So in any
interleaving of chunked-transaction calls, the calls of one hash return what
they return when run alone. -/
theorem storing_operations_stay_in_subtree :
    (∀ h N, KeepsOutside (Layout.chunked h).bytes (createChunkedTransaction h N)) ∧
    (∀ h i data, KeepsOutside (Layout.chunked h).bytes (storeTransactionChunk h i data)) ∧
    (∀ h, KeepsOutside (Layout.chunked h).bytes (removeChunkedTransaction h)) ∧
    (∀ block, ChangesOnly (IsStrictlyUnder (Layout.block block.number).bytes)
      (storeBlockByNumber block)) ∧
    (∀ block, ChangesOnly (fun q => IsStrictlyUnder (Layout.block block.number).bytes q ∨
      q = EVM_CURRENT_BLOCK.bytes ++ BLOCKS_NUMBER.bytes) (storeCurrentBlock block)) ∧
    (∀ block objects, ChangesOnly (fun q => ∃ o ∈ objects, IsStrictlyUnder (Layout.object o.hash).bytes q)
      (storeTransactionObjects block objects)) ∧
    (∀ (Receipt : Type) (hashOf : Receipt → TransactionHash) rlpBytes receipts,
      ChangesOnly (fun q => ∃ r ∈ receipts, q = (Layout.receipt (hashOf r)).bytes)
        (storeTransactionReceipts hashOf rlpBytes receipts)) ∧
    ∀ (calls : List Call) (s : Store) (h : TransactionHash),
      ((calls.zip (runAll Call.exec calls s).1).filter fun c => c.1.hash = h).map Prod.snd =
        (runAll Call.exec (calls.filter fun c => c.hash = h) s).1 :=
  ⟨fun h N => (createChunkedTransaction_confined h N).changesOnly.keepsOutside,
    fun h i data => (storeTransactionChunk_confined h i data).changesOnly.keepsOutside,
    fun h => (removeChunkedTransaction_confined h).changesOnly.keepsOutside,
    storeBlockByNumber_changesOnly, storeCurrentBlock_changesOnly, storeTransactionObjects_changesOnly,
    fun _ => storeTransactionReceipts_changesOnly,
    fun calls s h => (runAll_filter_hash h calls s s (Store.AgreeOn.refl _ s)).1⟩

/-! ## Fragments only beside a count -/

/-- Every stored fragment of a hash sits beside the count of its chunks. -/
def FragmentsBesideNumChunks (s : Store) : Prop :=
  ∀ (h : TransactionHash) (i : UInt16),
    s.value (Layout.chunk h i).bytes ≠ none → s.value (Layout.numChunks h).bytes ≠ none

namespace FragmentsBesideNumChunks

variable {s : Store} (hs : FragmentsBesideNumChunks s)
include hs

theorem set_numChunks (h' : TransactionHash) (v : Bytes) :
    FragmentsBesideNumChunks (s.set (Layout.numChunks h').bytes v) := fun h i hv => by
  have hne : (Layout.chunk h i).bytes ≠ (Layout.numChunks h').bytes := fun heq =>
    Layout.numChunks_not_isAtOrUnder_chunk h' h i (heq ▸ isAtOrUnder_refl _)
  rw [Store.set_value, if_neg hne] at hv
  rw [Store.set_value]
  split_ifs
  · exact Option.some_ne_none v
  · exact hs h i hv

theorem deleteAtOrUnder_chunked (h' : TransactionHash) :
    FragmentsBesideNumChunks (s.deleteAtOrUnder (Layout.chunked h').bytes) := fun h i hv => by
  rw [Store.deleteAtOrUnder_value] at hv ⊢
  split_ifs at hv with hc
  · exact absurd rfl hv
  rw [if_neg fun hn => hc ?_]
  · exact hs h i hv
  obtain rfl : h' = h := Layout.eq_of_isAtOrUnder_chunked hn (Layout.numChunks_isStrictlyUnder h).isAtOrUnder
  exact (Layout.chunk_isStrictlyUnder h' i).isAtOrUnder

/-- A write inside the subtree of one fragment, made while the count of its
hash is stored. -/
theorem of_changesOnly_chunk {s' : Store} {h : TransactionHash} {i : UInt16}
    (hh : s.value (Layout.numChunks h).bytes ≠ none)
    (hs' : ∀ q, ¬IsAtOrUnder (Layout.chunk h i).bytes q → s'.value q = s.value q) :
    FragmentsBesideNumChunks s' := fun h' i' hv => by
  rw [hs' _ (Layout.numChunks_not_isAtOrUnder_chunk h' h i)]
  by_cases hq : IsAtOrUnder (Layout.chunk h i).bytes (Layout.chunk h' i').bytes
  · obtain rfl : h = h' := Layout.eq_of_isAtOrUnder_chunked (Layout.isAtOrUnder_chunked_of_chunk h hq)
      (Layout.chunk_isStrictlyUnder h' i').isAtOrUnder
    exact hh
  · exact hs h' i' (hs' _ hq ▸ hv)

end FragmentsBesideNumChunks

theorem Call.exec_fragmentsBeside (c : Call) {s : Store} (hs : FragmentsBesideNumChunks s) :
    FragmentsBesideNumChunks (c.exec s).state := by
  obtain ⟨h, q⟩ := c
  cases q with
  | create N =>
      show FragmentsBesideNumChunks ((createChunkedTransaction h N >>= fun _ => pure none) s).state
      rw [bind_apply_of_ok (createChunkedTransaction_writes h N s)]
      exact hs.set_numChunks h _
  | storeChunk i data =>
      show FragmentsBesideNumChunks (storeTransactionChunk h i data s).state
      rcases storeTransactionChunk_cases h i data s with ⟨e, he⟩ | ⟨d, hd⟩ | ⟨hsome, hwrite⟩
      · rwa [he]
      · rw [hd]
        exact hs.deleteAtOrUnder_chunked h
      · rw [hwrite]
        refine hs.of_changesOnly_chunk (i := i) (fun hn => by simp [hn] at hsome) fun p hp =>
          ((storeTransactionChunkData_confined (fun _ hq => hq) data).bind
            fun _ => Confined.pure _).changesOnly s p hp
  | remove =>
      show FragmentsBesideNumChunks ((removeChunkedTransaction h >>= fun _ => pure none) s).state
      have hrem := removeChunkedTransaction_apply h s
      split_ifs at hrem
      · rwa [bind_apply_of_error hrem]
      · rw [bind_apply_of_ok hrem]
        exact hs.deleteAtOrUnder_chunked h

theorem runAll_fragmentsBeside :
    ∀ (calls : List Call) {s : Store}, FragmentsBesideNumChunks s →
      FragmentsBesideNumChunks (runAll Call.exec calls s).2
  | [], _, hs => hs
  | c :: calls, _, hs => runAll_fragmentsBeside calls (c.exec_fragmentsBeside hs)

/-- A bounded fragment is ingested atomically: a failure leaves the store as it
was. -/
theorem storeTransactionChunk_error_eq {h : TransactionHash} {i : UInt16} {data : Bytes}
    (hdata : data.length ≤ 2 * MAX_FILE_CHUNK_SIZE) {s s' : Store} {e : Error}
    (he : storeTransactionChunk h i data s = .error e s') : s' = s := by
  rcases storeTransactionChunk_cases h i data s with ⟨e', he'⟩ | ⟨d, hd⟩ | ⟨-, hwrite⟩
  · cases he'.symm.trans he
    rfl
  · cases hd.symm.trans he
  · rw [hwrite] at he
    cases hv : s.value (Layout.chunk h i).bytes with
    | none => rw [bind_apply_of_ok (storeTransactionChunkData_apply_of_none hdata hv)] at he; cases he
    | some v => rw [bind_apply_of_ok (storeTransactionChunkData_apply_of_some data hv)] at he; cases he

/-- Ingestion fails atomically on bounded fragments, fails with nothing
written where no count is stored, and so no run of the chunked-transaction
calls leaves a fragment without its count. -/
theorem storeTransactionChunk_fails_atomically :
    (∀ (h : TransactionHash) (i : UInt16) (data : Bytes) (s s' : Store) (e : Error),
      data.length ≤ 2 * MAX_FILE_CHUNK_SIZE → storeTransactionChunk h i data s = .error e s' → s' = s) ∧
    (∀ (h : TransactionHash) (i : UInt16) (data : Bytes) (s : Store),
      s.value (Layout.numChunks h).bytes = none →
        storeTransactionChunk h i data s = .error (.ofRuntime .storeNotAValue) s) ∧
    FragmentsBesideNumChunks Store.empty ∧
    ∀ (calls : List Call) (s : Store), FragmentsBesideNumChunks s →
      FragmentsBesideNumChunks (runAll Call.exec calls s).2 :=
  ⟨fun _ _ _ _ _ _ hdata he => storeTransactionChunk_error_eq hdata he,
    fun _ i data _ hv => storeTransactionChunk_apply_of_none hv i data,
    fun _ _ hv => absurd rfl hv,
    fun calls _ hs => runAll_fragmentsBeside calls hs⟩

/-- A completion that fails after the count is read: the count says one
fragment, and index 0 holds only a subtree, so reading it fails and the store
is left as it was. -/
theorem storeTransactionChunk_fails_atomically_subtree :
    let s₀ := (createChunkedTransaction zeroHash 1 Store.empty).state.set
      ((Layout.chunk zeroHash 0).bytes ++ CHUNKED_TRANSACTION_NUM_CHUNKS.bytes) [7]
    storeTransactionChunk zeroHash 1 [] s₀ = .error (.ofRuntime .storeNotAValue) s₀ ∧
      (∀ s' e, storeTransactionChunk zeroHash 1 [] s₀ = .error e s' → s' = s₀) ∧
      storeTransactionChunk zeroHash 0 [] Store.empty = .error (.ofRuntime .storeNotAValue) Store.empty ∧
      FragmentsBesideNumChunks (runAll Call.exec
        [⟨zeroHash, .create 1⟩, ⟨zeroHash, .storeChunk 0 [5]⟩] Store.empty).2 := by
  intro s₀
  obtain ⟨s₁, hcreate, hs₁⟩ := Request.create_refines (o := none) (h := zeroHash) (s := Store.empty)
    (fun _ _ => rfl) 1
  have hs₀ : s₀ = s₁.set ((Layout.chunk zeroHash 0).bytes ++ CHUNKED_TRANSACTION_NUM_CHUNKS.bytes) [7] := by
    simp only [s₀, hcreate]; rfl
  have hunder := isStrictlyUnder_append_path (Layout.chunk zeroHash 0) CHUNKED_TRANSACTION_NUM_CHUNKS
  have hne : (Layout.numChunks zeroHash).bytes ≠
      (Layout.chunk zeroHash 0).bytes ++ CHUNKED_TRANSACTION_NUM_CHUNKS.bytes := fun heq =>
    Layout.numChunks_not_isAtOrUnder_chunk zeroHash zeroHash 0 (heq ▸ hunder.isAtOrUnder)
  have hN : chunkedTransactionNumChunksByPath (Layout.chunked zeroHash) s₀ = .ok 1 s₀ := by
    rw [chunkedTransactionNumChunksByPath_apply, hs₀, Store.set_value, if_neg hne, hs₁.1]
    rfl
  have hcard : 1 ≤ (s₀.subkeys (Layout.chunked zeroHash).bytes).card ∧
      (s₀.subkeys (Layout.chunked zeroHash).bytes).card ≤ 2 := by
    rw [hs₀, Store.subkeys_set, if_pos ((Layout.chunk_isStrictlyUnder zeroHash 0).isAtOrUnder.trans_strict hunder),
      hs₁.subkeys_eq]
    exact ⟨Finset.card_pos.2 (Finset.insert_nonempty _ _),
      (Finset.card_insert_le _ _).trans (by simp [Reassembly.start])⟩
  have hcomplete : isTransactionComplete (Layout.chunked zeroHash) 1 s₀ = .ok true s₀ := by
    rw [isTransactionComplete_apply, decide_eq_true (UInt16.le_iff_toNat_le.2 (by
      rw [toNat_toUInt16, Nat.mod_eq_of_lt (by omega)]; exact hcard.1))]
  have hchunk : s₀.value (Layout.chunk zeroHash 0).bytes = none := by
    rw [hs₀, Store.set_value, if_neg (fun heq => ?_), hs₁.2.1 0]
    · rfl
    · exact hunder.length_lt.ne (congrArg List.length heq)
  have hsub : s₀.HasSubtree (Layout.chunk zeroHash 0).bytes :=
    ⟨_, Store.mem_keys_iff.2 (by rw [hs₀, Store.set_value, if_pos rfl]; simp), hunder⟩
  have hfull : getFullTransaction (Layout.chunked zeroHash) 1 [] s₀ = .error (.ofRuntime .storeNotAValue) s₀ := by
    rw [getFullTransaction, show List.range (UInt16.toNat 1) = [0] from rfl, List.foldlM_cons]
    refine bind_apply_of_error ?_
    rw [getFullTransactionStep_apply, show (0 : Nat).toUInt16 = 0 from rfl, hchunk]
    unfold Store.valueType
    rw [hchunk, decide_eq_true hsub]
  refine ⟨?_, fun s' e he => storeTransactionChunk_fails_atomically.1 zeroHash 1 [] s₀ s' e (by decide) he,
    storeTransactionChunk_fails_atomically.2.1 _ 0 [] Store.empty rfl,
    storeTransactionChunk_fails_atomically.2.2.2 _ Store.empty storeTransactionChunk_fails_atomically.2.2.1⟩
  rw [storeTransactionChunk_eq, bind_apply_of_ok hN, bind_apply_of_ok hcomplete, if_pos rfl,
    bind_apply_of_error hfull]

end KernelEvmStorage
