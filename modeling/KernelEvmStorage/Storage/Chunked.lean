import KernelEvmStorage.Storage.Entities

/-!
# Chunked transactions

A transaction too large for one inbox message arrives as fragments.  The
storage module keeps, under `/chunked_transactions/<hex hash>`, the expected
number of fragments (`num_chunks`) and each fragment received so far under its
decimal index.  A fragment whose arrival brings the subtree's subkey count to
the expected number is not stored: the full transaction is read back in index
order, with the fragment the call carries in the place of the missing one, and
the subtree is deleted.

This module is the translation of those functions, followed by one lemma for
each of them that says what it does from any state of the store.
-/

namespace KernelEvmStorage

def isTransactionComplete (chunkedTransactionPath : OwnedPath) (numChunks : UInt16) :
    EStateM Error Store Bool := do
  let nSubkeys := (← Runtime.storeCountSubkeys chunkedTransactionPath).toUInt16
  -- `n_subkeys` includes the key `num_chunks`. The transaction is complete if
  -- number of chunks = num_chunks - 1, the last chunk is not written on disk
  -- and is kept in memory instead.
  pure (nSubkeys ≥ numChunks)

def chunkedTransactionNumChunksByPath (chunkedTransactionPath : OwnedPath) :
    EStateM Error Store UInt16 := do
  let chunkedTransactionNumChunksPath ←
    chunkedTransactionNumChunksPath chunkedTransactionPath
  let buffer ← storeReadSlice chunkedTransactionNumChunksPath (zeroBuffer 2) 2
  pure (leValue buffer).toUInt16

def chunkedTransactionNumChunks (txHash : TransactionHash) : EStateM Error Store UInt16 := do
  let chunkedTransactionPath ← chunkedTransactionPath txHash
  chunkedTransactionNumChunksByPath chunkedTransactionPath

def storeTransactionChunkData (transactionChunkPath : OwnedPath) (data : Bytes) :
    EStateM Error Store Unit := do
  match ← Runtime.storeHas transactionChunkPath with
  | some .value | some .valueWithSubtree => pure ()
  | _ =>
      if MAX_FILE_CHUNK_SIZE < data.length then
        -- It comes from an input so it's maximum 4096 bytes (with the message header).
        let (data1, data2) := data.splitAt MAX_FILE_CHUNK_SIZE
        Runtime.storeWrite transactionChunkPath data1 0
        Runtime.storeWrite transactionChunkPath data2 MAX_FILE_CHUNK_SIZE
      else
        Runtime.storeWrite transactionChunkPath data 0

def readTransactionChunkData (transactionChunkPath : OwnedPath) : EStateM Error Store Bytes := do
  let dataSize ← Runtime.storeValueSize transactionChunkPath
  if MAX_FILE_CHUNK_SIZE < dataSize then
    let data1 ← Runtime.storeRead transactionChunkPath 0 MAX_FILE_CHUNK_SIZE
    let data2 ← Runtime.storeRead transactionChunkPath MAX_FILE_CHUNK_SIZE MAX_FILE_CHUNK_SIZE
    pure (data1 ++ data2)
  else
    Runtime.storeRead transactionChunkPath 0 MAX_FILE_CHUNK_SIZE

/-- One turn of the loop of `getFullTransaction`, at index `i`. -/
def getFullTransactionStep (chunkedTransactionPath : OwnedPath) (missingData : Bytes)
    (buffer : Bytes) (i : Nat) : EStateM Error Store Bytes := do
  let transactionChunkPath ← transactionChunkPath chunkedTransactionPath i.toUInt16
  -- If the transaction is complete and a chunk doesn't exist, it means that it is
  -- the last missing chunk, that was not stored in the storage.
  match ← Runtime.storeHas transactionChunkPath with
  | none => pure (buffer ++ missingData)
  | some _ =>
      let data ← readTransactionChunkData transactionChunkPath
      pure (buffer ++ data)

def getFullTransaction (chunkedTransactionPath : OwnedPath) (numChunks : UInt16)
    (missingData : Bytes) : EStateM Error Store Bytes :=
  (List.range numChunks.toNat).foldlM (getFullTransactionStep chunkedTransactionPath missingData) []

def removeChunkedTransactionByPath (path : OwnedPath) : EStateM Error Store Unit :=
  Runtime.storeDelete path

def removeChunkedTransaction (txHash : TransactionHash) : EStateM Error Store Unit := do
  let chunkedTransactionPath ← chunkedTransactionPath txHash
  removeChunkedTransactionByPath chunkedTransactionPath

/-- Store the transaction chunk in the storage. Returns the full transaction
if the last chunk to store is the last missing chunk. -/
def storeTransactionChunk (txHash : TransactionHash) (i : UInt16) (data : Bytes) :
    EStateM Error Store (Option Bytes) := do
  let chunkedTransactionPath ← chunkedTransactionPath txHash
  let numChunks ← chunkedTransactionNumChunksByPath chunkedTransactionPath
  if ← isTransactionComplete chunkedTransactionPath numChunks then
    let data ← getFullTransaction chunkedTransactionPath numChunks data
    Runtime.storeDelete chunkedTransactionPath
    pure (some data)
  else
    let transactionChunkPath ← transactionChunkPath chunkedTransactionPath i
    storeTransactionChunkData transactionChunkPath data
    pure none

def createChunkedTransaction (txHash : TransactionHash) (numChunks : UInt16) :
    EStateM Error Store Unit := do
  let chunkedTransactionPath ← chunkedTransactionPath txHash
  let chunkedTransactionNumChunksPath ←
    chunkedTransactionNumChunksPath chunkedTransactionPath
  Runtime.storeWrite chunkedTransactionNumChunksPath (leBytes 2 numChunks.toNat) 0

/-! ## What each function does -/

theorem chunkedTransactionNumChunksByPath_apply (h : TransactionHash) (s : Store) :
    chunkedTransactionNumChunksByPath (Layout.chunked h) s =
      match s.value (Layout.numChunks h).bytes with
      | none => .error (.ofRuntime .storeNotAValue) s
      | some v =>
          if 2 ≤ v.length then .ok (leValue (v.take 2)).toUInt16 s
          else .error (.storage (.invalidLoadValue 2 v.length)) s := by
  rw [chunkedTransactionNumChunksByPath, chunkedTransactionNumChunksPath_eq]
  show (storeReadSlice (Layout.numChunks h) (zeroBuffer 2) 2 >>= fun buffer =>
    pure (leValue buffer).toUInt16) s = _
  cases hv : s.value (Layout.numChunks h).bytes with
  | none => 
      rw [bind_apply_of_error (by rw [storeReadSlice_apply, hv])]
  | some v =>
      have hmin : min (zeroBuffer 2).length MAX_FILE_CHUNK_SIZE = 2 := by decide
      by_cases hlen : 2 ≤ v.length
      · rw [bind_apply_of_ok (by rw [storeReadSlice_apply, hv]; simp only [hmin, List.length_take]; rw [if_pos (by omega)])]
        simp [hlen, zeroBuffer, show min 2 v.length = 2 by omega]
      · rw [bind_apply_of_error (by rw [storeReadSlice_apply, hv]; simp only [hmin, List.length_take]; rw [if_neg (by omega)])]
        simp [hlen]; omega

theorem isTransactionComplete_apply (P : OwnedPath) (N : UInt16) (s : Store) :
    isTransactionComplete P N s = .ok (decide (N ≤ (s.subkeys P.bytes).card.toUInt16)) s := rfl

theorem readTransactionChunkData_apply (path : OwnedPath) (s : Store) :
    readTransactionChunkData path s =
      match s.value path.bytes with
      | none => .error (.ofRuntime .storeNotAValue) s
      | some v => .ok (v.take (2 * MAX_FILE_CHUNK_SIZE)) s := by
  unfold readTransactionChunkData
  cases hv : s.value path.bytes with
  | none => exact bind_apply_of_error (by simp [Runtime.storeValueSize, hv])
  | some v =>
      rw [bind_apply_of_ok (show Runtime.storeValueSize path s = .ok v.length s by
        simp [Runtime.storeValueSize, hv])]
      split_ifs with hbig
      · rw [bind_apply_of_ok (Runtime.storeRead_apply_of_some hv (Nat.zero_le _)),
          bind_apply_of_ok (Runtime.storeRead_apply_of_some hv hbig.le)]
        simp [two_mul, List.take_add]
      · rw [Runtime.storeRead_apply_of_some hv (Nat.zero_le _)]
        simp [List.take_of_length_le (show v.length ≤ MAX_FILE_CHUNK_SIZE by omega),
          List.take_of_length_le (show v.length ≤ 2 * MAX_FILE_CHUNK_SIZE by omega)]

theorem storeTransactionChunkData_apply_of_some {path : OwnedPath} {s : Store} {v : Bytes}
    (data : Bytes) (hv : s.value path.bytes = some v) :
    storeTransactionChunkData path data s = .ok () s := by
  unfold storeTransactionChunkData
  rw [bind_apply_of_ok (show Runtime.storeHas path s = .ok (s.valueType path.bytes) s from rfl)]
  rcases Store.valueType_of_value hv with h | h <;> rw [h] <;> rfl

/-- Where the path holds no value the fragment is written: in one write, or
split in two at `MAX_FILE_CHUNK_SIZE`. -/
theorem storeTransactionChunkData_writes {path : OwnedPath} {s : Store} (data : Bytes)
    (hv : s.value path.bytes = none) :
    storeTransactionChunkData path data s =
      (if MAX_FILE_CHUNK_SIZE < data.length then do
        Runtime.storeWrite path (data.take MAX_FILE_CHUNK_SIZE) 0
        Runtime.storeWrite path (data.drop MAX_FILE_CHUNK_SIZE) MAX_FILE_CHUNK_SIZE
      else Runtime.storeWrite path data 0) s := by
  unfold storeTransactionChunkData
  rw [bind_apply_of_ok (show Runtime.storeHas path s = .ok (s.valueType path.bytes) s from rfl)]
  have hvt : s.valueType path.bytes = some .subtree ∨ s.valueType path.bytes = none := by
    simp only [Store.valueType, hv]; split <;> simp_all
  rcases hvt with h | h <;> rw [h] <;> simp only [List.splitAt_eq]

theorem storeTransactionChunkData_apply_of_none {path : OwnedPath} {s : Store} {data : Bytes}
    (hdata : data.length ≤ 2 * MAX_FILE_CHUNK_SIZE) (hv : s.value path.bytes = none) :
    storeTransactionChunkData path data s = .ok () (s.set path.bytes data) := by
  rw [storeTransactionChunkData_writes data hv]
  split_ifs with hbig
  · rw [bind_apply_of_ok (Runtime.storeWrite_apply_of_none (by simp) hv),
      Runtime.storeWrite_apply_of_le (by simp; omega) (by simp; omega)]
    simp [List.take_take, List.drop_eq_nil_of_le (show (data.take MAX_FILE_CHUNK_SIZE).length ≤
      MAX_FILE_CHUNK_SIZE + (data.length - MAX_FILE_CHUNK_SIZE) by simp)]
  · exact Runtime.storeWrite_apply_of_none (by omega) hv

/-- A fragment longer than two store values fails on its second write, after
the first one. -/
theorem storeTransactionChunkData_apply_of_none_of_lt {path : OwnedPath} {s : Store} {data : Bytes}
    (hdata : 2 * MAX_FILE_CHUNK_SIZE < data.length) (hv : s.value path.bytes = none) :
    storeTransactionChunkData path data s =
      .error (.ofRuntime .inputOutputTooLarge) (s.set path.bytes (data.take MAX_FILE_CHUNK_SIZE)) := by
  rw [storeTransactionChunkData_writes data hv, if_pos (by omega)]
  exact (bind_apply_of_ok (Runtime.storeWrite_apply_of_none (by simp) hv)).trans
    (Runtime.storeWrite_apply_of_lt (by simp; omega))

theorem getFullTransactionStep_apply (h : TransactionHash) (missingData buffer : Bytes) (k : Nat)
    (s : Store) :
    getFullTransactionStep (Layout.chunked h) missingData buffer k s =
      match s.valueType (Layout.chunk h k.toUInt16).bytes, s.value (Layout.chunk h k.toUInt16).bytes with
      | none, _ => .ok (buffer ++ missingData) s
      | some _, none => .error (.ofRuntime .storeNotAValue) s
      | some _, some v => .ok (buffer ++ v.take (2 * MAX_FILE_CHUNK_SIZE)) s := by
  rw [getFullTransactionStep, transactionChunkPath_eq, ok_bind,
    bind_apply_of_ok (show Runtime.storeHas _ s = .ok (s.valueType _) s from rfl)]
  cases s.valueType (Layout.chunk h k.toUInt16).bytes with
  | none => rfl
  | some t =>
      show (readTransactionChunkData _ >>= fun data => pure (buffer ++ data)) s = _
      cases hv : s.value (Layout.chunk h k.toUInt16).bytes with
      | none => exact bind_apply_of_error (by rw [readTransactionChunkData_apply, hv])
      | some v => exact bind_apply_of_ok (by rw [readTransactionChunkData_apply, hv])

theorem getFullTransaction_readOnly (h : TransactionHash) (numChunks : UInt16) (missingData : Bytes) :
    ReadOnly (getFullTransaction (Layout.chunked h) numChunks missingData) :=
  ReadOnly.foldlM (fun acc k s => by rw [getFullTransactionStep_apply]; split <;> rfl) _ _

theorem chunkedTransactionNumChunksByPath_readOnly (h : TransactionHash) :
    ReadOnly (chunkedTransactionNumChunksByPath (Layout.chunked h)) := fun s => by
  rw [chunkedTransactionNumChunksByPath_apply]; split
  · rfl
  · split_ifs <;> rfl

theorem storeTransactionChunk_eq (h : TransactionHash) (i : UInt16) (data : Bytes) :
    storeTransactionChunk h i data = (do
      let numChunks ← chunkedTransactionNumChunksByPath (Layout.chunked h)
      if ← isTransactionComplete (Layout.chunked h) numChunks then
        let data ← getFullTransaction (Layout.chunked h) numChunks data
        Runtime.storeDelete (Layout.chunked h)
        pure (some data)
      else
        storeTransactionChunkData (Layout.chunk h i) data
        pure none) := by
  rw [storeTransactionChunk, chunkedTransactionPath_eq, ok_bind]
  simp only [transactionChunkPath_eq, ok_bind]

/-- Everything `storeTransactionChunk` can do: fail before it writes anything,
complete the transaction and delete its subtree, or store the fragment beside
an existing `num_chunks` value. -/
theorem storeTransactionChunk_cases (h : TransactionHash) (i : UInt16) (data : Bytes) (s : Store) :
    (∃ e, storeTransactionChunk h i data s = .error e s) ∨
    (∃ d, storeTransactionChunk h i data s =
      .ok (some d) (s.deleteAtOrUnder (Layout.chunked h).bytes)) ∨
    ((s.value (Layout.numChunks h).bytes).isSome ∧
      storeTransactionChunk h i data s =
        (storeTransactionChunkData (Layout.chunk h i) data >>= fun _ => pure none) s) := by
  rw [storeTransactionChunk_eq]
  rcases hN : chunkedTransactionNumChunksByPath (Layout.chunked h) s with ⟨N, s1⟩ | ⟨e, s1⟩
  · obtain rfl := (chunkedTransactionNumChunksByPath_readOnly h).eq_of_ok hN
    have hsome : (s.value (Layout.numChunks h).bytes).isSome := by
      rw [chunkedTransactionNumChunksByPath_apply] at hN
      cases hv : s.value (Layout.numChunks h).bytes with
      | none => simp [hv] at hN
      | some v => rfl
    rw [bind_apply_of_ok hN, bind_apply_of_ok (isTransactionComplete_apply _ _ _)]
    split
    · rcases hG : getFullTransaction (Layout.chunked h) N data s with ⟨d, s2⟩ | ⟨e, s2⟩
      · obtain rfl := (getFullTransaction_readOnly h N data).eq_of_ok hG
        rw [bind_apply_of_ok hG]
        by_cases hvt : s.valueType (Layout.chunked h).bytes = none
        · exact .inl ⟨_, bind_apply_of_error (show Runtime.storeDelete _ s = _ from if_pos hvt)⟩
        · exact .inr (.inl ⟨d, bind_apply_of_ok (show Runtime.storeDelete _ s = _ from if_neg hvt)⟩)
      · obtain rfl := (getFullTransaction_readOnly h N data).eq_of_error hG
        exact .inl ⟨e, bind_apply_of_error hG⟩
    · exact .inr (.inr ⟨hsome, rfl⟩)
  · obtain rfl := (chunkedTransactionNumChunksByPath_readOnly h).eq_of_error hN
    exact .inl ⟨e, bind_apply_of_error hN⟩

/-- The count is written over the first two bytes of whatever `num_chunks`
held. -/
theorem createChunkedTransaction_writes (h : TransactionHash) (N : UInt16) (s : Store) :
    createChunkedTransaction h N s =
      .ok () (s.set (Layout.numChunks h).bytes
        (leBytes 2 N.toNat ++ ((s.value (Layout.numChunks h).bytes).getD []).drop 2)) := by
  rw [createChunkedTransaction, chunkedTransactionPath_eq, ok_bind, chunkedTransactionNumChunksPath_eq,
    ok_bind, Runtime.storeWrite_apply_of_le (by simp [MAX_FILE_CHUNK_SIZE]) (Nat.zero_le _)]
  simp

theorem createChunkedTransaction_apply {h : TransactionHash} (N : UInt16) {s : Store}
    (hold : ((s.value (Layout.numChunks h).bytes).getD []).length ≤ 2) :
    createChunkedTransaction h N s =
      .ok () (s.set (Layout.numChunks h).bytes (leBytes 2 N.toNat)) := by
  rw [createChunkedTransaction_writes, List.drop_eq_nil_of_le hold, List.append_nil]

/-- The count a creation writes is read back, whatever the path held. -/
theorem chunkedTransactionNumChunks_createChunkedTransaction (h : TransactionHash) (N : UInt16)
    (s : Store) :
    ∃ s', createChunkedTransaction h N s = .ok () s' ∧ chunkedTransactionNumChunks h s' = .ok N s' := by
  refine ⟨_, createChunkedTransaction_writes h N s, ?_⟩
  rw [chunkedTransactionNumChunks, chunkedTransactionPath_eq, ok_bind, chunkedTransactionNumChunksByPath_apply,
    Store.set_value, if_pos rfl]
  dsimp only
  rw [if_pos (by simp), List.take_append_of_le_length (by simp), take_leBytes, leValue_leBytes]
  simp [Nat.mod_eq_of_lt (show N.toNat < 65536 from N.toNat_lt_size)]

theorem removeChunkedTransaction_apply (h : TransactionHash) (s : Store) :
    removeChunkedTransaction h s =
      if s.valueType (Layout.chunked h).bytes = none then .error (.ofRuntime .pathNotFound) s
      else .ok () (s.deleteAtOrUnder (Layout.chunked h).bytes) := by
  rw [removeChunkedTransaction, chunkedTransactionPath_eq, ok_bind]
  rfl

/-- Without a `num_chunks` value the call fails before it writes anything. -/
theorem storeTransactionChunk_apply_of_none {h : TransactionHash} {s : Store}
    (hv : s.value (Layout.numChunks h).bytes = none) (i : UInt16) (data : Bytes) :
    storeTransactionChunk h i data s = .error (.ofRuntime .storeNotAValue) s := by
  rw [storeTransactionChunk_eq]
  exact bind_apply_of_error (by rw [chunkedTransactionNumChunksByPath_apply, hv])

end KernelEvmStorage
