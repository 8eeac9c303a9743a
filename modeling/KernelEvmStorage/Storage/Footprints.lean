import KernelEvmStorage.Storage.Chunked

/-!
# Footprints

The paths each storage function may change.  A block is written under its
numbered path, the current-block pointer at `/evm/blocks/current/number` and a
receipt at its receipt path (a transaction object's footprint is in
`Storage.Objects`, from its list of fields).
The chunked-transaction functions are confined to the subtree of their
hash's path: they change nothing outside it, and what they return and write
depends on the values inside it only.
-/

namespace KernelEvmStorage

theorem Except.eq_ok_of_mapError {ε ε' α : Type} {r : Except ε α} {f : ε → ε'} {a : α}
    (h : r.mapError f = .ok a) : r = .ok a := by
  cases r <;> simp_all [Except.mapError]

section Writes

variable {β : Type} {pre : OwnedPath}

theorem writeU256_changesOnly (path : OwnedPath) (value : U256) :
    ChangesOnly (· = path.bytes) (writeU256 path value) := by
  unfold writeU256
  exact Runtime.storeWrite_changesOnly path _ _

theorem storeWriteAll_changesOnly (path : OwnedPath) (value : Bytes) :
    ChangesOnly (· = path.bytes) (storeWriteAll path value) :=
  (ChangesOnly.foldlM (fun _ _ => (Runtime.storeWrite_changesOnly path _ _).bind fun _ =>
    (Confined.pure _).changesOnly) _ _).bind fun _ => (Confined.pure _).changesOnly

theorem ChangesOnly.concat_bind {R : Bytes → Prop} {suffix : OwnedPath}
    {g : OwnedPath → EStateM Error Store β}
    (hg : ∀ p : OwnedPath, p.bytes = pre.bytes ++ suffix.bytes → ChangesOnly R (g p)) :
    ChangesOnly R ((liftM (concat pre suffix) : EStateM Error Store OwnedPath) >>= g) :=
  ChangesOnly.bind_liftExcept fun p hp => hg p (concat_bytes (Except.eq_ok_of_mapError hp))

end Writes

theorem storeBlockNumber_changesOnly (blockPath : OwnedPath) (blockNumber : U256) :
    ChangesOnly (· = blockPath.bytes ++ BLOCKS_NUMBER.bytes) (storeBlockNumber blockPath blockNumber) := by
  unfold storeBlockNumber
  exact ChangesOnly.concat_bind fun p hp => (Runtime.storeWrite_changesOnly p _ _).mono fun _ hq => hq.trans hp

theorem storeBlockHash_changesOnly (blockPath : OwnedPath) (blockHash : H256) :
    ChangesOnly (· = blockPath.bytes ++ BLOCKS_HASH.bytes) (storeBlockHash blockPath blockHash) := by
  unfold storeBlockHash
  exact ChangesOnly.concat_bind fun p hp => (Runtime.storeWrite_changesOnly p _ _).mono fun _ hq => hq.trans hp

theorem storeBlockTransactions_changesOnly (blockPath : OwnedPath) (transactions : List TransactionHash) :
    ChangesOnly (· = blockPath.bytes ++ BLOCKS_TRANSACTIONS.bytes)
      (storeBlockTransactions blockPath transactions) := by
  unfold storeBlockTransactions
  exact ChangesOnly.concat_bind fun p hp => (Runtime.storeWrite_changesOnly p _ _).mono fun _ hq => hq.trans hp

theorem storeBlock_changesOnly (block : L2Block) (blockPath : OwnedPath) :
    ChangesOnly (IsStrictlyUnder blockPath.bytes) (storeBlock block blockPath) := by
  have hR := isStrictlyUnder_append_path blockPath
  unfold storeBlock
  exact ((storeBlockNumber_changesOnly _ _).mono fun _ hq => hq ▸ hR _).bind fun _ =>
    ((storeBlockHash_changesOnly _ _).mono fun _ hq => hq ▸ hR _).bind fun _ =>
      (storeBlockTransactions_changesOnly _ _).mono fun _ hq => hq ▸ hR _

theorem storeBlockByNumber_changesOnly (block : L2Block) :
    ChangesOnly (IsStrictlyUnder (Layout.block block.number).bytes) (storeBlockByNumber block) := by
  rw [storeBlockByNumber, blockPath_eq, ok_bind]
  exact storeBlock_changesOnly block _

theorem storeCurrentBlock_changesOnly (block : L2Block) :
    ChangesOnly (fun q => IsStrictlyUnder (Layout.block block.number).bytes q ∨
      q = EVM_CURRENT_BLOCK.bytes ++ BLOCKS_NUMBER.bytes) (storeCurrentBlock block) := by
  unfold storeCurrentBlock storeCurrentBlockNodebug
  exact ((storeBlockNumber_changesOnly _ _).mono fun _ => Or.inr).bind fun _ =>
    (storeBlockByNumber_changesOnly block).mono fun _ => Or.inl

theorem storeTransactionReceipts_changesOnly {Receipt : Type} (hashOf : Receipt → TransactionHash)
    (rlpBytes : Receipt → Bytes) (receipts : List Receipt) :
    ChangesOnly (fun q => ∃ r ∈ receipts, q = (Layout.receipt (hashOf r)).bytes)
      (storeTransactionReceipts hashOf rlpBytes receipts) :=
  ChangesOnly.forM receipts fun r hr => by
    rw [receiptPath_eq, ok_bind]
    exact (storeWriteAll_changesOnly _ _).mono fun _ hq => ⟨r, hr, hq⟩

/-! ## Chunked transactions -/

theorem storeReadSlice_confined {R : Bytes → Prop} {path : OwnedPath}
    (hR : ∀ q, IsAtOrUnder path.bytes q → R q) (buffer : Bytes) (expectedSize : Nat) :
    Confined R (storeReadSlice path buffer expectedSize) :=
  (Runtime.storeReadSlice_confined hR 0 buffer).1.bind fun ⟨size, buf⟩ => by
    dsimp only
    split_ifs
    · exact Confined.pure _
    · exact Confined.throw _

section Footprints

variable (h : TransactionHash)

theorem Layout.isAtOrUnder_chunked_of_numChunks {q : Bytes}
    (hq : IsAtOrUnder (Layout.numChunks h).bytes q) : IsAtOrUnder (Layout.chunked h).bytes q :=
  (Layout.numChunks_isStrictlyUnder h).isAtOrUnder.trans hq

theorem Layout.isAtOrUnder_chunked_of_chunk {i : UInt16} {q : Bytes}
    (hq : IsAtOrUnder (Layout.chunk h i).bytes q) : IsAtOrUnder (Layout.chunked h).bytes q :=
  (Layout.chunk_isStrictlyUnder h i).isAtOrUnder.trans hq

theorem chunkedTransactionNumChunksByPath_confined :
    Confined (IsAtOrUnder (Layout.chunked h).bytes)
      (chunkedTransactionNumChunksByPath (Layout.chunked h)) := by
  rw [chunkedTransactionNumChunksByPath, chunkedTransactionNumChunksPath_eq, ok_bind]
  exact (storeReadSlice_confined (fun _ => Layout.isAtOrUnder_chunked_of_numChunks h) _ _).bind
    fun _ => Confined.pure _

theorem isTransactionComplete_confined (N : UInt16) :
    Confined (IsAtOrUnder (Layout.chunked h).bytes) (isTransactionComplete (Layout.chunked h) N) :=
  (Runtime.storeCountSubkeys_confined fun _ hq => hq).1.bind fun _ => Confined.pure _

theorem readTransactionChunkData_confined {R : Bytes → Prop} {path : OwnedPath}
    (hR : ∀ q, IsAtOrUnder path.bytes q → R q) :
    Confined R (readTransactionChunkData path) := by
  unfold readTransactionChunkData
  refine (Runtime.storeValueSize_confined hR).1.bind fun size => ?_
  split_ifs
  · exact (Runtime.storeRead_confined hR _ _).1.bind fun _ =>
      (Runtime.storeRead_confined hR _ _).1.bind fun _ => Confined.pure _
  · exact (Runtime.storeRead_confined hR _ _).1

theorem getFullTransaction_confined (N : UInt16) (missingData : Bytes) :
    Confined (IsAtOrUnder (Layout.chunked h).bytes)
      (getFullTransaction (Layout.chunked h) N missingData) := by
  refine Confined.foldlM (fun acc k => ?_) _ _
  rw [getFullTransactionStep, transactionChunkPath_eq, ok_bind]
  have hR : ∀ q, IsAtOrUnder (Layout.chunk h k.toUInt16).bytes q →
      IsAtOrUnder (Layout.chunked h).bytes q := fun _ => Layout.isAtOrUnder_chunked_of_chunk h
  refine (Runtime.storeHas_confined hR).1.bind fun vt => ?_
  cases vt with
  | none => exact Confined.pure _
  | some _ => exact (readTransactionChunkData_confined hR).bind fun _ => Confined.pure _

theorem storeTransactionChunkData_confined {R : Bytes → Prop} {path : OwnedPath}
    (hR : ∀ q, IsAtOrUnder path.bytes q → R q) (data : Bytes) :
    Confined R (storeTransactionChunkData path data) := by
  unfold storeTransactionChunkData
  refine (Runtime.storeHas_confined hR).1.bind fun vt => ?_
  split
  · exact Confined.pure _
  · exact Confined.pure _
  · split_ifs
    · simp only [List.splitAt_eq]
      exact (Runtime.storeWrite_confined hR _ _).bind fun _ => Runtime.storeWrite_confined hR _ _
    · exact Runtime.storeWrite_confined hR _ _

theorem storeTransactionChunk_confined (i : UInt16) (data : Bytes) :
    Confined (IsAtOrUnder (Layout.chunked h).bytes) (storeTransactionChunk h i data) := by
  rw [storeTransactionChunk_eq]
  refine (chunkedTransactionNumChunksByPath_confined h).bind fun N =>
    (isTransactionComplete_confined h N).bind fun complete => ?_
  split
  · exact (getFullTransaction_confined h N data).bind fun _ =>
      (Runtime.storeDelete_confined fun _ hq => hq).bind fun _ => Confined.pure _
  · exact (storeTransactionChunkData_confined (fun _ => Layout.isAtOrUnder_chunked_of_chunk h) data).bind
      fun _ => Confined.pure _

theorem createChunkedTransaction_confined (N : UInt16) :
    Confined (IsAtOrUnder (Layout.chunked h).bytes) (createChunkedTransaction h N) := by
  rw [createChunkedTransaction, chunkedTransactionPath_eq, ok_bind, chunkedTransactionNumChunksPath_eq,
    ok_bind]
  exact Runtime.storeWrite_confined (fun _ => Layout.isAtOrUnder_chunked_of_numChunks h) _ _

theorem removeChunkedTransaction_confined :
    Confined (IsAtOrUnder (Layout.chunked h).bytes) (removeChunkedTransaction h) := by
  rw [removeChunkedTransaction, chunkedTransactionPath_eq, ok_bind]
  exact Runtime.storeDelete_confined fun _ hq => hq

end Footprints

end KernelEvmStorage
