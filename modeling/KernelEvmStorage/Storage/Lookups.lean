import KernelEvmStorage.Storage.Objects

/-!
# Receipt lookups

The read side of receipts, from the module's test interface: a receipt is read
whole from its path by `store_read_all` and decoded by the external codec, and
the status and cumulative-gas lookups project one field of it.  A value is read
in pieces of the store's cap from consecutive offsets, and the pieces put
together are the value.  So over a codec that decodes what it encodes, every
receipt stored by `store_transaction_receipts` reads back as itself.
-/

namespace KernelEvmStorage

/-! ## Reading a whole value -/

/-- Modelled from the spec: `store_read_all` of the EVM execution crate, not in
src/.  It reads a value of any length in pieces of the store's cap, from
consecutive offsets. -/
def storeReadAll (path : OwnedPath) : EStateM Error Store Bytes := do
  let size ← Runtime.storeValueSize path
  (List.range ((size + MAX_FILE_CHUNK_SIZE - 1) / MAX_FILE_CHUNK_SIZE)).foldlM (fun acc k => do
    let bytes ← Runtime.storeRead path (k * MAX_FILE_CHUNK_SIZE) MAX_FILE_CHUNK_SIZE
    pure (acc ++ bytes)) []

/-- The first `n` pieces of a value, each of `size` bytes, are its first
`n * size` bytes. -/
theorem flatten_pieces (v : Bytes) (size : Nat) :
    ∀ n, ((List.range n).map fun k => (v.drop (k * size)).take size).flatten = v.take (n * size)
  | 0 => by simp
  | n + 1 => by
      rw [List.range_succ, List.map_append, List.flatten_append, flatten_pieces v size n,
        Nat.succ_mul, List.take_add]
      simp

theorem storeReadAll_apply_of_some {path : OwnedPath} {s : Store} {v : Bytes}
    (hv : s.value path.bytes = some v) : storeReadAll path s = .ok v s := by
  have hsize : Runtime.storeValueSize path s = .ok v.length s := by
    simp only [Runtime.storeValueSize, hv]
  rw [storeReadAll, bind_apply_of_ok hsize,
    foldlM_apply_of_ok _ _ (fun k => (v.drop (k * MAX_FILE_CHUNK_SIZE)).take MAX_FILE_CHUNK_SIZE)]
  · rw [List.nil_append, flatten_pieces, List.take_of_length_le]
    simp only [MAX_FILE_CHUNK_SIZE]
    omega
  · intro acc k hk
    rw [List.mem_range] at hk
    have hoff : k * MAX_FILE_CHUNK_SIZE ≤ v.length := by
      simp only [MAX_FILE_CHUNK_SIZE] at hk ⊢
      omega
    rw [bind_apply_of_ok (Runtime.storeRead_apply_of_some hv hoff), Nat.min_self]
    rfl

/-! ## Receipts read back -/

section Receipts

variable {Receipt : Type} (ofRlpBytes : Bytes → Except Error Receipt)

/-- Reads a transaction receipt from storage. -/
def readTransactionReceipt (txHash : TransactionHash) : EStateM Error Store Receipt := do
  let receiptPath ← receiptPath txHash
  let bytes ← storeReadAll receiptPath
  let receipt ← ofRlpBytes bytes
  pure receipt

/-- Reads one field of the receipt in storage. -/
def readTransactionReceiptField {α : Type} (field : Receipt → α) (txHash : TransactionHash) :
    EStateM Error Store α := do
  let receipt ← readTransactionReceipt ofRlpBytes txHash
  pure (field receipt)

/-- Reads status from the receipt in storage. -/
def readTransactionReceiptStatus {TransactionStatus : Type} (status : Receipt → TransactionStatus) :
    TransactionHash → EStateM Error Store TransactionStatus :=
  readTransactionReceiptField ofRlpBytes status

/-- Reads cumulative gas used from the receipt in storage. -/
def readTransactionReceiptCumulativeGasUsed (cumulativeGasUsed : Receipt → U256) :
    TransactionHash → EStateM Error Store U256 :=
  readTransactionReceiptField ofRlpBytes cumulativeGasUsed

theorem readTransactionReceipt_apply_of_decode {txHash : TransactionHash} {s : Store} {v : Bytes}
    {receipt : Receipt} (hv : s.value (Layout.receipt txHash).bytes = some v)
    (hdecode : ofRlpBytes v = .ok receipt) :
    readTransactionReceipt ofRlpBytes txHash s = .ok receipt s := by
  rw [readTransactionReceipt, receiptPath_eq, ok_bind, bind_apply_of_ok (storeReadAll_apply_of_some hv)]
  rw [hdecode, ok_bind]
  rfl

/-- Receipts of distinct hashes, stored at receipt paths that held nothing,
read back as themselves, and so does each of their fields, over a codec that
decodes what it encodes and never encodes to nothing. -/
theorem readTransactionReceipt_storeTransactionReceipts (hashOf : Receipt → TransactionHash)
    (rlpBytes : Receipt → Bytes) (hcodec : ∀ r, ofRlpBytes (rlpBytes r) = .ok r)
    (hne : ∀ r, rlpBytes r ≠ []) (receipts : List Receipt) (s : Store)
    (hnodup : (receipts.map hashOf).Nodup)
    (hfresh : ∀ r ∈ receipts, s.value (Layout.receipt (hashOf r)).bytes = none) :
    ∃ s', storeTransactionReceipts hashOf rlpBytes receipts s = .ok () s' ∧
      ∀ r ∈ receipts, readTransactionReceipt ofRlpBytes (hashOf r) s' = .ok r s' ∧
        ∀ {α : Type} (field : Receipt → α),
          readTransactionReceiptField ofRlpBytes field (hashOf r) s' = .ok (field r) s' := by
  obtain ⟨s', hstore, hvalues⟩ := storeTransactionReceipts_values hashOf rlpBytes receipts s hnodup
  refine ⟨s', hstore, fun r hr => ?_⟩
  have hget : (s'.value (Layout.receipt (hashOf r)).bytes).getD [] = rlpBytes r := by
    rw [hvalues r hr, hfresh r hr, Option.getD_none, List.drop_nil, List.append_nil]
  have hv : s'.value (Layout.receipt (hashOf r)).bytes = some (rlpBytes r) :=
    (Option.getD_eq_iff.1 hget).resolve_right fun h => hne r h.2.symm
  have hread := readTransactionReceipt_apply_of_decode ofRlpBytes hv (hcodec r)
  exact ⟨hread, fun field => by rw [readTransactionReceiptField, bind_apply_of_ok hread]; rfl⟩

theorem readTransactionReceipt_storeTransactionReceipts_two :
    ∃ s', storeTransactionReceipts (fun b : UInt8 => FixedBytes.replicate 32 b)
        (fun b => [b, b]) [1, 2] Store.empty = .ok () s' ∧
      ∀ r ∈ [(1 : UInt8), 2],
        readTransactionReceipt (fun bs => (.ok (bs.headD 0) : Except Error UInt8))
            (FixedBytes.replicate 32 r) s' = .ok r s' ∧
          ∀ {α : Type} (field : UInt8 → α),
            readTransactionReceiptField (fun bs => (.ok (bs.headD 0) : Except Error UInt8)) field
              (FixedBytes.replicate 32 r) s' = .ok (field r) s' :=
  readTransactionReceipt_storeTransactionReceipts (fun bs => .ok (bs.headD 0))
    (fun b => FixedBytes.replicate 32 b) (fun b => [b, b]) (fun _ => rfl)
    (fun b => List.cons_ne_nil b [b]) [1, 2] Store.empty (by decide) fun _ _ => rfl

end Receipts

end KernelEvmStorage
