import KernelEvmStorage.Frame

/-!
# The storage layout

The path constants of the storage module and the functions that derive an
entity's path from its identifier: a block from its number, a receipt, a
transaction object and a chunked transaction from a transaction hash, and a
fragment from its index.  Each function renders the identifier as one path step
(`format!("/{}", ..)`), checks it, and joins it to a fixed prefix.

`Layout` gives the same paths as total functions.  Every derivation succeeds
with the `Layout` path, which is how the later modules use them, and the
derivations are injective with disjoint namespaces.
-/

namespace KernelEvmStorage

/-- Rust's `U256`. -/
abbrev U256 := BitVec 256

/-- `TRANSACTION_HASH_SIZE`. -/
def TRANSACTION_HASH_SIZE : Nat := 32

/-- A transaction hash, `[u8; TRANSACTION_HASH_SIZE]`. -/
abbrev TransactionHash := FixedBytes 32

/-- The all-zero hash: the transaction, and the block hash, of the worked
examples. -/
def zeroHash : TransactionHash := FixedBytes.replicate 32 0

/-- Rust's `H256`. -/
abbrev H256 := FixedBytes 32

/-- Rust's `H160`, an address. -/
abbrev H160 := FixedBytes 20

/-! ## Path constants -/

def SMART_ROLLUP_ADDRESS : OwnedPath := ⟨ascii "/metadata/smart_rollup_address", by decide⟩

def EVM_CURRENT_BLOCK : OwnedPath := ⟨ascii "/evm/blocks/current", by decide⟩
def EVM_BLOCKS : OwnedPath := ⟨ascii "/evm/blocks", by decide⟩
def BLOCKS_NUMBER : OwnedPath := ⟨ascii "/number", by decide⟩
def BLOCKS_HASH : OwnedPath := ⟨ascii "/hash", by decide⟩
def BLOCKS_TRANSACTIONS : OwnedPath := ⟨ascii "/transactions", by decide⟩

def EVM_TRANSACTIONS_RECEIPTS : OwnedPath := ⟨ascii "/evm/transactions_receipts", by decide⟩

def EVM_TRANSACTIONS_OBJECTS : OwnedPath := ⟨ascii "/evm/transactions_objects", by decide⟩
def TRANSACTION_OBJECT_BLOCK_HASH : OwnedPath := ⟨ascii "/block_hash", by decide⟩
def TRANSACTION_OBJECT_BLOCK_NUMBER : OwnedPath := ⟨ascii "/block_number", by decide⟩
def TRANSACTION_OBJECT_FROM : OwnedPath := ⟨ascii "/from", by decide⟩
def TRANSACTION_OBJECT_GAS_USED : OwnedPath := ⟨ascii "/gas_used", by decide⟩
def TRANSACTION_OBJECT_GAS_PRICE : OwnedPath := ⟨ascii "/gas_price", by decide⟩
def TRANSACTION_OBJECT_HASH : OwnedPath := ⟨ascii "/hash", by decide⟩
def TRANSACTION_OBJECT_INPUT : OwnedPath := ⟨ascii "/input", by decide⟩
def TRANSACTION_OBJECT_NONCE : OwnedPath := ⟨ascii "/nonce", by decide⟩
def TRANSACTION_OBJECT_TO : OwnedPath := ⟨ascii "/to", by decide⟩
def TRANSACTION_OBJECT_INDEX : OwnedPath := ⟨ascii "/index", by decide⟩
def TRANSACTION_OBJECT_VALUE : OwnedPath := ⟨ascii "/value", by decide⟩
def TRANSACTION_OBJECT_V : OwnedPath := ⟨ascii "/v", by decide⟩
def TRANSACTION_OBJECT_R : OwnedPath := ⟨ascii "/r", by decide⟩
def TRANSACTION_OBJECT_S : OwnedPath := ⟨ascii "/s", by decide⟩

def SIMULATION_RESULT : OwnedPath := ⟨ascii "/simulation_result", by decide⟩

def CHUNKED_TRANSACTIONS : OwnedPath := ⟨ascii "/chunked_transactions", by decide⟩
def CHUNKED_TRANSACTION_NUM_CHUNKS : OwnedPath := ⟨ascii "/num_chunks", by decide⟩

/-- The field paths of a transaction object, in the order
`store_transaction_object` writes them. -/
def TRANSACTION_OBJECT_FIELDS : List OwnedPath :=
  [TRANSACTION_OBJECT_BLOCK_HASH, TRANSACTION_OBJECT_BLOCK_NUMBER, TRANSACTION_OBJECT_FROM,
    TRANSACTION_OBJECT_GAS_USED, TRANSACTION_OBJECT_GAS_PRICE, TRANSACTION_OBJECT_HASH,
    TRANSACTION_OBJECT_INPUT, TRANSACTION_OBJECT_NONCE, TRANSACTION_OBJECT_TO,
    TRANSACTION_OBJECT_INDEX, TRANSACTION_OBJECT_VALUE, TRANSACTION_OBJECT_V,
    TRANSACTION_OBJECT_R, TRANSACTION_OBJECT_S]

/-! ## Path derivations -/

def blockPath (number : U256) : Except Error OwnedPath := do
  let number := decimal number.toNat
  let rawNumberPath := ascii "/" ++ number
  let numberPath ← (OwnedPath.tryFrom rawNumberPath).mapError Error.ofPath
  (concat EVM_BLOCKS numberPath).mapError Error.ofPath

def receiptPath (receiptHash : TransactionHash) : Except Error OwnedPath := do
  let hash := hexEncode receiptHash.bytes
  let rawReceiptPath := ascii "/" ++ hash
  let receiptPath ← (OwnedPath.tryFrom rawReceiptPath).mapError Error.ofPath
  (concat EVM_TRANSACTIONS_RECEIPTS receiptPath).mapError Error.ofPath

def objectPath (objectHash : TransactionHash) : Except Error OwnedPath := do
  let hash := hexEncode objectHash.bytes
  let rawObjectPath := ascii "/" ++ hash
  let objectPath ← (OwnedPath.tryFrom rawObjectPath).mapError Error.ofPath
  (concat EVM_TRANSACTIONS_OBJECTS objectPath).mapError Error.ofPath

def chunkedTransactionPath (txHash : TransactionHash) : Except Error OwnedPath := do
  let hash := hexEncode txHash.bytes
  let rawChunkedTransactionPath := ascii "/" ++ hash
  let chunkedTransactionPath ←
    (OwnedPath.tryFrom rawChunkedTransactionPath).mapError Error.ofPath
  (concat CHUNKED_TRANSACTIONS chunkedTransactionPath).mapError Error.ofPath

def chunkedTransactionNumChunksPath (chunkedTransactionPath : OwnedPath) :
    Except Error OwnedPath :=
  (concat chunkedTransactionPath CHUNKED_TRANSACTION_NUM_CHUNKS).mapError Error.ofPath

def transactionChunkPath (chunkedTransactionPath : OwnedPath) (i : UInt16) :
    Except Error OwnedPath := do
  let rawIPath := ascii "/" ++ decimal i.toNat
  let iPath ← (OwnedPath.tryFrom rawIPath).mapError Error.ofPath
  (concat chunkedTransactionPath iPath).mapError Error.ofPath

/-! ## The paths as total functions -/

/-- Two paths joined, when the result is short enough: what `concat` returns. -/
def OwnedPath.join (p q : OwnedPath) (h : (p.bytes ++ q.bytes).length ≤ PATH_MAX_SIZE) :
    OwnedPath :=
  ⟨p.bytes ++ q.bytes, validatePath_append h⟩

/-- The one-step path `/step`. -/
def OwnedPath.step (step : Bytes) (hne : step ≠ [])
    (hbytes : ∀ b ∈ step, isAllowedStepByte b = true) (hlen : step.length < PATH_MAX_SIZE) :
    OwnedPath :=
  ⟨ascii "/" ++ step, validatePath_step hne hbytes hlen⟩

theorem concat_eq_join {p q : OwnedPath} (h : (p.bytes ++ q.bytes).length ≤ PATH_MAX_SIZE) :
    concat p q = .ok (p.join q h) :=
  concat_of_length_le h

theorem length_decimal_toNat (n : U256) : (decimal n.toNat).length ≤ 78 :=
  length_decimal_le (by decide) (lt_of_lt_of_le n.isLt (by norm_num))

theorem length_decimal_uint16 (i : UInt16) : (decimal i.toNat).length ≤ 5 :=
  length_decimal_le (by decide) (lt_of_lt_of_le i.toNat_lt_size (by decide))

theorem length_hexEncode_hash (h : TransactionHash) : (hexEncode h.bytes).length = 64 := by
  simp [h.length_eq]

/-- The step `/n` of a number. -/
def decimalStep (n : Nat) (hn : (decimal n).length < PATH_MAX_SIZE) : OwnedPath :=
  OwnedPath.step (decimal n) (decimal_ne_nil n)
    (fun _ hb => isAllowedStepByte_of_digit (isDigit_of_mem_decimal hb)) hn

/-- The step `/hex(h)` of a hash. -/
def hexStep (h : TransactionHash) : OwnedPath :=
  OwnedPath.step (hexEncode h.bytes) (by simp [← List.length_pos, h.length_eq])
    (fun _ hb => isAllowedStepByte_of_hexDigit (isHexDigit_of_mem_hexEncode hb))
    (by rw [length_hexEncode_hash]; decide)

namespace Layout

/-- `/evm/blocks/<number>`. -/
def block (n : U256) : OwnedPath :=
  EVM_BLOCKS.join (decimalStep n.toNat (by have := length_decimal_toNat n; unfold PATH_MAX_SIZE; omega))
    (by have := length_decimal_toNat n; simp [decimalStep, OwnedPath.step, EVM_BLOCKS, ascii,
      PATH_MAX_SIZE]; omega)

/-- `/evm/transactions_receipts/<hex hash>`. -/
def receipt (h : TransactionHash) : OwnedPath :=
  EVM_TRANSACTIONS_RECEIPTS.join (hexStep h)
    (by simp [hexStep, OwnedPath.step, EVM_TRANSACTIONS_RECEIPTS, ascii, h.length_eq, PATH_MAX_SIZE])

/-- `/evm/transactions_objects/<hex hash>`. -/
def object (h : TransactionHash) : OwnedPath :=
  EVM_TRANSACTIONS_OBJECTS.join (hexStep h)
    (by simp [hexStep, OwnedPath.step, EVM_TRANSACTIONS_OBJECTS, ascii, h.length_eq, PATH_MAX_SIZE])

/-- `/chunked_transactions/<hex hash>`. -/
def chunked (h : TransactionHash) : OwnedPath :=
  CHUNKED_TRANSACTIONS.join (hexStep h)
    (by simp [hexStep, OwnedPath.step, CHUNKED_TRANSACTIONS, ascii, h.length_eq, PATH_MAX_SIZE])

theorem length_chunked (h : TransactionHash) : (chunked h).bytes.length = 86 := by
  simp [chunked, OwnedPath.join, hexStep, OwnedPath.step, CHUNKED_TRANSACTIONS, ascii,
    h.length_eq]

/-- `/chunked_transactions/<hex hash>/num_chunks`. -/
def numChunks (h : TransactionHash) : OwnedPath :=
  (chunked h).join CHUNKED_TRANSACTION_NUM_CHUNKS
    (by rw [List.length_append, length_chunked]; decide)

/-- `/chunked_transactions/<hex hash>/<i>`. -/
def chunk (h : TransactionHash) (i : UInt16) : OwnedPath :=
  (chunked h).join
    (decimalStep i.toNat (by have := length_decimal_uint16 i; unfold PATH_MAX_SIZE; omega))
    (by have := length_decimal_uint16 i; simp [decimalStep, OwnedPath.step, ascii, length_chunked,
      PATH_MAX_SIZE]; omega)

end Layout

/-! ## Every derivation succeeds -/

/-- The shape of every derivation: a checked step joined to a prefix. -/
theorem derive_eq_ok {pre p : OwnedPath} {raw : Bytes} (hraw : validatePath raw = .ok ())
    (hp : p.bytes = pre.bytes ++ raw) :
    ((OwnedPath.tryFrom raw).mapError Error.ofPath >>= fun q =>
      (concat pre q).mapError Error.ofPath) = .ok p := by
  rw [OwnedPath.tryFrom_of_valid hraw]
  show (OwnedPath.tryFrom (pre.bytes ++ raw)).mapError Error.ofPath = .ok p
  rw [OwnedPath.tryFrom_of_valid (hp ▸ p.valid)]
  exact congrArg Except.ok (OwnedPath.bytes_injective hp.symm)

theorem blockPath_eq (n : U256) : blockPath n = .ok (Layout.block n) :=
  derive_eq_ok (decimalStep _ (by unfold PATH_MAX_SIZE; have := length_decimal_toNat n; omega)).valid rfl

theorem receiptPath_eq (h : TransactionHash) : receiptPath h = .ok (Layout.receipt h) :=
  derive_eq_ok (hexStep h).valid rfl

theorem objectPath_eq (h : TransactionHash) : objectPath h = .ok (Layout.object h) :=
  derive_eq_ok (hexStep h).valid rfl

theorem chunkedTransactionPath_eq (h : TransactionHash) :
    chunkedTransactionPath h = .ok (Layout.chunked h) :=
  derive_eq_ok (hexStep h).valid rfl

theorem chunkedTransactionNumChunksPath_eq (h : TransactionHash) :
    chunkedTransactionNumChunksPath (Layout.chunked h) = .ok (Layout.numChunks h) := by
  rw [chunkedTransactionNumChunksPath, Layout.numChunks, concat_eq_join]
  rfl

theorem transactionChunkPath_eq (h : TransactionHash) (i : UInt16) :
    transactionChunkPath (Layout.chunked h) i = .ok (Layout.chunk h i) :=
  derive_eq_ok (decimalStep _ (by unfold PATH_MAX_SIZE; have := length_decimal_uint16 i; omega)).valid rfl

end KernelEvmStorage
