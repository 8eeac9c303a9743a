import KernelEvmStorage.Storage.Addressing

/-!
# Blocks, transaction objects and receipts

The storage functions for everything but chunked transactions, as the storage
module writes them: fixed-width reads, the 256-bit word codec, blocks and the
current-block pointer, transaction objects and receipts.  A `?` in the source
is a bind here; the two `MonadLift` instances below are its error conversions
(`Error::from`).

The types these functions take come from other crates of the repository.  An
L2 block and a transaction object are modelled from the spec with the fields
the storage module reads; a receipt is any type with a hash and an RLP
encoding, both given as parameters.  The debug messages around reading and
storing the current block are output only, so those two functions are their
`nodebug` versions.
-/

namespace KernelEvmStorage

/-- `?` on a result of the storage module's own functions. -/
instance : MonadLift (Except Error) (EStateM Error Store) := ⟨liftExcept⟩

/-- `?` on a path result: the path error becomes an `Error`. -/
instance : MonadLift (Except PathError) (EStateM Error Store) :=
  ⟨fun r => liftExcept (r.mapError Error.ofPath)⟩

theorem ok_bind {α β : Type} (a : α) (f : α → EStateM Error Store β) :
    ((monadLift (Except.ok a : Except Error α) : EStateM Error Store α) >>= f) = f a := rfl

theorem concat_bind_eq {β : Type} {pre suffix : OwnedPath}
    (h : (pre.bytes ++ suffix.bytes).length ≤ PATH_MAX_SIZE) (g : OwnedPath → EStateM Error Store β) :
    ((monadLift (concat pre suffix) : EStateM Error Store OwnedPath) >>= g) = g (pre.join suffix h) := by
  rw [concat_eq_join h]
  rfl

theorem concat_bind_eq_ok {β : Type} {pre suffix : OwnedPath} {g : OwnedPath → EStateM Error Store β}
    {s s' : Store} {b : β} (h : ((liftM (concat pre suffix) : EStateM Error Store OwnedPath) >>= g) s = .ok b s') :
    ∃ p, concat pre suffix = .ok p ∧ g p s = .ok b s' := by
  cases hc : concat pre suffix with
  | error e =>
      rw [hc] at h
      cases h
  | ok p => exact ⟨p, rfl, by rw [hc] at h; exact h⟩

/-- The size of an address. Size in bytes. -/
def ADDRESS_SIZE : Nat := 20

/-- The size of one 256 bit word. Size in bytes. -/
def WORD_SIZE : Nat := 32

/-- We can read/store at most 128 transaction hashes per block. -/
def MAX_TRANSACTION_HASHES : Nat := TRANSACTION_HASH_SIZE * 128

/-- A zero-filled buffer, `[0u8; n]`. -/
def zeroBuffer (n : Nat) : Bytes := List.replicate n 0

/-- `try_into` from a slice to an array: it succeeds on the exact length. -/
def FixedBytes.tryFrom? {n : Nat} (bytes : Bytes) : Option (FixedBytes n) :=
  if h : bytes.length = n then some ⟨bytes, h⟩ else none

/-- Rust's `chunks(size)`: consecutive pieces of `size` bytes, the last one
possibly shorter. -/
def chunks (size : Nat) (bytes : Bytes) : List Bytes :=
  match bytes with
  | [] => []
  | b :: rest =>
      if _hsize : 0 < size then
        (b :: rest).take size :: chunks size ((b :: rest).drop size)
      else []
termination_by bytes.length
decreasing_by simp_wf; omega

@[simp] theorem chunks_nil (size : Nat) : chunks size [] = [] := by
  rw [chunks]

theorem chunks_append {size : Nat} {a : Bytes} (ha : a.length = size) (hpos : 0 < size) (b : Bytes) :
    chunks size (a ++ b) = a :: chunks size b := by
  cases a with
  | nil => simp at ha; omega
  | cons x a =>
      rw [List.cons_append, chunks, dif_pos hpos, ← List.cons_append, List.take_append_of_le_length (by omega),
        List.drop_append_of_le_length (by omega), List.take_of_length_le (by omega),
        List.drop_of_length_le (by omega), List.nil_append]

theorem length_le_of_mem_chunks (size : Nat) (bytes : Bytes) : ∀ c ∈ chunks size bytes, c.length ≤ size := by
  induction bytes using chunks.induct size with
  | case1 => simp
  | case2 b rest hsize ih =>
      rw [chunks, dif_pos hsize]
      rintro c (_ | ⟨_, hc⟩)
      · exact List.length_take_le _ _
      · exact ih c hc
  | case3 b rest hsize => rw [chunks, dif_neg hsize]; simp

theorem flatten_chunks {size : Nat} (hsize : 0 < size) (bytes : Bytes) : (chunks size bytes).flatten = bytes := by
  induction bytes using chunks.induct size with
  | case1 => simp
  | case2 b rest hpos ih => rw [chunks, dif_pos hpos, List.flatten_cons, ih, List.take_append_drop]
  | case3 b rest hpos => exact absurd hsize hpos

theorem FixedBytes.tryFrom?_bytes {n : Nat} (x : FixedBytes n) : FixedBytes.tryFrom? x.bytes = some x := by
  simp [FixedBytes.tryFrom?, x.length_eq]

/-- `U256::to_little_endian` into a 32-byte buffer, which it overwrites. -/
def U256.toLittleEndian (value : U256) (_bytes : FixedBytes 32) : FixedBytes 32 :=
  ⟨leBytes 32 value.toNat, length_leBytes 32 _⟩

/-- `U256::into` on `[u8; 32]`: the big-endian bytes. -/
def U256.toBigEndian (value : U256) : FixedBytes 32 :=
  ⟨(leBytes 32 value.toNat).reverse, by simp⟩

/-- `U256::from_little_endian`. -/
def U256.fromLittleEndian (bytes : Bytes) : U256 := BitVec.ofNat 256 (leValue bytes)

/-! ## Reads of fixed width -/

/-- This function should be used when it makes sense that the value stored
under `path` can be empty. -/
def storeReadEmptySafe (path : OwnedPath) (offset maxBytes : Nat) : EStateM Error Store Bytes := do
  let storedValueSize ← Runtime.storeValueSize path
  if storedValueSize = 0 then
    pure []
  else
    Runtime.storeRead path offset maxBytes

/-- Fill `buffer` from the value at `path`, failing unless exactly
`expectedSize` bytes were read. -/
def storeReadSlice (path : OwnedPath) (buffer : Bytes) (expectedSize : Nat) :
    EStateM Error Store Bytes := do
  let (size, buffer) ← Runtime.storeReadSlice path 0 buffer
  if size = expectedSize then
    pure buffer
  else
    throw (.storage (.invalidLoadValue expectedSize size))

theorem storeReadSlice_apply (path : OwnedPath) (buffer : Bytes) (expectedSize : Nat) (s : Store) :
    storeReadSlice path buffer expectedSize s =
      match s.value path.bytes with
      | none => .error (.ofRuntime .storeNotAValue) s
      | some v =>
          let read := v.take (min buffer.length MAX_FILE_CHUNK_SIZE)
          if read.length = expectedSize then .ok (read ++ buffer.drop read.length) s
          else .error (.storage (.invalidLoadValue expectedSize read.length)) s := by
  unfold storeReadSlice
  cases hv : s.value path.bytes with
  | none => exact bind_apply_of_error (Runtime.storeReadSlice_apply_of_none hv)
  | some v =>
      rw [bind_apply_of_ok (Runtime.storeReadSlice_apply_of_some hv (Nat.zero_le _))]
      simp only [List.drop_zero]
      split_ifs <;> rfl

def readSmartRollupAddress : EStateM Error Store Bytes :=
  storeReadSlice SMART_ROLLUP_ADDRESS (zeroBuffer 20) 20

def storeSmartRollupAddress (rollupAddress : FixedBytes 20) : EStateM Error Store Unit :=
  Runtime.storeWrite SMART_ROLLUP_ADDRESS rollupAddress.bytes 0

/-- Read a single unsigned 256 bit value from storage at the path given. -/
def readU256 (path : OwnedPath) : EStateM Error Store U256 := do
  let bytes ← Runtime.storeRead path 0 WORD_SIZE
  pure (U256.fromLittleEndian bytes)

def writeU256 (path : OwnedPath) (value : U256) : EStateM Error Store Unit := do
  let bytes : FixedBytes 32 := U256.toBigEndian value
  let bytes := U256.toLittleEndian value bytes
  Runtime.storeWrite path bytes.bytes 0

/-- Modelled from the spec: `store_write_all` of the EVM execution crate, not in
src/.  It stores a variable-length value as one value, in pieces the store
accepts, written at consecutive offsets. -/
def storeWriteAll (path : OwnedPath) (value : Bytes) : EStateM Error Store Unit := do
  let _ ← (chunks MAX_FILE_CHUNK_SIZE value).foldlM (fun offset chunk => do
    Runtime.storeWrite path chunk offset
    pure (offset + chunk.length)) 0

/-! ## Blocks -/

/-- Modelled from the spec: an L2 block, with the fields the storage module
reads. -/
structure L2Block where
  number : U256
  hash : H256
  transactions : List TransactionHash

/-- `L2Block::new`: the block of a number and its transactions.  The hash it
derives from the number is computed outside this module, so it is a
parameter. -/
def L2Block.new (hashOf : U256 → H256) (number : U256) (transactions : List TransactionHash) :
    L2Block :=
  ⟨number, hashOf number, transactions⟩

def readCurrentBlockNumber : EStateM Error Store U256 := do
  let path ← concat EVM_CURRENT_BLOCK BLOCKS_NUMBER
  let buffer ← storeReadSlice path (zeroBuffer 8) 8
  pure (U256.fromLittleEndian buffer)

def readNthBlockTransactions (blockPath : OwnedPath) :
    EStateM Error Store (List TransactionHash) := do
  let path ← concat blockPath BLOCKS_TRANSACTIONS
  let transactionsBytes ← storeReadEmptySafe path 0 MAX_TRANSACTION_HASHES
  pure ((chunks TRANSACTION_HASH_SIZE transactionsBytes).filterMap fun txHashBytes =>
    FixedBytes.tryFrom? txHashBytes)

def readCurrentBlockNodebug (hashOf : U256 → H256) : EStateM Error Store L2Block := do
  let number ← readCurrentBlockNumber
  let blockPath ← blockPath number
  let transactions ← readNthBlockTransactions blockPath
  pure (L2Block.new hashOf number transactions)

/-- The debug message around the read is output only: the result passes
through unchanged. -/
def readCurrentBlock (hashOf : U256 → H256) : EStateM Error Store L2Block :=
  readCurrentBlockNodebug hashOf

def storeBlockNumber (blockPath : OwnedPath) (blockNumber : U256) : EStateM Error Store Unit := do
  let path ← concat blockPath BLOCKS_NUMBER
  let leBlockNumber := U256.toLittleEndian blockNumber ⟨zeroBuffer 32, List.length_replicate 32 0⟩
  Runtime.storeWrite path leBlockNumber.bytes 0

def storeBlockHash (blockPath : OwnedPath) (blockHash : H256) : EStateM Error Store Unit := do
  let path ← concat blockPath BLOCKS_HASH
  Runtime.storeWrite path blockHash.bytes 0

def storeBlockTransactions (blockPath : OwnedPath) (blockTransactions : List TransactionHash) :
    EStateM Error Store Unit := do
  let path ← concat blockPath BLOCKS_TRANSACTIONS
  let blockTransactions := (blockTransactions.map FixedBytes.bytes).flatten
  Runtime.storeWrite path blockTransactions 0

def storeBlock (block : L2Block) (blockPath : OwnedPath) : EStateM Error Store Unit := do
  storeBlockNumber blockPath block.number
  storeBlockHash blockPath block.hash
  storeBlockTransactions blockPath block.transactions

def storeBlockByNumber (block : L2Block) : EStateM Error Store Unit := do
  let blockPath ← blockPath block.number
  storeBlock block blockPath

def storeCurrentBlockNodebug (block : L2Block) : EStateM Error Store Unit := do
  let currentBlockPath := EVM_CURRENT_BLOCK
  -- We only need to store current block's number so we avoid the storage of duplicate informations.
  storeBlockNumber currentBlockPath block.number
  -- When storing the current block's infos we need to store it under the [evm/blocks/<block_number>]
  storeBlockByNumber block

/-- The debug message around the write is output only: the result passes
through unchanged. -/
def storeCurrentBlock (block : L2Block) : EStateM Error Store Unit :=
  storeCurrentBlockNodebug block

def storeSimulationResult (result : Option Bytes) : EStateM Error Store Unit :=
  match result with
  | some result => Runtime.storeWrite SIMULATION_RESULT result 0
  | none => pure ()

/-! ## Transaction objects and receipts -/

/-- Modelled from the spec: a transaction object, with the fields the storage
module writes. -/
structure TransactionObject where
  hash : TransactionHash
  «from» : H160
  gasUsed : U256
  gasPrice : U256
  input : Bytes
  nonce : U256
  «to» : Option H160
  index : UInt16
  value : U256
  v : U256
  r : H256
  s : H256

def storeTransactionObject (objectPath : OwnedPath) (blockHash : H256) (blockNumber : U256)
    (object : TransactionObject) : EStateM Error Store Unit := do
  -- Block hash
  let blockHashPath ← concat objectPath TRANSACTION_OBJECT_BLOCK_HASH
  Runtime.storeWrite blockHashPath blockHash.bytes 0
  -- Block number
  let blockNumberPath ← concat objectPath TRANSACTION_OBJECT_BLOCK_NUMBER
  writeU256 blockNumberPath blockNumber
  -- From
  let fromPath ← concat objectPath TRANSACTION_OBJECT_FROM
  Runtime.storeWrite fromPath object.«from».bytes 0
  -- Gas used
  let gasUsedPath ← concat objectPath TRANSACTION_OBJECT_GAS_USED
  writeU256 gasUsedPath object.gasUsed
  -- Gas price
  let gasPricePath ← concat objectPath TRANSACTION_OBJECT_GAS_PRICE
  writeU256 gasPricePath object.gasPrice
  -- Input
  let inputPath ← concat objectPath TRANSACTION_OBJECT_INPUT
  storeWriteAll inputPath object.input
  -- Nonce
  let noncePath ← concat objectPath TRANSACTION_OBJECT_NONCE
  writeU256 noncePath object.nonce
  -- To
  match object.«to» with
  | some «to» =>
      let toPath ← concat objectPath TRANSACTION_OBJECT_TO
      Runtime.storeWrite toPath «to».bytes 0
  | none => pure ()
  -- Index
  let indexPath ← concat objectPath TRANSACTION_OBJECT_INDEX
  Runtime.storeWrite indexPath (leBytes 2 object.index.toNat) 0
  -- Value
  let valuePath ← concat objectPath TRANSACTION_OBJECT_VALUE
  writeU256 valuePath object.value
  -- V
  let vPath ← concat objectPath TRANSACTION_OBJECT_V
  writeU256 vPath object.v
  -- R
  let rPath ← concat objectPath TRANSACTION_OBJECT_R
  Runtime.storeWrite rPath object.r.bytes 0
  -- S
  let sPath ← concat objectPath TRANSACTION_OBJECT_S
  Runtime.storeWrite sPath object.s.bytes 0

def storeTransactionObjects (block : L2Block) (objects : List TransactionObject) :
    EStateM Error Store Unit :=
  objects.forM fun object => do
    let objectPath ← objectPath object.hash
    storeTransactionObject objectPath block.hash block.number object

/-! A receipt's type and its RLP codec live outside the storage module: a
receipt is anything with a hash and an encoding. -/

section Receipts

variable {Receipt : Type} (hashOf : Receipt → TransactionHash) (rlpBytes : Receipt → Bytes)

def storeTransactionReceipt (receiptPath : OwnedPath) (receipt : Receipt) :
    EStateM Error Store Unit := do
  let bytes := rlpBytes receipt
  storeWriteAll receiptPath bytes

def storeTransactionReceipts (receipts : List Receipt) : EStateM Error Store Unit :=
  receipts.forM fun receipt => do
    let receiptPath ← receiptPath (hashOf receipt)
    storeTransactionReceipt rlpBytes receiptPath receipt

end Receipts

end KernelEvmStorage
