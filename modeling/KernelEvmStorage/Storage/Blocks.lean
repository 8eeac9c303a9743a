import KernelEvmStorage.Storage.Footprints

/-!
# Blocks and the rollup address: what is written and what is read back

A block is written as three values under its numbered path, each by one write
at offset 0 over whatever the path held: the write replaces the value's first
bytes and keeps the rest.  The readers take one store read of the transaction
list and an 8-byte buffer for the current block's number, while the writers
write the list whole and the number as 32 bytes.  The round trips below say
exactly what comes back, for every block and every earlier store.  Over a run
of blocks with distinct numbers, each block's own paths change only when it is
stored, so every block stays readable, and the current block reads back with
the last block's number and transactions, under the hash `L2Block::new`
derives from the number: the stored hash is never read.  The rollup address, written and read as 20 bytes, comes back whole.
-/

namespace KernelEvmStorage

theorem length_flatten_hashes (txs : List TransactionHash) :
    (txs.map FixedBytes.bytes).flatten.length = TRANSACTION_HASH_SIZE * txs.length := by
  induction txs with
  | nil => rfl
  | cons t ts ih => simp only [List.map_cons, List.flatten_cons, List.length_append, ih, t.length_eq,
      List.length_cons, TRANSACTION_HASH_SIZE]; ring

/-- Reading back a list of hashes stored whole in front of other bytes. -/
theorem filterMap_chunks_flatten (txs : List TransactionHash) (rest : Bytes) :
    (chunks TRANSACTION_HASH_SIZE ((txs.map FixedBytes.bytes).flatten ++ rest)).filterMap
        FixedBytes.tryFrom? =
      txs ++ (chunks TRANSACTION_HASH_SIZE rest).filterMap FixedBytes.tryFrom? := by
  induction txs with
  | nil => rfl
  | cons t ts ih =>
      rw [List.map_cons, List.flatten_cons, List.append_assoc, chunks_append (show t.bytes.length = TRANSACTION_HASH_SIZE from t.length_eq) (by decide),
        List.filterMap_cons, FixedBytes.tryFrom?_bytes, ih, List.cons_append]

/-! ## Writing a block -/

section Write

variable {blockPath : OwnedPath} (s : Store)

theorem storeBlockNumber_apply (hlen : (blockPath.bytes ++ BLOCKS_NUMBER.bytes).length ≤ PATH_MAX_SIZE)
    (n : U256) :
    storeBlockNumber blockPath n s = .ok ()
      (s.set (blockPath.bytes ++ BLOCKS_NUMBER.bytes)
        (leBytes 32 n.toNat ++ ((s.value (blockPath.bytes ++ BLOCKS_NUMBER.bytes)).getD []).drop 32)) := by
  rw [storeBlockNumber, concat_bind_eq hlen]
  exact Runtime.storeWrite_zero (by simp [U256.toLittleEndian, MAX_FILE_CHUNK_SIZE])

theorem storeBlockHash_apply (hlen : (blockPath.bytes ++ BLOCKS_HASH.bytes).length ≤ PATH_MAX_SIZE)
    (blockHash : H256) :
    storeBlockHash blockPath blockHash s = .ok ()
      (s.set (blockPath.bytes ++ BLOCKS_HASH.bytes)
        (blockHash.bytes ++ ((s.value (blockPath.bytes ++ BLOCKS_HASH.bytes)).getD []).drop 32)) := by
  rw [storeBlockHash, concat_bind_eq hlen,
    Runtime.storeWrite_zero (by simp [blockHash.length_eq, MAX_FILE_CHUNK_SIZE]), blockHash.length_eq]
  rfl

theorem storeBlockTransactions_apply
    (hlen : (blockPath.bytes ++ BLOCKS_TRANSACTIONS.bytes).length ≤ PATH_MAX_SIZE)
    {txs : List TransactionHash} (hk : TRANSACTION_HASH_SIZE * txs.length ≤ MAX_FILE_CHUNK_SIZE) :
    storeBlockTransactions blockPath txs s = .ok ()
      (s.set (blockPath.bytes ++ BLOCKS_TRANSACTIONS.bytes) ((txs.map FixedBytes.bytes).flatten ++
        ((s.value (blockPath.bytes ++ BLOCKS_TRANSACTIONS.bytes)).getD []).drop
          (TRANSACTION_HASH_SIZE * txs.length))) := by
  rw [storeBlockTransactions, concat_bind_eq hlen,
    Runtime.storeWrite_zero (by rwa [length_flatten_hashes]), length_flatten_hashes]
  rfl

/-- The store's cap on one write is 64 hashes. -/
theorem storeBlockTransactions_apply_of_lt
    (hlen : (blockPath.bytes ++ BLOCKS_TRANSACTIONS.bytes).length ≤ PATH_MAX_SIZE)
    {txs : List TransactionHash} (hk : MAX_FILE_CHUNK_SIZE < TRANSACTION_HASH_SIZE * txs.length) :
    storeBlockTransactions blockPath txs s = .error (.ofRuntime .inputOutputTooLarge) s := by
  rw [storeBlockTransactions, concat_bind_eq hlen]
  exact Runtime.storeWrite_apply_of_lt (by rwa [length_flatten_hashes])

/-- A block's number and hash are written first; its transactions are written
whole at offset 0, or, past the store's cap, not at all. -/
theorem storeBlock_transactions (block : L2Block) (hb : blockPath.bytes.length ≤ 90) :
    (MAX_FILE_CHUNK_SIZE < TRANSACTION_HASH_SIZE * block.transactions.length →
      ∃ s', storeBlock block blockPath s = .error (.ofRuntime .inputOutputTooLarge) s') ∧
    (TRANSACTION_HASH_SIZE * block.transactions.length ≤ MAX_FILE_CHUNK_SIZE →
      ∃ s', storeBlock block blockPath s = .ok () s' ∧
        s'.value (blockPath.bytes ++ BLOCKS_TRANSACTIONS.bytes) =
          some ((block.transactions.map FixedBytes.bytes).flatten ++
            ((s.value (blockPath.bytes ++ BLOCKS_TRANSACTIONS.bytes)).getD []).drop
              (TRANSACTION_HASH_SIZE * block.transactions.length))) := by
  have hT := length_append_field hb (by decide : BLOCKS_TRANSACTIONS.bytes.length ≤ 13)
  rw [storeBlock, bind_apply_of_ok (storeBlockNumber_apply s (length_append_field hb (by decide)) _),
    bind_apply_of_ok (storeBlockHash_apply _ (length_append_field hb (by decide)) _)]
  have hTN : blockPath.bytes ++ BLOCKS_TRANSACTIONS.bytes ≠ blockPath.bytes ++ BLOCKS_NUMBER.bytes :=
    fun h => absurd (List.append_cancel_left h) (by decide)
  have hTH : blockPath.bytes ++ BLOCKS_TRANSACTIONS.bytes ≠ blockPath.bytes ++ BLOCKS_HASH.bytes :=
    fun h => absurd (List.append_cancel_left h) (by decide)
  refine ⟨fun hk => ⟨_, storeBlockTransactions_apply_of_lt _ hT hk⟩,
    fun hk => ⟨_, storeBlockTransactions_apply _ hT hk, ?_⟩⟩
  simp only [Store.set_value, hTN, hTH, if_true, if_false]

end Write

/-! ## Reading a block -/

section Read

variable {s : Store}

theorem storeReadEmptySafe_apply_of_some {path : OwnedPath} {v : Bytes} (hv : s.value path.bytes = some v)
    (maxBytes : Nat) :
    storeReadEmptySafe path 0 maxBytes s = .ok (v.take (min maxBytes MAX_FILE_CHUNK_SIZE)) s := by
  unfold storeReadEmptySafe
  rw [bind_apply_of_ok (show Runtime.storeValueSize path s = .ok v.length s by
    simp only [Runtime.storeValueSize, hv])]
  split_ifs with hsize
  · rw [List.length_eq_zero.mp hsize, List.take_nil]
    rfl
  · exact Runtime.storeRead_apply_of_some hv (Nat.zero_le _)

theorem readNthBlockTransactions_apply_of_some {blockPath : OwnedPath} (hb : blockPath.bytes.length ≤ 90)
    {v : Bytes} (hv : s.value (blockPath.bytes ++ BLOCKS_TRANSACTIONS.bytes) = some v) :
    readNthBlockTransactions blockPath s =
      .ok ((chunks TRANSACTION_HASH_SIZE (v.take MAX_FILE_CHUNK_SIZE)).filterMap FixedBytes.tryFrom?) s := by
  rw [readNthBlockTransactions, concat_bind_eq (length_append_field hb (by decide)),
    bind_apply_of_ok (storeReadEmptySafe_apply_of_some hv _)]
  rfl

/-- A list of hashes stored whole in front of other bytes reads back, followed
by the hashes of those bytes that the one read reaches. -/
theorem readNthBlockTransactions_of_flatten {blockPath : OwnedPath} (hb : blockPath.bytes.length ≤ 90)
    {txs : List TransactionHash} (hk : TRANSACTION_HASH_SIZE * txs.length ≤ MAX_FILE_CHUNK_SIZE) {rest : Bytes}
    (hv : s.value (blockPath.bytes ++ BLOCKS_TRANSACTIONS.bytes) = some ((txs.map FixedBytes.bytes).flatten ++ rest)) :
    readNthBlockTransactions blockPath s = .ok (txs ++ (chunks TRANSACTION_HASH_SIZE
      (rest.take (MAX_FILE_CHUNK_SIZE - TRANSACTION_HASH_SIZE * txs.length))).filterMap FixedBytes.tryFrom?) s := by
  rw [readNthBlockTransactions_apply_of_some hb hv, List.take_append_eq_append_take,
    List.take_of_length_le (by rw [length_flatten_hashes]; exact hk), length_flatten_hashes,
    filterMap_chunks_flatten]

end Read

/-! ## The smart rollup address -/

theorem readSmartRollupAddress_storeSmartRollupAddress (rollupAddress : FixedBytes 20) (s : Store) :
    ∃ s', storeSmartRollupAddress rollupAddress s = .ok () s' ∧
      readSmartRollupAddress s' = .ok rollupAddress.bytes s' := by
  refine ⟨_, Runtime.storeWrite_zero (by simp [rollupAddress.length_eq, MAX_FILE_CHUNK_SIZE]), ?_⟩
  rw [readSmartRollupAddress, storeReadSlice_apply, Store.set_value, if_pos rfl]
  simp [zeroBuffer, rollupAddress.length_eq, MAX_FILE_CHUNK_SIZE]

/-! ## Round trips -/

/-- A stored block's transactions read back, after the hashes that the write
left of the path's earlier value, as far as one read reaches. -/
theorem storeBlockByNumber_readNthBlockTransactions (block : L2Block) (s : Store) :
    (MAX_FILE_CHUNK_SIZE < TRANSACTION_HASH_SIZE * block.transactions.length →
      ∃ s', storeBlockByNumber block s = .error (.ofRuntime .inputOutputTooLarge) s') ∧
    (TRANSACTION_HASH_SIZE * block.transactions.length ≤ MAX_FILE_CHUNK_SIZE →
      ∃ s', storeBlockByNumber block s = .ok () s' ∧
        readNthBlockTransactions (Layout.block block.number) s' =
          .ok (block.transactions ++ (chunks TRANSACTION_HASH_SIZE
            ((((s.value ((Layout.block block.number).bytes ++ BLOCKS_TRANSACTIONS.bytes)).getD []).drop
              (TRANSACTION_HASH_SIZE * block.transactions.length)).take
                (MAX_FILE_CHUNK_SIZE - TRANSACTION_HASH_SIZE * block.transactions.length))).filterMap
            FixedBytes.tryFrom?) s') := by
  rw [storeBlockByNumber, blockPath_eq, ok_bind]
  obtain ⟨hlt, hle⟩ := storeBlock_transactions s block (Layout.length_block block.number)
  refine ⟨hlt, fun hk => ?_⟩
  obtain ⟨s', hok, hv⟩ := hle hk
  exact ⟨s', hok, readNthBlockTransactions_of_flatten (Layout.length_block _) hk hv⟩

theorem storeBlockByNumber_readNthBlockTransactions_stale :
    (∃ s', storeBlockByNumber ⟨0, zeroHash,
      List.replicate 65 zeroHash⟩ Store.empty =
        .error (.ofRuntime .inputOutputTooLarge) s') ∧
    ∃ s', storeBlockByNumber ⟨0, zeroHash,
      [FixedBytes.replicate 32 1]⟩
        (Store.empty.set ((Layout.block 0).bytes ++ BLOCKS_TRANSACTIONS.bytes) (List.replicate 64 0)) =
          .ok () s' ∧
      readNthBlockTransactions (Layout.block 0) s' =
        .ok [FixedBytes.replicate 32 1,
          zeroHash] s' := by
  refine ⟨(storeBlockByNumber_readNthBlockTransactions _ _).1 (by rw [List.length_replicate]; decide), ?_⟩
  obtain ⟨s', hok, hread⟩ := (storeBlockByNumber_readNthBlockTransactions ⟨0, zeroHash, [FixedBytes.replicate 32 1]⟩
      (Store.empty.set ((Layout.block 0).bytes ++ BLOCKS_TRANSACTIONS.bytes) (List.replicate 64 0))).2
        (by decide)
  refine ⟨s', hok, hread.trans ?_⟩
  have hstale := filterMap_chunks_flatten [zeroHash] []
  rw [chunks_nil, List.filterMap_nil, List.append_nil] at hstale
  exact congrArg (EStateM.Result.ok · s') (congrArg (_ :: ·) hstale)

theorem readCurrentBlockNumber_apply_of_some {s : Store} {v : Bytes}
    (hv : s.value (EVM_CURRENT_BLOCK.bytes ++ BLOCKS_NUMBER.bytes) = some v) (hlen : 8 ≤ v.length) :
    readCurrentBlockNumber s = .ok (U256.fromLittleEndian (v.take 8)) s := by
  rw [readCurrentBlockNumber, concat_bind_eq (by decide)]
  refine bind_apply_of_ok ((storeReadSlice_apply _ _ _ s).trans ?_)
  simp only [OwnedPath.join, hv, zeroBuffer, List.length_replicate, MAX_FILE_CHUNK_SIZE]
  rw [if_pos (by simp; omega)]
  simp [hlen]

theorem storeCurrentBlock_apply (block : L2Block) (s : Store) :
    storeCurrentBlock block s = storeBlockByNumber block
      (s.set (EVM_CURRENT_BLOCK.bytes ++ BLOCKS_NUMBER.bytes) (leBytes 32 block.number.toNat ++
        ((s.value (EVM_CURRENT_BLOCK.bytes ++ BLOCKS_NUMBER.bytes)).getD []).drop 32)) :=
  bind_apply_of_ok (storeBlockNumber_apply s (by decide) _)

theorem storeCurrentBlock_ok (block : L2Block) (s : Store)
    (hk : TRANSACTION_HASH_SIZE * block.transactions.length ≤ MAX_FILE_CHUNK_SIZE) :
    ∃ s', storeCurrentBlock block s = .ok () s' := by
  rw [storeCurrentBlock_apply, storeBlockByNumber, blockPath_eq, ok_bind]
  obtain ⟨s', hok, -⟩ := (storeBlock_transactions _ block (Layout.length_block block.number)).2 hk
  exact ⟨s', hok⟩

/-- The current block's number reads back modulo `2^64`: it is written as
32 bytes and read through an 8-byte buffer. -/
theorem readCurrentBlockNumber_storeCurrentBlock {block : L2Block} {s s' : Store}
    (hok : storeCurrentBlock block s = .ok () s') :
    readCurrentBlockNumber s' = .ok (BitVec.ofNat 256 (block.number.toNat % 2 ^ 64)) s' := by
  rw [storeCurrentBlock_apply] at hok
  generalize hs₁ : s.set _ _ = s₁ at hok
  have hv := storeBlockByNumber_changesOnly block s₁ _ (Layout.not_isStrictlyUnder_block_current _)
  rw [hok, EStateM.Result.state, ← hs₁, Store.set_value, if_pos rfl] at hv
  rw [readCurrentBlockNumber_apply_of_some hv (by simp only [List.length_append, length_leBytes]; omega),
    List.take_append_of_le_length (by simp), take_leBytes, U256.fromLittleEndian, leValue_leBytes]
  rfl

theorem readCurrentBlockNumber_storeCurrentBlock_two_pow_64 :
    ∃ s', storeCurrentBlock ⟨BitVec.ofNat 256 (2 ^ 64), zeroHash, []⟩
        Store.empty = .ok () s' ∧
      readCurrentBlockNumber s' = .ok 0 s' := by
  obtain ⟨s', hok⟩ := storeCurrentBlock_ok ⟨BitVec.ofNat 256 (2 ^ 64),
    zeroHash, []⟩ Store.empty (by decide)
  exact ⟨s', hok, (readCurrentBlockNumber_storeCurrentBlock hok).trans
    (congrArg (EStateM.Result.ok · s') (by decide))⟩

/-! ## A run of blocks -/

/-- A block path is over the transactions path of a block only when the
numbers are equal. -/
theorem Layout.eq_of_isStrictlyUnder_block {n n' : U256}
    (h : IsStrictlyUnder (Layout.block n).bytes ((Layout.block n').bytes ++ BLOCKS_TRANSACTIONS.bytes)) :
    n = n' := by
  have hstep : ∀ {a b : U256}, IsAtOrUnder (Layout.block a).bytes (Layout.block b).bytes → a = b := by
    intro a b hab
    rw [Layout.block_bytes, Layout.block_bytes, isAtOrUnder_append_step_iff (separator_not_mem_decimal _)] at hab
    exact BitVec.eq_of_toNat_eq (decimal_injective hab)
  rcases IsAtOrUnder.total h.isAtOrUnder (isStrictlyUnder_append_path _ _).isAtOrUnder with hab | hba
  · exact hstep hab
  · exact (hstep hba).symm

theorem Layout.transactions_ne_current (n : U256) :
    (Layout.block n).bytes ++ BLOCKS_TRANSACTIONS.bytes ≠ EVM_CURRENT_BLOCK.bytes ++ BLOCKS_NUMBER.bytes :=
  fun heq => Layout.not_isStrictlyUnder_block_current n (heq ▸ isStrictlyUnder_append_path _ _)

/-- What storing a current block leaves: its transactions in front of what the
path held past them, and its number in front of what the pointer held past 32
bytes. -/
theorem storeCurrentBlock_values (block : L2Block) (s : Store)
    (hk : TRANSACTION_HASH_SIZE * block.transactions.length ≤ MAX_FILE_CHUNK_SIZE) :
    ∃ s', storeCurrentBlock block s = .ok () s' ∧
      s'.value ((Layout.block block.number).bytes ++ BLOCKS_TRANSACTIONS.bytes) =
        some ((block.transactions.map FixedBytes.bytes).flatten ++
          ((s.value ((Layout.block block.number).bytes ++ BLOCKS_TRANSACTIONS.bytes)).getD []).drop
            (TRANSACTION_HASH_SIZE * block.transactions.length)) ∧
      s'.value (EVM_CURRENT_BLOCK.bytes ++ BLOCKS_NUMBER.bytes) =
        some (leBytes 32 block.number.toNat ++
          ((s.value (EVM_CURRENT_BLOCK.bytes ++ BLOCKS_NUMBER.bytes)).getD []).drop 32) := by
  have hstore := storeCurrentBlock_apply block s
  rw [storeBlockByNumber, blockPath_eq, ok_bind] at hstore
  generalize hs₁ : s.set (EVM_CURRENT_BLOCK.bytes ++ BLOCKS_NUMBER.bytes) _ = s₁ at hstore
  obtain ⟨s', hok, hv⟩ := (storeBlock_transactions s₁ block (Layout.length_block block.number)).2 hk
  have hcur := storeBlockByNumber_changesOnly block s₁ _ (Layout.not_isStrictlyUnder_block_current _)
  rw [storeBlockByNumber, blockPath_eq, ok_bind, hok, EStateM.Result.state] at hcur
  rw [← hs₁, Store.set_value, if_neg (Layout.transactions_ne_current _)] at hv
  refine ⟨s', hstore.trans hok, hv, ?_⟩
  rw [hcur, ← hs₁, Store.set_value, if_pos rfl]

theorem forM_storeCurrentBlock_changesOnly (blocks : List L2Block) :
    ChangesOnly (fun q => (∃ b ∈ blocks, IsStrictlyUnder (Layout.block b.number).bytes q) ∨
      q = EVM_CURRENT_BLOCK.bytes ++ BLOCKS_NUMBER.bytes) (blocks.forM storeCurrentBlock) :=
  ChangesOnly.forM blocks fun b hb =>
    (storeCurrentBlock_changesOnly b).mono fun _ hq => hq.imp_left fun h => ⟨b, hb, h⟩

/-- Storing blocks of distinct numbers one after another, at transaction paths
that held nothing: every block's transaction list is stored whole, and the
pointer starts with the last block's number. -/
theorem forM_storeCurrentBlock_values : ∀ (blocks : List L2Block) (s : Store),
    (blocks.map L2Block.number).Nodup →
    (∀ b ∈ blocks, TRANSACTION_HASH_SIZE * b.transactions.length ≤ MAX_FILE_CHUNK_SIZE) →
    (∀ b ∈ blocks, s.value ((Layout.block b.number).bytes ++ BLOCKS_TRANSACTIONS.bytes) = none) →
    ∃ s', blocks.forM storeCurrentBlock s = .ok () s' ∧
      (∀ b ∈ blocks, s'.value ((Layout.block b.number).bytes ++ BLOCKS_TRANSACTIONS.bytes) =
        some (b.transactions.map FixedBytes.bytes).flatten) ∧
      ∀ b ∈ blocks.getLast?, ∃ rest,
        s'.value (EVM_CURRENT_BLOCK.bytes ++ BLOCKS_NUMBER.bytes) = some (leBytes 32 b.number.toNat ++ rest)
  | [], s, _, _, _ => ⟨s, rfl, by simp, by simp⟩
  | b :: rest, s, hnum, hk, hfresh => by
      rw [List.map_cons, List.nodup_cons, List.mem_map] at hnum
      obtain ⟨s₁, h₁, htx, hcur⟩ := storeCurrentBlock_values b s (hk b (List.mem_cons_self _ _))
      rw [hfresh b (List.mem_cons_self _ _), Option.getD_none, List.drop_nil, List.append_nil] at htx
      have hkeep : ∀ b' ∈ rest, s₁.value ((Layout.block b'.number).bytes ++ BLOCKS_TRANSACTIONS.bytes) =
          s.value ((Layout.block b'.number).bytes ++ BLOCKS_TRANSACTIONS.bytes) := fun b' hb' => by
        have hq := storeCurrentBlock_changesOnly b s _ fun hq =>
          hq.elim (fun h => hnum.1 ⟨b', hb', (Layout.eq_of_isStrictlyUnder_block h).symm⟩)
            (Layout.transactions_ne_current _)
        rwa [h₁] at hq
      obtain ⟨s', hrun, htxs, hlast⟩ := forM_storeCurrentBlock_values rest s₁ hnum.2
        (fun b' hb' => hk b' (List.mem_cons_of_mem _ hb'))
        (fun b' hb' => (hkeep b' hb').trans (hfresh b' (List.mem_cons_of_mem _ hb')))
      have hb := forM_storeCurrentBlock_changesOnly rest s₁ _ fun hq =>
        hq.elim (fun ⟨b', hb', h⟩ => hnum.1 ⟨b', hb', Layout.eq_of_isStrictlyUnder_block h⟩)
          (Layout.transactions_ne_current _)
      rw [hrun, EStateM.Result.state, htx] at hb
      refine ⟨s', (bind_apply_of_ok h₁).trans hrun, ?_, fun c hc => ?_⟩
      · rintro b' (_ | ⟨_, hb'⟩)
        · exact hb
        · exact htxs b' hb'
      · cases rest with
        | nil =>
            rw [List.getLast?_singleton, Option.mem_some_iff] at hc
            subst hc
            cases hrun
            exact ⟨_, hcur⟩
        | cons d ds =>
            rw [List.getLast?_cons_cons] at hc
            exact hlast c hc

/-- A chain of blocks stays readable.  Storing blocks of distinct numbers, each
with at most 64 hashes, as the current block one after another, at transaction
paths that held nothing, never fails; afterwards every block's transactions
read back exactly, and below `2^64` the current block reads back as the block
`L2Block::new` builds from the last block's number and transactions, whatever
hash that block carried. -/
theorem storeCurrentBlock_chain (hashOf : U256 → H256) (blocks : List L2Block) (s : Store)
    (hnum : (blocks.map L2Block.number).Nodup)
    (hk : ∀ b ∈ blocks, TRANSACTION_HASH_SIZE * b.transactions.length ≤ MAX_FILE_CHUNK_SIZE)
    (hfresh : ∀ b ∈ blocks, s.value ((Layout.block b.number).bytes ++ BLOCKS_TRANSACTIONS.bytes) = none) :
    ∃ s', blocks.forM storeCurrentBlock s = .ok () s' ∧
      (∀ b ∈ blocks, readNthBlockTransactions (Layout.block b.number) s' = .ok b.transactions s') ∧
      ∀ b ∈ blocks.getLast?, b.number.toNat < 2 ^ 64 →
        readCurrentBlock hashOf s' = .ok (L2Block.new hashOf b.number b.transactions) s' := by
  obtain ⟨s', hrun, htxs, hlast⟩ := forM_storeCurrentBlock_values blocks s hnum hk hfresh
  have hread : ∀ b ∈ blocks, readNthBlockTransactions (Layout.block b.number) s' = .ok b.transactions s' :=
    fun b hb => by
      have hv : s'.value ((Layout.block b.number).bytes ++ BLOCKS_TRANSACTIONS.bytes) =
          some ((b.transactions.map FixedBytes.bytes).flatten ++ []) := by
        rw [List.append_nil]; exact htxs b hb
      rw [readNthBlockTransactions_of_flatten (Layout.length_block b.number) (hk b hb) hv, List.take_nil,
        chunks_nil, List.filterMap_nil, List.append_nil]
  refine ⟨s', hrun, hread, fun b hb hn => ?_⟩
  obtain ⟨rest, hv⟩ := hlast b hb
  have hnumber : readCurrentBlockNumber s' = .ok b.number s' := by
    rw [readCurrentBlockNumber_apply_of_some hv (by simp only [List.length_append, length_leBytes]; omega),
      List.take_append_of_le_length (by simp), take_leBytes, U256.fromLittleEndian, leValue_leBytes,
      Nat.mod_eq_of_lt (by simpa using hn), BitVec.ofNat_toNat, BitVec.setWidth_eq]
  rw [readCurrentBlock, readCurrentBlockNodebug, bind_apply_of_ok hnumber, blockPath_eq, ok_bind,
    bind_apply_of_ok (hread b (List.mem_of_getLast?_eq_some hb))]
  rfl

/-- Blocks 0 and 1, one hash each: both read back after block 1 is stored, and
the current block is block 1. -/
theorem storeCurrentBlock_chain_two :
    ∃ s', [⟨0, zeroHash, [zeroHash]⟩,
        ⟨1, zeroHash, [FixedBytes.replicate 32 1]⟩].forM
        storeCurrentBlock Store.empty = .ok () s' ∧
      (∀ b ∈ [(⟨0, zeroHash,
          [zeroHash]⟩ : L2Block),
        ⟨1, zeroHash, [FixedBytes.replicate 32 1]⟩],
        readNthBlockTransactions (Layout.block b.number) s' = .ok b.transactions s') ∧
      readCurrentBlock (fun _ => zeroHash) s' =
        .ok (L2Block.new (fun _ => zeroHash) 1
          [FixedBytes.replicate 32 1]) s' := by
  obtain ⟨s', hrun, hread, hcur⟩ := storeCurrentBlock_chain (fun _ => zeroHash)
    [⟨0, zeroHash, [zeroHash]⟩,
      ⟨1, zeroHash, [FixedBytes.replicate 32 1]⟩]
    Store.empty (by decide) (by decide) (fun _ _ => rfl)
  exact ⟨s', hrun, hread, hcur _ rfl (by decide)⟩

end KernelEvmStorage
