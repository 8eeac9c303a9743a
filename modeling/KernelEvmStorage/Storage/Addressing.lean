import KernelEvmStorage.Storage.Layout

/-!
# Addressing

Every path the storage module derives is a prefix, a separator and one step:
a decimal number, the hex rendering of a hash, or a fixed name.  Decimal and
hex renderings are injective and never hold a separator, a letter outside the
hex digits, or the reserved names `current` and `num_chunks`, so distinct
identifiers get distinct paths and the subtrees of distinct entities never
meet.  This module proves that, and that no derivation ever fails.
-/

namespace KernelEvmStorage

theorem separator_not_mem_decimal (n : Nat) : PATH_SEPARATOR ∉ decimal n := fun h =>
  absurd (isDigit_of_mem_decimal h) (by decide)

theorem separator_not_mem_hexEncode (bytes : Bytes) : PATH_SEPARATOR ∉ hexEncode bytes := fun h =>
  absurd (isHexDigit_of_mem_hexEncode h) (by decide)

theorem separator_not_mem_num_chunks : PATH_SEPARATOR ∉ ascii "num_chunks" := by decide

theorem decimal_ne_of_mem {n : Nat} {b : UInt8} {bytes : Bytes} (hb : b ∈ bytes)
    (hdigit : ¬(48 ≤ b.toNat ∧ b.toNat ≤ 57)) : decimal n ≠ bytes :=
  fun h => hdigit (isDigit_of_mem_decimal (h ▸ hb))

namespace Layout

theorem block_bytes (n : U256) :
    (block n).bytes = EVM_BLOCKS.bytes ++ PATH_SEPARATOR :: decimal n.toNat := rfl

theorem object_bytes (h : TransactionHash) :
    (object h).bytes = EVM_TRANSACTIONS_OBJECTS.bytes ++ PATH_SEPARATOR :: hexEncode h.bytes := rfl

theorem chunked_bytes (h : TransactionHash) :
    (chunked h).bytes = CHUNKED_TRANSACTIONS.bytes ++ PATH_SEPARATOR :: hexEncode h.bytes := rfl

theorem numChunks_bytes (h : TransactionHash) :
    (numChunks h).bytes = (chunked h).bytes ++ PATH_SEPARATOR :: ascii "num_chunks" := rfl

/-- A step below a fixed prefix determines the path. -/
theorem step_eq_of_bytes_eq {pre a b : Bytes} (h : pre ++ PATH_SEPARATOR :: a = pre ++ PATH_SEPARATOR :: b) :
    a = b := by
  simpa using h

theorem hash_eq_of_hexEncode_eq {h h' : TransactionHash} (heq : hexEncode h.bytes = hexEncode h'.bytes) :
    h = h' :=
  FixedBytes.bytes_injective (hexEncode_injective heq)

theorem block_injective : Function.Injective block := fun _ _ h =>
  BitVec.eq_of_toNat_eq (decimal_injective (step_eq_of_bytes_eq (congrArg OwnedPath.bytes h)))

theorem receipt_injective : Function.Injective receipt := fun _ _ h =>
  hash_eq_of_hexEncode_eq (step_eq_of_bytes_eq (congrArg OwnedPath.bytes h))

theorem object_injective : Function.Injective object := fun _ _ h =>
  hash_eq_of_hexEncode_eq (step_eq_of_bytes_eq (congrArg OwnedPath.bytes h))

theorem chunked_injective : Function.Injective chunked := fun _ _ h =>
  hash_eq_of_hexEncode_eq (step_eq_of_bytes_eq (congrArg OwnedPath.bytes h))

theorem chunk_injective (h : TransactionHash) : Function.Injective (chunk h) := fun _ _ hij =>
  UInt16.toNat.inj (decimal_injective (step_eq_of_bytes_eq (congrArg OwnedPath.bytes hij)))

theorem chunk_ne_numChunks (h : TransactionHash) (i : UInt16) : chunk h i ≠ numChunks h :=
  fun hij => decimal_ne_of_mem (by decide : (110 : UInt8) ∈ ascii "num_chunks") (by decide)
    (step_eq_of_bytes_eq (congrArg OwnedPath.bytes hij))

theorem not_isAtOrUnder_current (n : U256) :
    ¬IsAtOrUnder EVM_CURRENT_BLOCK.bytes (block n).bytes := fun hn =>
  decimal_ne_of_mem (by decide : (99 : UInt8) ∈ ascii "current") (by decide)
    ((isAtOrUnder_append_step_iff (separator_not_mem_decimal n.toNat)).mp hn).symm

/-- The subtrees of two chunked transactions meet only when the hashes are equal. -/
theorem eq_of_isAtOrUnder_chunked {h h' : TransactionHash} {q : Bytes}
    (hq : IsAtOrUnder (chunked h).bytes q) (hq' : IsAtOrUnder (chunked h').bytes q) : h = h' :=
  chunked_injective (OwnedPath.bytes_injective
    (eq_of_isAtOrUnder_of_length_eq hq hq' (by rw [length_chunked, length_chunked])))


theorem numChunks_isStrictlyUnder (h : TransactionHash) :
    IsStrictlyUnder (chunked h).bytes (numChunks h).bytes := isStrictlyUnder_append _ _

theorem chunk_isStrictlyUnder (h : TransactionHash) (i : UInt16) :
    IsStrictlyUnder (chunked h).bytes (chunk h i).bytes := isStrictlyUnder_append _ _

theorem childStep_numChunks (h : TransactionHash) :
    childStep (chunked h).bytes (numChunks h).bytes = ascii "num_chunks" :=
  childStep_append separator_not_mem_num_chunks

theorem childStep_chunk (h : TransactionHash) (i : UInt16) :
    childStep (chunked h).bytes (chunk h i).bytes = decimal i.toNat :=
  childStep_append (separator_not_mem_decimal _)

theorem chunk_bytes_ne_numChunks (h : TransactionHash) (i : UInt16) :
    (chunk h i).bytes ≠ (numChunks h).bytes := fun heq =>
  chunk_ne_numChunks h i (OwnedPath.bytes_injective heq)

theorem chunk_bytes_inj {h : TransactionHash} {i j : UInt16} :
    (chunk h i).bytes = (chunk h j).bytes ↔ i = j :=
  ⟨fun heq => chunk_injective h (OwnedPath.bytes_injective heq), fun hij => hij ▸ rfl⟩

/-- The subtrees of distinct hashes are disjoint. -/
theorem not_isAtOrUnder_chunked_of_ne {h h' : TransactionHash} (hne : h' ≠ h) {q : Bytes}
    (hq : IsAtOrUnder (chunked h).bytes q) : ¬IsAtOrUnder (chunked h').bytes q :=
  fun hq' => hne (eq_of_isAtOrUnder_chunked hq' hq)

theorem numChunks_not_isAtOrUnder_chunk (h' h : TransactionHash) (i : UInt16) :
    ¬IsAtOrUnder (chunk h i).bytes (numChunks h').bytes := fun hq => by
  obtain rfl : h = h' := eq_of_isAtOrUnder_chunked ((chunk_isStrictlyUnder h i).isAtOrUnder.trans hq)
    (numChunks_isStrictlyUnder h').isAtOrUnder
  exact decimal_ne_of_mem (by decide : (110 : UInt8) ∈ ascii "num_chunks") (by decide)
    ((isAtOrUnder_append_step_iff separator_not_mem_num_chunks).mp hq)

theorem length_block (n : U256) : (block n).bytes.length ≤ 90 := by
  have := length_decimal_toNat n
  rw [block_bytes, List.length_append, List.length_cons]
  have : EVM_BLOCKS.bytes.length = 11 := rfl
  omega

theorem length_object (h : TransactionHash) : (object h).bytes.length = 90 := by
  rw [object_bytes, List.length_append, List.length_cons, length_hexEncode_hash]
  rfl

theorem not_isStrictlyUnder_block_current (n : U256) :
    ¬IsStrictlyUnder (block n).bytes (EVM_CURRENT_BLOCK.bytes ++ BLOCKS_NUMBER.bytes) := fun h => by
  obtain ⟨rest, hrest⟩ := isStrictlyUnder_iff.mp h
  have hcur : EVM_CURRENT_BLOCK.bytes ++ BLOCKS_NUMBER.bytes =
      EVM_BLOCKS.bytes ++ PATH_SEPARATOR :: ascii "current/number" := rfl
  rw [hcur, block_bytes, List.append_assoc, List.cons_append] at hrest
  obtain ⟨d, ds, hd⟩ := List.exists_cons_of_ne_nil (decimal_ne_nil n.toNat)
  have hdigit := isDigit_of_mem_decimal (hd ▸ List.mem_cons_self d ds)
  rw [hd] at hrest
  have hc : (99 : UInt8) = d := (List.cons.inj (List.cons.inj (List.append_cancel_left hrest)).2).1
  rw [← hc] at hdigit
  exact absurd hdigit (by decide)

end Layout

end KernelEvmStorage

namespace KernelEvmStorage

theorem injective_of_eq_ok {α β : Type} {f : α → Except Error β} {g : α → β}
    (hf : ∀ a, f a = .ok (g a)) (hg : Function.Injective g) : Function.Injective f :=
  fun a b h => hg (Except.ok.inj ((hf a).symm.trans (h.trans (hf b))))

theorem derived_paths_injective :
    Function.Injective blockPath ∧
    (∀ n, ∃ p, blockPath n = .ok p ∧ ¬IsAtOrUnder EVM_CURRENT_BLOCK.bytes p.bytes) ∧
    Function.Injective receiptPath ∧ Function.Injective objectPath ∧
    Function.Injective chunkedTransactionPath ∧
    (∀ h h' p p', h ≠ h' → chunkedTransactionPath h = .ok p → chunkedTransactionPath h' = .ok p' →
      ¬p.bytes <+: p'.bytes) ∧
    ∀ h, ∃ P, chunkedTransactionPath h = .ok P ∧ Function.Injective (transactionChunkPath P) ∧
      ∀ i, transactionChunkPath P i ≠ chunkedTransactionNumChunksPath P := by
  refine ⟨injective_of_eq_ok blockPath_eq Layout.block_injective,
    fun n => ⟨_, blockPath_eq n, Layout.not_isAtOrUnder_current n⟩,
    injective_of_eq_ok receiptPath_eq Layout.receipt_injective,
    injective_of_eq_ok objectPath_eq Layout.object_injective,
    injective_of_eq_ok chunkedTransactionPath_eq Layout.chunked_injective,
    fun h h' p p' hne hp hp' hpre => hne ?_,
    fun h => ⟨_, chunkedTransactionPath_eq h,
      injective_of_eq_ok (transactionChunkPath_eq h) (Layout.chunk_injective h), fun i heq => ?_⟩⟩
  · rw [chunkedTransactionPath_eq] at hp hp'
    cases hp; cases hp'
    exact Layout.chunked_injective (OwnedPath.bytes_injective
      (hpre.eq_of_length (by rw [Layout.length_chunked, Layout.length_chunked])))
  · rw [transactionChunkPath_eq, chunkedTransactionNumChunksPath_eq] at heq
    exact Layout.chunk_ne_numChunks h i (Except.ok.inj heq)

theorem length_object_fields : ∀ suffix ∈ TRANSACTION_OBJECT_FIELDS, suffix.bytes.length ≤ 13 := by
  decide

theorem length_append_field {p suffix : OwnedPath} (hp : p.bytes.length ≤ 90)
    (hs : suffix.bytes.length ≤ 13) : (p.bytes ++ suffix.bytes).length ≤ PATH_MAX_SIZE := by
  rw [List.length_append]
  unfold PATH_MAX_SIZE
  omega

theorem derived_paths_ok :
    (∀ n, ∃ p, blockPath n = .ok p ∧
      ∀ suffix ∈ [BLOCKS_NUMBER, BLOCKS_HASH, BLOCKS_TRANSACTIONS], ∃ q, concat p suffix = .ok q) ∧
    (∀ h, ∃ p, receiptPath h = .ok p) ∧
    (∀ h, ∃ p, objectPath h = .ok p ∧ ∀ suffix ∈ TRANSACTION_OBJECT_FIELDS, ∃ q, concat p suffix = .ok q) ∧
    ∀ h i, ∃ P, chunkedTransactionPath h = .ok P ∧
      (∃ q, chunkedTransactionNumChunksPath P = .ok q) ∧ ∃ q, transactionChunkPath P i = .ok q := by
  refine ⟨fun n => ⟨_, blockPath_eq n, fun suffix hs =>
      ⟨_, concat_eq_join (length_append_field (Layout.length_block n) ?_)⟩⟩,
    fun h => ⟨_, receiptPath_eq h⟩,
    fun h => ⟨_, objectPath_eq h, fun suffix hs =>
      ⟨_, concat_eq_join (length_append_field (Layout.length_object h).le (length_object_fields suffix hs))⟩⟩,
    fun h i => ⟨_, chunkedTransactionPath_eq h, ⟨_, chunkedTransactionNumChunksPath_eq h⟩,
      ⟨_, transactionChunkPath_eq h i⟩⟩⟩
  simp only [List.mem_cons, List.mem_singleton, List.not_mem_nil, or_false] at hs
  rcases hs with rfl | rfl | rfl <;> decide

end KernelEvmStorage
