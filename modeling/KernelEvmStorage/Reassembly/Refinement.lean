import KernelEvmStorage.Storage.Chunked
import KernelEvmStorage.Reassembly.Machine

/-!
# The storage functions run the reassembly machine

A store represents a state of the machine for a hash when the subtree of the
hash's chunked-transaction path holds exactly the count, under `num_chunks`,
and the received fragments, each under its decimal index.  From a store that
represents a state, each storage function returns what the machine returns
for the same request and leaves a store that represents the machine's next
state; by induction, so does every run.
-/

namespace KernelEvmStorage

/-- The store holds the chunked transaction `o` of hash `h`, and nothing else
under its path: `num_chunks` holds the count, and index `i` holds the
fragment of each received index. -/
def Represents (h : TransactionHash) : Option Reassembly → Store → Prop
  | none, s => ∀ q, IsAtOrUnder (Layout.chunked h).bytes q → s.value q = none
  | some r, s =>
      s.value (Layout.numChunks h).bytes = some (leBytes 2 r.numChunks.toNat) ∧
      (∀ i, s.value (Layout.chunk h i).bytes = if i ∈ r.received then some (r.fragment i) else none) ∧
      ∀ q, IsAtOrUnder (Layout.chunked h).bytes q → s.value q ≠ none →
        q = (Layout.numChunks h).bytes ∨ ∃ i, q = (Layout.chunk h i).bytes

namespace Represents

variable {h : TransactionHash} {r : Reassembly} {s : Store}

theorem mem_keys_under (hs : Represents h (some r) s) (q : Bytes) :
    q ∈ s.keys ∧ IsStrictlyUnder (Layout.chunked h).bytes q ↔
      q = (Layout.numChunks h).bytes ∨ ∃ i ∈ r.received, q = (Layout.chunk h i).bytes := by
  obtain ⟨hnum, hchunk, honly⟩ := hs
  rw [Store.mem_keys_iff]
  constructor
  · rintro ⟨hq, hunder⟩
    rcases honly q hunder.isAtOrUnder hq with rfl | ⟨i, rfl⟩
    · exact .inl rfl
    · refine .inr ⟨i, ?_, rfl⟩
      by_contra hi
      exact hq (by rw [hchunk, if_neg hi])
  · rintro (rfl | ⟨i, hi, rfl⟩)
    · exact ⟨by simp [hnum], Layout.numChunks_isStrictlyUnder h⟩
    · exact ⟨by simp [hchunk, hi], Layout.chunk_isStrictlyUnder h i⟩

theorem subkeys_eq (hs : Represents h (some r) s) :
    s.subkeys (Layout.chunked h).bytes =
      insert (ascii "num_chunks") (r.received.image fun i => decimal i.toNat) := by
  have hfilter : s.keys.filter (IsStrictlyUnder (Layout.chunked h).bytes) =
      insert (Layout.numChunks h).bytes (r.received.image fun i => (Layout.chunk h i).bytes) := by
    ext q
    rw [Finset.mem_filter, hs.mem_keys_under, Finset.mem_insert, Finset.mem_image]
    simp only [eq_comm (b := q)]
  rw [Store.subkeys, hfilter, Finset.image_insert, Finset.image_image, Layout.childStep_numChunks]
  exact congrArg _ (Finset.image_congr fun i _ => Layout.childStep_chunk h i)

theorem card_subkeys (hs : Represents h (some r) s) :
    (s.subkeys (Layout.chunked h).bytes).card = r.received.card + 1 := by
  rw [hs.subkeys_eq, Finset.card_insert_of_not_mem, Finset.card_image_of_injective]
  · exact fun i j hij => UInt16.toNat.inj (decimal_injective hij)
  · simp only [Finset.mem_image, not_exists, not_and]
    exact fun i _ => decimal_ne_of_mem (by decide : (110 : UInt8) ∈ ascii "num_chunks") (by decide)

theorem not_hasSubtree_chunk (hs : Represents h (some r) s) (i : UInt16) :
    ¬s.HasSubtree (Layout.chunk h i).bytes := by
  rintro ⟨q, hq, hunder⟩
  have hP := (Layout.chunk_isStrictlyUnder h i).isAtOrUnder.trans_strict hunder
  rcases (hs.mem_keys_under q).mp ⟨hq, hP⟩ with rfl | ⟨j, -, rfl⟩
  · exact not_isStrictlyUnder_step separator_not_mem_num_chunks hunder
  · exact not_isStrictlyUnder_step (separator_not_mem_decimal _) hunder

theorem valueType_chunk (hs : Represents h (some r) s) (i : UInt16) :
    s.valueType (Layout.chunk h i).bytes = if i ∈ r.received then some .value else none := by
  have hv := hs.2.1 i
  split_ifs at hv ⊢
  · exact Store.valueType_of_value_of_not_hasSubtree hv (hs.not_hasSubtree_chunk i)
  · exact Store.valueType_eq_none.mpr ⟨hv, hs.not_hasSubtree_chunk i⟩

theorem valueType_chunked_ne_none (hs : Represents h (some r) s) :
    s.valueType (Layout.chunked h).bytes ≠ none := fun hnone =>
  (Store.valueType_eq_none.mp hnone).2 ⟨_, Store.mem_keys_iff.mpr (by simp [hs.1]),
    Layout.numChunks_isStrictlyUnder h⟩

theorem numChunks_apply (hs : Represents h (some r) s) :
    chunkedTransactionNumChunksByPath (Layout.chunked h) s = .ok r.numChunks s := by
  have hlt : r.numChunks.toNat < 256 ^ 2 := r.numChunks.toNat_lt_size
  rw [chunkedTransactionNumChunksByPath_apply, hs.1]
  simp only [length_leBytes, le_refl, if_true]
  rw [List.take_of_length_le (by simp), leValue_leBytes, Nat.mod_eq_of_lt hlt, toUInt16_toNat]

theorem getFullTransaction_apply (hs : Represents h (some r) s) (missingData : Bytes) :
    getFullTransaction (Layout.chunked h) r.numChunks missingData s = .ok (r.assemble missingData) s := by
  unfold getFullTransaction Reassembly.assemble
  refine (foldlM_apply_of_ok _ _
    (fun k => if k.toUInt16 ∈ r.received then r.fragment k.toUInt16 else missingData) s
    (fun acc k _ => ?_) []).trans (by rw [List.nil_append])
  rw [getFullTransactionStep_apply, hs.valueType_chunk, hs.2.1]
  split_ifs with hk <;> simp [hk, List.take_of_length_le (r.fragment_le _)]

theorem receive (hs : Represents h (some r) s) {i : UInt16} (hi : i ∉ r.received) (data : Bytes)
    (hdata : data.length ≤ 2 * MAX_FILE_CHUNK_SIZE) :
    Represents h (some (r.receive i data hdata)) (s.set (Layout.chunk h i).bytes data) := by
  obtain ⟨hnum, hchunk, honly⟩ := hs
  refine ⟨by simp [(Layout.chunk_bytes_ne_numChunks h i).symm, hnum, Reassembly.receive],
    fun j => ?_, fun q hq hv => ?_⟩
  · by_cases hji : j = i
    · subst hji
      simp [Reassembly.receive]
    · simp [Layout.chunk_bytes_inj, hji, hchunk, Reassembly.receive, Function.update_noteq hji]
  · by_cases hqi : q = (Layout.chunk h i).bytes
    · exact .inr ⟨i, hqi⟩
    · exact honly q hq (by simpa [hqi] using hv)

theorem valueType_eq_none (hs : Represents h none s) :
    s.valueType (Layout.chunked h).bytes = none :=
  Store.valueType_eq_none.mpr ⟨hs _ (isAtOrUnder_refl _), fun ⟨q, hq, hunder⟩ =>
    Store.mem_keys_iff.mp hq (hs q hunder.isAtOrUnder)⟩

end Represents

theorem represents_none_deleteAtOrUnder (h : TransactionHash) (s : Store) :
    Represents h none (s.deleteAtOrUnder (Layout.chunked h).bytes) := fun q hq => by
  simp [hq]

theorem represents_set_numChunks {h : TransactionHash} {r : Reassembly} {s : Store}
    (hchunk : ∀ i, s.value (Layout.chunk h i).bytes =
      if i ∈ r.received then some (r.fragment i) else none)
    (honly : ∀ q, IsAtOrUnder (Layout.chunked h).bytes q → s.value q ≠ none →
      q = (Layout.numChunks h).bytes ∨ ∃ i, q = (Layout.chunk h i).bytes) :
    Represents h (some r) (s.set (Layout.numChunks h).bytes (leBytes 2 r.numChunks.toNat)) := by
  refine ⟨by simp, fun i => ?_, fun q hq hv => ?_⟩
  · simp [Layout.chunk_bytes_ne_numChunks, hchunk]
  · by_cases hqn : q = (Layout.numChunks h).bytes
    · exact .inl hqn
    · exact honly q hq (by simpa [hqn] using hv)

namespace Request

/-- The storage function that serves a request for the hash `h`. -/
def exec (h : TransactionHash) : Request → EStateM Error Store (Option Bytes)
  | .create N => do
      createChunkedTransaction h N
      pure none
  | .storeChunk i data => storeTransactionChunk h i data
  | .remove => do
      removeChunkedTransaction h
      pure none

theorem create_refines {h : TransactionHash} {o : Option Reassembly} {s : Store}
    (hs : Represents h o s) (N : UInt16) :
    ∃ s', createChunkedTransaction h N s = .ok () s' ∧ Represents h ((create N).step o).2 s' := by
  cases o with
  | none =>
      have hnone : s.value (Layout.numChunks h).bytes = none :=
        hs _ (Layout.numChunks_isStrictlyUnder h).isAtOrUnder
      exact ⟨_, createChunkedTransaction_apply N (by simp [hnone]),
        represents_set_numChunks (r := Reassembly.start N)
          (fun i => by simp [Reassembly.start, hs _ (Layout.chunk_isStrictlyUnder h i).isAtOrUnder])
          fun q hq hv => absurd (hs q hq) hv⟩
  | some r =>
      exact ⟨_, createChunkedTransaction_apply N (by simp [hs.1]),
        represents_set_numChunks (r := { r with numChunks := N }) hs.2.1 hs.2.2⟩

/-- On an open transaction, a stored fragment is what the machine's
`storeChunk` step does, in each of the function's branches. -/
theorem storeChunk_refines {h : TransactionHash} {r : Reassembly} {s : Store}
    (hs : Represents h (some r) s) (i : UInt16) (data : Bytes) :
    (storeTransactionChunk h i data s).toExcept = ((storeChunk i data).step (some r)).1 ∧
      Represents h ((storeChunk i data).step (some r)).2 (storeTransactionChunk h i data s).state := by
  have hdec : decide (r.numChunks ≤ (r.received.card + 1).toUInt16) = r.isComplete := rfl
  rw [storeTransactionChunk_eq, bind_apply_of_ok hs.numChunks_apply,
    bind_apply_of_ok (isTransactionComplete_apply _ _ _), hs.card_subkeys, hdec]
  simp only [step]
  by_cases hc : r.isComplete = true
  · rw [if_pos hc, if_pos hc, bind_apply_of_ok (hs.getFullTransaction_apply data),
      bind_apply_of_ok (show Runtime.storeDelete _ s = _ from if_neg hs.valueType_chunked_ne_none)]
    exact ⟨rfl, represents_none_deleteAtOrUnder h s⟩
  · rw [if_neg hc, if_neg hc]
    by_cases hi : i ∈ r.received
    · rw [if_pos hi, bind_apply_of_ok
        (storeTransactionChunkData_apply_of_some data ((hs.2.1 i).trans (if_pos hi)))]
      exact ⟨rfl, hs⟩
    · have hv := (hs.2.1 i).trans (if_neg hi)
      rw [if_neg hi]
      by_cases hdata : data.length ≤ 2 * MAX_FILE_CHUNK_SIZE
      · rw [dif_pos hdata, bind_apply_of_ok (storeTransactionChunkData_apply_of_none hdata hv)]
        exact ⟨rfl, hs.receive hi data hdata⟩
      · rw [dif_neg hdata, bind_apply_of_error
          (storeTransactionChunkData_apply_of_none_of_lt (by omega) hv)]
        exact ⟨rfl, hs.receive hi _ _⟩

/-- The storage functions run the reassembly machine: from a store that
represents a state, a request returns what the machine returns and leaves a
store that represents the machine's next state. -/
theorem exec_refines {h : TransactionHash} {o : Option Reassembly} {s : Store}
    (hs : Represents h o s) (q : Request) :
    ((q.exec h) s).toExcept = (q.step o).1 ∧ Represents h (q.step o).2 ((q.exec h) s).state := by
  cases q with
  | create N =>
      obtain ⟨s', hcreate, hs'⟩ := create_refines hs N
      rw [exec, bind_apply_of_ok hcreate]
      cases o <;> exact ⟨rfl, hs'⟩
  | storeChunk i data =>
      cases o with
      | none =>
          rw [exec, storeTransactionChunk_apply_of_none
            (hs _ (Layout.numChunks_isStrictlyUnder h).isAtOrUnder)]
          exact ⟨rfl, hs⟩
      | some r => exact storeChunk_refines hs i data
  | remove =>
      cases o with
      | none =>
          rw [exec, bind_apply_of_error (by rw [removeChunkedTransaction_apply, if_pos hs.valueType_eq_none])]
          exact ⟨rfl, hs⟩
      | some r =>
          rw [exec, bind_apply_of_ok (by rw [removeChunkedTransaction_apply, if_neg hs.valueType_chunked_ne_none])]
          exact ⟨rfl, represents_none_deleteAtOrUnder h s⟩

theorem runAll_refines {h : TransactionHash} (qs : List Request) {o : Option Reassembly} {s : Store}
    (hs : Represents h o s) :
    (runAll (exec h) qs s).1 = (run qs o).1 ∧ Represents h (run qs o).2 (runAll (exec h) qs s).2 := by
  induction qs generalizing o s with
  | nil => exact ⟨rfl, hs⟩
  | cons q qs ih =>
      obtain ⟨hres, hnext⟩ := exec_refines hs q
      obtain ⟨hrest, hend⟩ := ih hnext
      exact ⟨by simp [runAll, run, hres, hrest], hend⟩

end Request

end KernelEvmStorage
