import KernelEvmStorage.Reassembly.Isolation

/-!
# What every run of the chunked-transaction functions keeps

The stores a run of `create_chunked_transaction`, `store_transaction_chunk`
and `remove_chunked_transaction` calls for one hash can reach, from a store
with nothing under the hash's path, all represent a state of the reassembly
machine, and calls for many hashes interleaved run one machine per hash.
Over them: a stored fragment is never overwritten, only deleted with
the whole transaction; a call fails only when the transaction does not exist,
or, beyond the caller's size guarantee, after it has stored the first part of
an oversize fragment, which no later delivery of that index can replace.  A
removal resets the transaction from any store, reachable or not.
-/

namespace KernelEvmStorage

/-! ## Reachable stores -/

/-- The stores that calls for the hash `h` reach from a store with nothing at
or under the hash's chunked-transaction path. -/
inductive Reachable (h : TransactionHash) : Store → Prop
  | fresh {s : Store} : (∀ q, IsAtOrUnder (Layout.chunked h).bytes q → s.value q = none) → Reachable h s
  | step {s : Store} (q : Request) : Reachable h s → Reachable h ((q.exec h) s).state

theorem Reachable.exists_represents {h : TransactionHash} {s : Store} (hs : Reachable h s) :
    ∃ o, Represents h o s := by
  induction hs with
  | fresh hfresh => exact ⟨none, hfresh⟩
  | step q _ ih =>
      obtain ⟨o, ho⟩ := ih
      exact ⟨_, (Request.exec_refines ho q).2⟩

theorem Reachable.create {h : TransactionHash} {s : Store} (hs : Reachable h s) (N : UInt16) :
    Reachable h (createChunkedTransaction h N s).state := by
  have hstep := hs.step (.create N)
  rw [Request.exec, bind_apply_of_ok (createChunkedTransaction_writes h N s)] at hstep
  rw [createChunkedTransaction_writes]
  exact hstep

/-! ## Many transactions at once -/

theorem Represents.congr {h : TransactionHash} {o : Option Reassembly} {s t : Store}
    (hst : s.AgreeOn (IsAtOrUnder (Layout.chunked h).bytes) t) (hs : Represents h o s) :
    Represents h o t := by
  cases o with
  | none => exact fun q hq => (hst q hq).symm.trans (hs q hq)
  | some r =>
      obtain ⟨hnum, hchunk, honly⟩ := hs
      exact ⟨(hst _ (Layout.numChunks_isStrictlyUnder h).isAtOrUnder).symm.trans hnum,
        fun i => (hst _ (Layout.chunk_isStrictlyUnder h i).isAtOrUnder).symm.trans (hchunk i),
        fun q hq hv => honly q hq (by rwa [hst q hq])⟩

theorem Reassembly.receive_keeps {r : Reassembly} {i j : UInt16} (hi : i ∈ r.received) (hj : j ∉ r.received)
    (data : Bytes) (hdata : data.length ≤ 2 * MAX_FILE_CHUNK_SIZE) :
    i ∈ (r.receive j data hdata).received ∧ (r.receive j data hdata).fragment i = r.fragment i :=
  ⟨Finset.mem_insert_of_mem hi, Function.update_noteq (fun hij : i = j => hj (hij ▸ hi)) _ _⟩

namespace Request

/-- Index `i` of the machine's transaction holds the fragment `v`. -/
def Holds (i : UInt16) (v : Bytes) : Option Reassembly → Prop
  | none => False
  | some r => i ∈ r.received ∧ r.fragment i = v

variable {i : UInt16} {v : Bytes}

/-- A request other than `remove` that does not complete the transaction keeps
every received fragment. -/
theorem Holds.step {q : Request} (hq : q ≠ .remove) {o : Option Reassembly}
    (hres : ∀ d, (q.step o).1 ≠ .ok (some d)) (hh : Holds i v o) : Holds i v (q.step o).2 := by
  cases o with
  | none => exact hh.elim
  | some r =>
      cases q with
      | create N => exact hh
      | storeChunk j data =>
          simp only [Request.step] at hres ⊢
          split_ifs at hres ⊢ with hc hj hdata
          · exact (hres _ rfl).elim
          · exact hh
          · exact hh.2 ▸ Reassembly.receive_keeps hh.1 hj data hdata
          · exact hh.2 ▸ Reassembly.receive_keeps hh.1 hj _ _
      | remove => exact (hq rfl).elim

theorem Holds.run : ∀ {qs : List Request} {o : Option Reassembly}, remove ∉ qs →
    (∀ d, .ok (some d) ∉ (run qs o).1) → Holds i v o → Holds i v (run qs o).2
  | [], _, _, _, hh => hh
  | q :: qs, o, hq, hres, hh => by
      rw [List.mem_cons, not_or] at hq
      simp only [Request.run, List.mem_cons, not_or] at hres ⊢
      exact Holds.run hq.2 (fun d => (hres d).2)
        (Holds.step (Ne.symm hq.1) (fun d hd => (hres d).1 hd.symm) hh)

end Request

theorem Represents.value_chunk_eq_some {h : TransactionHash} {o : Option Reassembly} {s : Store}
    (hs : Represents h o s) (i : UInt16) (v : Bytes) :
    s.value (Layout.chunk h i).bytes = some v ↔ Request.Holds i v o := by
  cases o with
  | none => simp [Request.Holds, hs _ (Layout.chunk_isStrictlyUnder h i).isAtOrUnder]
  | some r =>
      rw [hs.2.1 i]
      split_ifs with hi <;> simp [Request.Holds, hi]

/-- A run of calls that neither removes nor completes the transaction keeps
every stored fragment of a store that represents a machine state. -/
theorem Represents.value_chunk_runAll {h : TransactionHash} {o : Option Reassembly} {s : Store}
    (ho : Represents h o s) {qs : List Request} (hremove : Request.remove ∉ qs)
    (hdone : ∀ d, .ok (some d) ∉ (runAll (Request.exec h) qs s).1) {i : UInt16} {v : Bytes}
    (hv : s.value (Layout.chunk h i).bytes = some v) :
    (runAll (Request.exec h) qs s).2.value (Layout.chunk h i).bytes = some v := by
  obtain ⟨hres, hend⟩ := Request.runAll_refines qs ho
  rw [hres] at hdone
  exact (hend.value_chunk_eq_some i v).2
    (Request.Holds.run hremove hdone ((ho.value_chunk_eq_some i v).1 hv))

/-- First write wins: through any run of creations and deliveries that does
not complete the transaction, every fragment stored in a reachable store keeps
its value.  A stored fragment goes only with the whole transaction. -/
theorem storedFragment_kept {h : TransactionHash} {s : Store} (hs : Reachable h s) (qs : List Request)
    (hremove : Request.remove ∉ qs) (hdone : ∀ d, .ok (some d) ∉ (runAll (Request.exec h) qs s).1)
    {i : UInt16} {v : Bytes} (hv : s.value (Layout.chunk h i).bytes = some v) :
    (runAll (Request.exec h) qs s).2.value (Layout.chunk h i).bytes = some v :=
  let ⟨_, ho⟩ := hs.exists_represents
  ho.value_chunk_runAll hremove hdone hv

/-- A redelivery of a stored fragment keeps the stored payload. -/
theorem storedFragment_kept_redelivery :
    (runAll (Request.exec zeroHash) [.storeChunk 0 [2]]
      ((Request.exec zeroHash (.storeChunk 0 [1]))
        ((Request.exec zeroHash (.create 3)) Store.empty).state).state).2.value
        (Layout.chunk zeroHash 0).bytes = some [1] := by
  have h1 := Request.exec_refines (o := none) (s := Store.empty) (fun _ _ => rfl)
    (.create 3) (h := zeroHash)
  have h2 := Request.exec_refines h1.2 (.storeChunk 0 [1])
  have h3 := Request.exec_refines h2.2 (.storeChunk 0 [2])
  have hr : ((Request.storeChunk 0 [1]).step ((Request.create 3).step none).2).2 =
      some ((Reassembly.start 3).receive 0 [1] (by decide)) := by
    simp only [Request.step]
    rw [if_neg (by decide), if_neg (by decide), dif_pos (by decide)]
  refine storedFragment_kept (.step _ (.step _ (.fresh fun _ _ => rfl))) _ (by simp)
    (fun d hd => ?_) ((h2.2.value_chunk_eq_some 0 [1]).2 (hr ▸ ⟨by decide, rfl⟩))
  rw [hr] at h3
  simp only [runAll, List.mem_singleton, h3.1, Request.step] at hd
  rw [if_neg (by decide), if_pos (by decide)] at hd
  cases hd

/-! ## A delivery beyond the size guarantee -/

theorem storeTransactionChunk_apply_of_incomplete {h : TransactionHash} {i : UInt16} {s : Store}
    {N : UInt16} (data : Bytes) (hN : chunkedTransactionNumChunksByPath (Layout.chunked h) s = .ok N s)
    (hopen : isTransactionComplete (Layout.chunked h) N s = .ok false s) :
    storeTransactionChunk h i data s =
      (storeTransactionChunkData (Layout.chunk h i) data >>= fun _ => pure none) s := by
  rw [storeTransactionChunk_eq, bind_apply_of_ok hN, bind_apply_of_ok hopen]
  rfl

/-- Beyond the caller's size guarantee a delivery is not atomic.  On an open,
incomplete transaction of a reachable store, a payload longer than two store
values fails only after its first `MAX_FILE_CHUNK_SIZE` bytes are stored as
the fragment.  Through every later run of calls that neither removes nor
completes the transaction, the truncated fragment stays, and every delivery of
that index while the transaction is incomplete is dropped. -/
theorem storeTransactionChunk_oversize_sticks {h : TransactionHash} {s : Store} (hs : Reachable h s)
    {i N : UInt16} {data : Bytes}
    (hN : chunkedTransactionNumChunksByPath (Layout.chunked h) s = .ok N s)
    (hopen : isTransactionComplete (Layout.chunked h) N s = .ok false s)
    (hi : s.value (Layout.chunk h i).bytes = none) (hdata : 2 * MAX_FILE_CHUNK_SIZE < data.length) :
    let s' := s.set (Layout.chunk h i).bytes (data.take MAX_FILE_CHUNK_SIZE)
    storeTransactionChunk h i data s = .error (.ofRuntime .inputOutputTooLarge) s' ∧
      ∀ qs, Request.remove ∉ qs → (∀ d, .ok (some d) ∉ (runAll (Request.exec h) qs s').1) →
        let s'' := (runAll (Request.exec h) qs s').2
        s''.value (Layout.chunk h i).bytes = some (data.take MAX_FILE_CHUNK_SIZE) ∧
          ∀ N', chunkedTransactionNumChunksByPath (Layout.chunked h) s'' = .ok N' s'' →
            isTransactionComplete (Layout.chunked h) N' s'' = .ok false s'' →
            ∀ retry, storeTransactionChunk h i retry s'' = .ok none s'' := by
  intro s'
  have hfail : storeTransactionChunk h i data s = .error (.ofRuntime .inputOutputTooLarge) s' := by
    rw [storeTransactionChunk_apply_of_incomplete data hN hopen]
    exact bind_apply_of_error (storeTransactionChunkData_apply_of_none_of_lt hdata hi)
  have hs' := hs.step (.storeChunk i data)
  rw [show (Request.storeChunk i data).exec h = storeTransactionChunk h i data from rfl, hfail] at hs'
  obtain ⟨o, ho⟩ := hs'.exists_represents
  refine ⟨hfail, fun qs hremove hdone => ?_⟩
  have hkept := ho.value_chunk_runAll hremove hdone (if_pos rfl)
  refine ⟨hkept, fun N' hN' hopen' retry => ?_⟩
  rw [storeTransactionChunk_apply_of_incomplete retry hN' hopen']
  exact bind_apply_of_ok (storeTransactionChunkData_apply_of_some retry hkept)

/-- A transaction of three fragments: an oversize delivery of index 0 leaves its
first 2048 bytes, and they stay through every later run that neither removes
nor completes the transaction. -/
theorem storeTransactionChunk_oversize_sticks_three :
    let s' := (createChunkedTransaction zeroHash 3 Store.empty).state.set (Layout.chunk zeroHash 0).bytes
      (List.replicate 2048 7)
    storeTransactionChunk zeroHash 0 (List.replicate 4097 7) (createChunkedTransaction zeroHash 3 Store.empty).state =
        .error (.ofRuntime .inputOutputTooLarge) s' ∧
      ∀ qs, Request.remove ∉ qs → (∀ d, .ok (some d) ∉ (runAll (Request.exec zeroHash) qs s').1) →
        let s'' := (runAll (Request.exec zeroHash) qs s').2
        s''.value (Layout.chunk zeroHash 0).bytes = some (List.replicate 2048 7) ∧
          ∀ N', chunkedTransactionNumChunksByPath (Layout.chunked zeroHash) s'' = .ok N' s'' →
            isTransactionComplete (Layout.chunked zeroHash) N' s'' = .ok false s'' →
            ∀ retry, storeTransactionChunk zeroHash 0 retry s'' = .ok none s'' := by
  obtain ⟨s₁, hcreate, hs⟩ := Request.create_refines (o := none) (s := Store.empty) (fun _ _ => rfl) 3
    (h := zeroHash)
  have hcs : (createChunkedTransaction zeroHash 3 Store.empty).state = s₁ := by rw [hcreate]; rfl
  subst hcs
  have htake : (List.replicate 4097 (7 : UInt8)).take MAX_FILE_CHUNK_SIZE = List.replicate 2048 7 := by
    rw [List.take_replicate]; rfl
  have hsticks := storeTransactionChunk_oversize_sticks ((Reachable.fresh (s := Store.empty) fun _ _ => rfl).create 3)
    hs.numChunks_apply (by rw [isTransactionComplete_apply, hs.card_subkeys]; rfl)
    ((hs.2.1 0).trans (if_neg (by decide)))
    (show 2 * MAX_FILE_CHUNK_SIZE < (List.replicate 4097 (7 : UInt8)).length by rw [List.length_replicate]; decide)
  rw [htake] at hsticks
  exact hsticks

end KernelEvmStorage
