import KernelEvmStorage.Reassembly.Refinement

/-!
# Reassembly over whole runs

What the storage functions do over runs of chunked-transaction calls, from a
store with nothing at or under the transaction's path: the machine's run
theorems, carried to the store by the refinement.  Exactly-once delivery in
any order reassembles the transaction.  A retried delivery is dropped only
while two or more fragments are missing; with one missing it completes the
transaction with the retried payload.  Indices at or above the count are
stored and counted like the others, so that the completing call can find
several indices missing, and it puts its own payload at each of them; with
every index below the count it finds exactly one.
-/

namespace KernelEvmStorage

/-- With every index below the count, a completing call finds exactly one
index below the count without a stored fragment, and returns the stored
fragments in index order with its own payload in that one place. -/
theorem storeTransactionChunk_completes_one_missing (h : TransactionHash) (N : UInt16) (s : Store)
    (hfresh : ∀ p, IsAtOrUnder (Layout.chunked h).bytes p → s.value p = none)
    (calls : List (UInt16 × Bytes)) (hcalls : ∀ c ∈ calls, c.1 < N) (i : UInt16) (hi : i < N)
    (d data : Bytes) (s' : Store) :
    let sk := (runAll (fun c => storeTransactionChunk h c.1 c.2) calls
      (createChunkedTransaction h N s).state).2
    storeTransactionChunk h i d sk = .ok (some data) s' →
      (∃! m : UInt16, m < N ∧ sk.value (Layout.chunk h m).bytes = none) ∧
        data = ((List.range N.toNat).map fun k =>
          (sk.value (Layout.chunk h k.toUInt16).bytes).getD d).flatten := by
  intro sk hdone
  obtain ⟨s₁, hcreate, hs₁⟩ := Request.create_refines (o := none) hfresh N
  have hN : 0 < N.toNat := by have := UInt16.lt_iff_toNat_lt.mp hi; omega
  obtain ⟨-, hend⟩ := Request.runAll_refines (calls.map fun c => .storeChunk c.1 c.2)
    (o := some (.start N)) hs₁
  have hsk : (runAll (Request.exec h) (calls.map fun c => .storeChunk c.1 c.2) s₁).2 = sk := by
    simp only [sk, hcreate, runAll_map]
    rfl
  rw [hsk] at hend
  have hopen := Request.OpenOrGone.run calls hcalls (.inr ⟨_, rfl, Reassembly.start_open hN⟩)
  generalize (Request.run (calls.map fun c => .storeChunk c.1 c.2) (some (.start N))).2 = o
    at hend hopen
  rcases hopen with rfl | ⟨r, rfl, hr⟩
  · rw [storeTransactionChunk_apply_of_none (hend _ (Layout.numChunks_isStrictlyUnder h).isAtOrUnder)]
      at hdone
    cases hdone
  · obtain ⟨hres, -⟩ := Request.exec_refines hend (.storeChunk i d)
    obtain ⟨hc, rfl⟩ := Request.step_storeChunk_returns_some (hres.symm.trans (by
      show (storeTransactionChunk h i d sk).toExcept = _
      rw [hdone]; rfl))
    obtain ⟨m, ⟨hm, hmr⟩, huniq⟩ := hr.exists_unique_missing hc
    refine ⟨⟨m, ⟨hm, by rw [hend.2.1, if_neg hmr]⟩, fun m' ⟨hm', hv⟩ => huniq m' ⟨hm', fun hmem => ?_⟩⟩, ?_⟩
    · rw [hend.2.1, if_pos hmem] at hv
      cases hv
    · rw [Reassembly.assemble, hr.1]
      congr 1
      exact List.map_congr_left fun k _ => by rw [hend.2.1]; split_ifs <;> rfl

/-- Chunk 0 of a transaction of two is stored; chunk 1 completes it, with the
stored fragment in front of its own payload. -/
theorem storeTransactionChunk_completes_one_missing_second :
    let sk := (runAll (fun c => storeTransactionChunk zeroHash c.1 c.2) [((0 : UInt16), [(1 : UInt8)])]
      (createChunkedTransaction zeroHash 2 Store.empty).state).2
    ∃ s', storeTransactionChunk zeroHash 1 [2] sk = .ok (some [1, 2]) s' ∧
      (∃! m : UInt16, m < 2 ∧ sk.value (Layout.chunk zeroHash m).bytes = none) ∧
      [1, 2] = ((List.range 2).map fun k => (sk.value (Layout.chunk zeroHash k.toUInt16).bytes).getD [2]).flatten := by
  intro sk
  obtain ⟨s₁, hcreate, hs₁⟩ := Request.create_refines (o := none) (h := zeroHash) (s := Store.empty)
    (fun _ _ => rfl) 2
  obtain ⟨-, hs₂⟩ := Request.exec_refines (o := some (.start 2)) hs₁ (.storeChunk 0 [1])
  rw [Request.step_storeChunk_of_not_mem (by decide) (by decide) (by decide)] at hs₂
  obtain ⟨hres, -⟩ := Request.exec_refines hs₂ (.storeChunk 1 [2])
  rw [Request.step_storeChunk_of_isComplete (by decide)] at hres
  have hdone : storeTransactionChunk zeroHash 1 [2] sk =
      .ok (some [1, 2]) (storeTransactionChunk zeroHash 1 [2] sk).state := by
    simp only [sk, runAll, hcreate]
    exact EStateM.Result.eq_ok_of_toExcept (hres.trans (by decide))
  obtain ⟨hm, hdata⟩ := storeTransactionChunk_completes_one_missing zeroHash 2 Store.empty (fun _ _ => rfl)
    [(0, [1])] (by decide) 1 (by decide) [2] [1, 2] _ hdone
  exact ⟨_, hdone, hm, hdata⟩

end KernelEvmStorage
