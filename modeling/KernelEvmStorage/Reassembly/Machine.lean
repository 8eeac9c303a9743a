import KernelEvmStorage.Encoding
import KernelEvmStorage.Host

/-!
# The reassembly protocol

A transaction too large for one inbox message is sent as `numChunks`
fragments, each carrying its index.  The storage module keeps, per
transaction hash, the expected count and the fragments received so far, and
completes the transaction on the delivery that finds all but one fragment
stored: it returns the fragments in index order, with the delivered one in the
place of the missing one.

This module is that protocol at the level of fragments, with the storage
module's own decisions kept: the completeness test counts the fragments
received, not which ones, and a delivery whose fragment is already stored is
dropped.  The refinement module proves that the storage functions run this
machine; the theorems here say what it does over whole runs.
-/

namespace KernelEvmStorage

/-- The state of one chunked transaction: the expected fragment count and the
fragments received so far.  A stored fragment is at most two store values. -/
structure Reassembly where
  numChunks : UInt16
  received : Finset UInt16
  fragment : UInt16 → Bytes
  fragment_le : ∀ i, (fragment i).length ≤ 2 * MAX_FILE_CHUNK_SIZE

/-- What the storage module is asked to do with one chunked transaction. -/
inductive Request
  | create (numChunks : UInt16)
  | storeChunk (i : UInt16) (data : Bytes)
  | remove

namespace Reassembly

/-- A transaction just created: nothing received. -/
def start (numChunks : UInt16) : Reassembly :=
  ⟨numChunks, ∅, fun _ => [], fun _ => Nat.zero_le _⟩

def receive (r : Reassembly) (i : UInt16) (data : Bytes)
    (hdata : data.length ≤ 2 * MAX_FILE_CHUNK_SIZE) : Reassembly where
  numChunks := r.numChunks
  received := insert i r.received
  fragment := Function.update r.fragment i data
  fragment_le j := by
    by_cases hj : j = i
    · subst hj
      simpa using hdata
    · simpa [Function.update_noteq hj] using r.fragment_le j

/-- The storage module's completeness test: the subkeys of the transaction,
`num_chunks` and one per received fragment, taken as a `u16`, reach the
expected count. -/
def isComplete (r : Reassembly) : Bool := r.numChunks ≤ (r.received.card + 1).toUInt16

/-- The fragments `0, …, numChunks - 1` in order, `missingData` for each one
not received. -/
def assemble (r : Reassembly) (missingData : Bytes) : Bytes :=
  ((List.range r.numChunks.toNat).map fun k =>
    if k.toUInt16 ∈ r.received then r.fragment k.toUInt16 else missingData).flatten

end Reassembly

namespace Request

/-- One request: what the storage module returns, and the transaction's state
after it, `none` when nothing is stored for the hash. -/
def step : Request → Option Reassembly → Except Error (Option Bytes) × Option Reassembly
  | .create N, none => (.ok none, some (Reassembly.start N))
  | .create N, some r => (.ok none, some { r with numChunks := N })
  | .storeChunk _ _, none => (.error (.ofRuntime .storeNotAValue), none)
  | .storeChunk i data, some r =>
      if r.isComplete then (.ok (some (r.assemble data)), none)
      else if i ∈ r.received then (.ok none, some r)
      else if hdata : data.length ≤ 2 * MAX_FILE_CHUNK_SIZE then
        (.ok none, some (r.receive i data hdata))
      else
        -- the first store value is written before the second write fails
        (.error (.ofRuntime .inputOutputTooLarge),
          some (r.receive i (data.take MAX_FILE_CHUNK_SIZE) (by simp; omega)))
  | .remove, none => (.error (.ofRuntime .pathNotFound), none)
  | .remove, some _ => (.ok none, none)

/-- A run of requests: every result, and the state at the end.  A failed
request does not stop the run; the next one starts where it left off. -/
def run : List Request → Option Reassembly → List (Except Error (Option Bytes)) × Option Reassembly
  | [], r => ([], r)
  | q :: qs, r => ((q.step r).1 :: (run qs (q.step r).2).1, (run qs (q.step r).2).2)

@[simp] theorem run_nil (r : Option Reassembly) : run [] r = ([], r) := rfl

end Request

/-! ## Indices -/

theorem toUInt16_inj {a b : Nat} (ha : a < 65536) (hb : b < 65536)
    (h : a.toUInt16 = b.toUInt16) : a = b := by
  simpa [Nat.mod_eq_of_lt ha, Nat.mod_eq_of_lt hb] using congrArg UInt16.toNat h

theorem card_toFinset_map_toUInt16 {l : List Nat} (hnd : l.Nodup) (hl : ∀ k ∈ l, k < 65536) :
    (l.map Nat.toUInt16).toFinset.card = l.length := by
  rw [List.toFinset_card_of_nodup (hnd.map_on fun a ha b hb => toUInt16_inj (hl a ha) (hl b hb)),
    List.length_map]

/-- The indices below `N`, as a finite set. -/
def indicesBelow (N : UInt16) : Finset UInt16 := (Finset.range N.toNat).image Nat.toUInt16

theorem mem_indicesBelow {N m : UInt16} : m ∈ indicesBelow N ↔ m < N := by
  simp only [indicesBelow, Finset.mem_image, Finset.mem_range, UInt16.lt_iff_toNat_lt]
  constructor
  · rintro ⟨k, hk, rfl⟩
    rwa [toNat_toUInt16, Nat.mod_eq_of_lt (hk.trans N.toNat_lt_size)]
  · exact fun hm => ⟨m.toNat, hm, toUInt16_toNat m⟩

theorem card_indicesBelow (N : UInt16) : (indicesBelow N).card = N.toNat := by
  rw [indicesBelow, Finset.card_image_of_injOn, Finset.card_range]
  exact fun a ha b hb => toUInt16_inj ((Finset.mem_range.mp ha).trans N.toNat_lt_size)
    ((Finset.mem_range.mp hb).trans N.toNat_lt_size)

namespace Reassembly

theorem isComplete_iff {r : Reassembly} (h : r.received.card + 1 < 65536) :
    r.isComplete = true ↔ r.numChunks.toNat ≤ r.received.card + 1 := by
  simp [isComplete, UInt16.le_iff_toNat_le, Nat.mod_eq_of_lt h]

/-- `r` holds exactly the fragments `payload j` of the indices `j` of `done`. -/
def Delivered (r : Reassembly) (N : UInt16) (done : List Nat) (payload : Nat → Bytes) : Prop :=
  r.numChunks = N ∧ r.received = (done.map Nat.toUInt16).toFinset ∧
    ∀ j ∈ done, r.fragment j.toUInt16 = payload j

theorem Delivered.receive {r : Reassembly} {N : UInt16} {done : List Nat} {payload : Nat → Bytes}
    (hr : r.Delivered N done payload) {j : Nat} (hdone : ∀ k ∈ done ++ [j], k < 65536)
    (hj : (payload j).length ≤ 2 * MAX_FILE_CHUNK_SIZE) :
    (r.receive j.toUInt16 (payload j) hj).Delivered N (done ++ [j]) payload := by
  obtain ⟨hN, hrec, hfrag⟩ := hr
  refine ⟨hN, by simp [Reassembly.receive, hrec, Finset.insert_eq, Finset.union_comm], fun k hk => ?_⟩
  by_cases hkj : k = j
  · subst hkj
    simp [Reassembly.receive]
  · have hne : k.toUInt16 ≠ j.toUInt16 := fun h =>
      hkj (toUInt16_inj (hdone k hk) (hdone j (by simp)) h)
    simpa [Reassembly.receive, Function.update_noteq hne] using
      hfrag k ((List.mem_append.mp hk).resolve_right (by simpa using hkj))

theorem Delivered.isComplete {r : Reassembly} {N : UInt16} {done : List Nat} {payload : Nat → Bytes}
    (hr : r.Delivered N done payload) (hnd : done.Nodup) (hlt : ∀ j ∈ done, j < 65536)
    (hlen : done.length + 1 = N.toNat) : r.isComplete = true := by
  have hcard : r.received.card = done.length := by
    rw [hr.2.1]
    exact card_toFinset_map_toUInt16 hnd hlt
  have hN : N.toNat < 65536 := N.toNat_lt_size
  rw [Reassembly.isComplete_iff (by omega), hr.1, hcard]
  omega

/-- A transaction between its creation and its completion, fed only indices
below its count: every received index is below the count, and fewer than
the count are received. -/
def Open (r : Reassembly) (N : UInt16) : Prop :=
  r.numChunks = N ∧ r.received ⊆ indicesBelow N ∧ r.received.card < N.toNat

theorem start_open {N : UInt16} (hN : 0 < N.toNat) : (start N).Open N :=
  ⟨rfl, Finset.empty_subset _, hN⟩

theorem Open.receive {r : Reassembly} {N : UInt16} (hr : r.Open N) (hc : r.isComplete = false)
    {i : UInt16} (hi : i < N) (data : Bytes) (hdata : data.length ≤ 2 * MAX_FILE_CHUNK_SIZE) :
    (r.receive i data hdata).Open N := by
  obtain ⟨hN, hsub, hcard⟩ := hr
  have hlt : N.toNat < 65536 := N.toNat_lt_size
  have hopen : ¬N.toNat ≤ r.received.card + 1 := by
    rw [← hN, ← Reassembly.isComplete_iff (r := r) (by omega)]; simp [hc]
  refine ⟨hN, Finset.insert_subset (mem_indicesBelow.mpr hi) hsub, ?_⟩
  have := Finset.card_insert_le i r.received
  simp only [Reassembly.receive]
  omega

theorem Open.exists_unique_missing {r : Reassembly} {N : UInt16} (hr : r.Open N)
    (hc : r.isComplete = true) : ∃! m : UInt16, m < N ∧ m ∉ r.received := by
  obtain ⟨hN, hsub, hcard⟩ := hr
  have hlt : N.toNat < 65536 := N.toNat_lt_size
  have hfull : N.toNat ≤ r.received.card + 1 := by
    rw [← hN, ← Reassembly.isComplete_iff (by omega)]; exact hc
  have hone : (indicesBelow N \ r.received).card = 1 := by
    rw [Finset.card_sdiff hsub, card_indicesBelow]
    omega
  obtain ⟨x, hx⟩ := Finset.card_eq_one.mp hone
  have hxmem := Finset.mem_sdiff.mp (hx ▸ Finset.mem_singleton_self x)
  exact ⟨x, ⟨mem_indicesBelow.mp hxmem.1, hxmem.2⟩, fun m ⟨hm, hmr⟩ =>
    Finset.mem_singleton.mp (hx ▸ Finset.mem_sdiff.mpr ⟨mem_indicesBelow.mpr hm, hmr⟩)⟩

end Reassembly

namespace Request

theorem step_storeChunk_of_isComplete {r : Reassembly} (hc : r.isComplete = true) (i : UInt16)
    (data : Bytes) : (storeChunk i data).step (some r) = (.ok (some (r.assemble data)), none) := by
  simp [step, hc]

theorem step_storeChunk_of_not_mem {r : Reassembly} (hc : r.isComplete = false) {i : UInt16}
    (hi : i ∉ r.received) {data : Bytes} (hdata : data.length ≤ 2 * MAX_FILE_CHUNK_SIZE) :
    (storeChunk i data).step (some r) = (.ok none, some (r.receive i data hdata)) := by
  simp [step, hc, hi, hdata]

/-- Requests of indices below the count keep a transaction open until it
completes; from then on nothing is stored for it. -/
def OpenOrGone (N : UInt16) (o : Option Reassembly) : Prop :=
  o = none ∨ ∃ r, o = some r ∧ r.Open N

theorem OpenOrGone.step {N : UInt16} {o : Option Reassembly} (ho : OpenOrGone N o) {i : UInt16}
    (hi : i < N) (data : Bytes) : OpenOrGone N ((storeChunk i data).step o).2 := by
  rcases ho with rfl | ⟨r, rfl, hr⟩
  · exact .inl rfl
  · dsimp only [Request.step]
    split_ifs with hc hmem hdata
    · exact .inl rfl
    · exact .inr ⟨r, rfl, hr⟩
    · exact .inr ⟨_, rfl, hr.receive (Bool.eq_false_iff.mpr hc) hi data hdata⟩
    · exact .inr ⟨_, rfl, hr.receive (Bool.eq_false_iff.mpr hc) hi _ _⟩

theorem OpenOrGone.run {N : UInt16} (calls : List (UInt16 × Bytes)) (hcalls : ∀ c ∈ calls, c.1 < N)
    {o : Option Reassembly} (ho : OpenOrGone N o) :
    OpenOrGone N (run (calls.map fun c => storeChunk c.1 c.2) o).2 := by
  induction calls generalizing o with
  | nil => exact ho
  | cons c calls ih =>
      exact ih (fun c' hc' => hcalls c' (List.mem_cons_of_mem _ hc'))
        (ho.step (hcalls c (List.mem_cons_self _ _)) c.2)

theorem step_storeChunk_returns_some {r : Reassembly} {i : UInt16} {d data : Bytes}
    (h : ((storeChunk i d).step (some r)).1 = .ok (some data)) :
    r.isComplete = true ∧ data = r.assemble d := by
  simp only [step] at h
  split_ifs at h with hc <;> first | exact ⟨hc, (Option.some.inj (Except.ok.inj h)).symm⟩ | cases h

end Request

end KernelEvmStorage
