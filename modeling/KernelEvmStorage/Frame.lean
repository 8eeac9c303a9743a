import KernelEvmStorage.Host

/-!
# Regions of the store

A store computation is confined to a region of paths when it changes no value
outside the region, and what it returns and writes inside the region depends
only on the values there.  Each host call is confined to the subtree of the
path it is given, confinement is kept by `pure`, `throw` and bind, and so every
storage function is confined to the union of the subtrees it addresses.  This
is the frame rule the storage proofs use: a computation on one entity leaves
every other entity alone, and cannot tell what they hold.

The second notion is weaker and simpler: a read-only computation ends in the
state it started in, whatever it returns.
-/

namespace KernelEvmStorage

/-- `s` and `t` hold the same value at every path of the region `R`. -/
def Store.AgreeOn (R : Bytes → Prop) (s t : Store) : Prop := ∀ q, R q → s.value q = t.value q

theorem Store.AgreeOn.refl (R : Bytes → Prop) (s : Store) : s.AgreeOn R s := fun _ _ => rfl

theorem Store.AgreeOn.symm {R : Bytes → Prop} {s t : Store} (h : s.AgreeOn R t) : t.AgreeOn R s :=
  fun q hq => (h q hq).symm

theorem Store.AgreeOn.trans {R : Bytes → Prop} {s t u : Store} (h₁ : s.AgreeOn R t)
    (h₂ : t.AgreeOn R u) : s.AgreeOn R u :=
  fun q hq => (h₁ q hq).trans (h₂ q hq)

theorem Store.AgreeOn.mono {R R' : Bytes → Prop} {s t : Store} (h : s.AgreeOn R t)
    (hR : ∀ q, R' q → R q) : s.AgreeOn R' t :=
  fun q hq => h q (hR q hq)

/-- `x` changes no value outside the region `R`. -/
def ChangesOnly {α : Type} (R : Bytes → Prop) (x : EStateM Error Store α) : Prop :=
  ∀ s q, ¬R q → (x s).state.value q = s.value q

/-- `x` works inside the region `R`: it changes nothing outside, and its result
and its writes inside depend on the values inside only. -/
structure Confined {α : Type} (R : Bytes → Prop) (x : EStateM Error Store α) : Prop where
  changesOnly : ChangesOnly R x
  agree : ∀ s t, s.AgreeOn R t →
    (x s).toExcept = (x t).toExcept ∧ (x s).state.AgreeOn R (x t).state

/-- `x` ends in the state it started in. -/
def ReadOnly {α : Type} (x : EStateM Error Store α) : Prop := ∀ s, (x s).state = s

section Combinators

variable {α β : Type} {R : Bytes → Prop}

theorem Confined.pure (a : α) : Confined R (Pure.pure a : EStateM Error Store α) :=
  ⟨fun _ _ _ => rfl, fun _ _ h => ⟨rfl, h⟩⟩

theorem Confined.throw (e : Error) : Confined R (MonadExcept.throw e : EStateM Error Store α) :=
  ⟨fun _ _ _ => rfl, fun _ _ h => ⟨rfl, h⟩⟩

theorem Confined.mono {R' : Bytes → Prop} {x : EStateM Error Store α} (hx : Confined R x)
    (hR : ∀ q, R q → R' q) : Confined R' x := by
  refine ⟨fun s q hq => hx.changesOnly s q fun h => hq (hR q h), fun s t hst => ?_⟩
  obtain ⟨hres, hagree⟩ := hx.agree s t (hst.mono hR)
  refine ⟨hres, fun q hq => ?_⟩
  by_cases hin : R q
  · exact hagree q hin
  · rw [hx.changesOnly s q hin, hx.changesOnly t q hin, hst q hq]

theorem ChangesOnly.bind {x : EStateM Error Store α} {f : α → EStateM Error Store β}
    (hx : ChangesOnly R x) (hf : ∀ a, ChangesOnly R (f a)) : ChangesOnly R (x >>= f) := by
  intro s q hq
  rcases bind_apply_cases x f s with ⟨e, s', hxs, hb⟩ | ⟨a, s', hxs, hb⟩
  · rw [hb, ← hx s q hq, hxs]
    rfl
  · rw [hb, hf a s' q hq, ← hx s q hq, hxs]
    rfl

theorem ChangesOnly.mono {R' : Bytes → Prop} {x : EStateM Error Store α} (hx : ChangesOnly R x)
    (hR : ∀ q, R q → R' q) : ChangesOnly R' x :=
  fun s q hq => hx s q fun h => hq (hR q h)

theorem Confined.bind {x : EStateM Error Store α} {f : α → EStateM Error Store β}
    (hx : Confined R x) (hf : ∀ a, Confined R (f a)) : Confined R (x >>= f) := by
  refine ⟨hx.changesOnly.bind fun a => (hf a).changesOnly, fun s t hst => ?_⟩
  obtain ⟨hres, hagree⟩ := hx.agree s t hst
  rcases bind_apply_cases x f s with ⟨e, s', hxs, hb⟩ | ⟨a, s', hxs, hb⟩ <;>
    rcases bind_apply_cases x f t with ⟨e', t', hxt, hb'⟩ | ⟨a', t', hxt, hb'⟩ <;>
    rw [hxs, hxt] at hres hagree <;> simp only [EStateM.Result.toExcept] at hres <;>
    cases hres
  · rw [hb, hb']
    exact ⟨rfl, hagree⟩
  · rw [hb, hb']
    exact (hf a).agree s' t' hagree

theorem Confined.foldlM {γ : Type} {f : α → γ → EStateM Error Store α}
    (hf : ∀ acc x, Confined R (f acc x)) (l : List γ) (init : α) : Confined R (l.foldlM f init) := by
  induction l generalizing init with
  | nil => exact Confined.pure init
  | cons x l ih => exact (hf init x).bind ih

theorem ChangesOnly.forM {γ : Type} {f : γ → EStateM Error Store PUnit} (l : List γ)
    (hf : ∀ x ∈ l, ChangesOnly R (f x)) : ChangesOnly R (l.forM f) := by
  induction l with
  | nil => exact (Confined.pure (R := R) PUnit.unit).changesOnly
  | cons x l ih =>
      exact (hf x (List.mem_cons_self _ _)).bind fun _ =>
        ih fun y hy => hf y (List.mem_cons_of_mem _ hy)

theorem ChangesOnly.foldlM {γ : Type} {f : α → γ → EStateM Error Store α}
    (hf : ∀ acc x, ChangesOnly R (f acc x)) (l : List γ) (init : α) :
    ChangesOnly R (l.foldlM f init) := by
  induction l generalizing init with
  | nil => exact (Confined.pure (R := R) init).changesOnly
  | cons x l ih => exact (hf init x).bind ih

/-- A bind on a result of the storage module's own functions: only the
successful values matter. -/
theorem ChangesOnly.bind_liftExcept {r : Except Error α} {f : α → EStateM Error Store β}
    (hf : ∀ a, r = .ok a → ChangesOnly R (f a)) : ChangesOnly R (liftExcept r >>= f) := by
  cases r with
  | error e => exact fun _ _ _ => rfl
  | ok a => exact hf a rfl

theorem ReadOnly.bind {x : EStateM Error Store α} {f : α → EStateM Error Store β}
    (hx : ReadOnly x) (hf : ∀ a, ReadOnly (f a)) : ReadOnly (x >>= f) := by
  intro s
  rcases bind_apply_cases x f s with ⟨e, s', hxs, hb⟩ | ⟨a, s', hxs, hb⟩
  · rw [hb]
    simpa [hxs, EStateM.Result.state] using hx s
  · have hs' : s' = s := by simpa [hxs, EStateM.Result.state] using hx s
    rw [hb, hf a s', hs']

theorem ReadOnly.pure (a : α) : ReadOnly (Pure.pure a : EStateM Error Store α) := fun _ => rfl

theorem ReadOnly.throw (e : Error) : ReadOnly (MonadExcept.throw e : EStateM Error Store α) :=
  fun _ => rfl

theorem ReadOnly.foldlM {α γ : Type} {f : α → γ → EStateM Error Store α}
    (hf : ∀ acc x, ReadOnly (f acc x)) (l : List γ) (init : α) : ReadOnly (l.foldlM f init) := by
  induction l generalizing init with
  | nil => exact ReadOnly.pure init
  | cons x l ih => exact ReadOnly.bind (hf init x) ih

theorem ReadOnly.eq_of_ok {α : Type} {x : EStateM Error Store α} (hx : ReadOnly x) {s s' : Store}
    {a : α} (h : x s = .ok a s') : s = s' := by
  simpa [h, EStateM.Result.state] using (hx s).symm

theorem ReadOnly.eq_of_error {α : Type} {x : EStateM Error Store α} (hx : ReadOnly x)
    {s s' : Store} {e : Error} (h : x s = .error e s') : s = s' := by
  simpa [h, EStateM.Result.state] using (hx s).symm

/-- A computation that reads a function of the store confined to `R`. -/
theorem Confined.ofRead {x : EStateM Error Store α} (f : Store → Except Error α)
    (hx : ∀ s, x s = match f s with
      | .ok a => .ok a s
      | .error e => .error e s)
    (hf : ∀ s t, s.AgreeOn R t → f s = f t) : Confined R x ∧ ReadOnly x := by
  have hstate : ∀ s, (x s).state = s := fun s => by
    rw [hx]
    cases f s <;> rfl
  refine ⟨⟨fun s q _ => by rw [hstate], fun s t hst => ⟨?_, by rw [hstate, hstate]; exact hst⟩⟩,
    hstate⟩
  rw [hx, hx, hf s t hst]
  cases f t <;> rfl

end Combinators

/-! ## The host calls -/

section HostCalls

variable {R : Bytes → Prop} (path : OwnedPath)

theorem Store.hasSubtree_congr {s t : Store} {p : Bytes} (h : s.AgreeOn (IsAtOrUnder p) t) :
    s.HasSubtree p ↔ t.HasSubtree p := by
  unfold Store.HasSubtree
  constructor <;> rintro ⟨q, hq, hunder⟩ <;> refine ⟨q, ?_, hunder⟩ <;>
    simp only [Store.mem_keys_iff] at hq ⊢
  · rwa [← h q hunder.isAtOrUnder]
  · rwa [h q hunder.isAtOrUnder]

theorem Store.valueType_congr {s t : Store} {p : Bytes} (h : s.AgreeOn (IsAtOrUnder p) t) :
    s.valueType p = t.valueType p := by
  unfold Store.valueType
  rw [h p (isAtOrUnder_refl p), decide_eq_decide.mpr (Store.hasSubtree_congr h)]

theorem Store.subkeys_congr {s t : Store} {p : Bytes} (h : s.AgreeOn (IsAtOrUnder p) t) :
    s.subkeys p = t.subkeys p := by
  unfold Store.subkeys
  congr 1
  ext q
  simp only [Finset.mem_filter, Store.mem_keys_iff]
  constructor <;> rintro ⟨hq, hunder⟩ <;> refine ⟨?_, hunder⟩
  · rwa [← h q hunder.isAtOrUnder]
  · rwa [h q hunder.isAtOrUnder]

/-- A computation that changes only the subtree of `p` keeps every path
outside it: its value, and its subkeys unless it lies above `p`. -/
def KeepsOutside {α : Type} (p : Bytes) (x : EStateM Error Store α) : Prop :=
  ∀ s q, ¬IsAtOrUnder p q → (x s).state.value q = s.value q ∧
    (¬IsStrictlyUnder q p → (x s).state.subkeys q = s.subkeys q)

theorem ChangesOnly.keepsOutside {α : Type} {p : Bytes} {x : EStateM Error Store α}
    (hx : ChangesOnly (IsAtOrUnder p) x) : KeepsOutside p x := fun s q hq =>
  ⟨hx s q hq, fun habove => Store.subkeys_congr fun r hr => hx s r fun hpr =>
    (hpr.total hr).elim hq fun hqp => hqp.elim (fun heq => hq (heq ▸ isAtOrUnder_refl p)) habove⟩

/-- A write changes its own path only. -/
theorem Runtime.storeWrite_changesOnly (src : Bytes) (atOffset : Nat) :
    ChangesOnly (· = path.bytes) (Runtime.storeWrite path src atOffset) := by
  intro s q hq
  unfold Runtime.storeWrite
  dsimp only
  split_ifs <;> simp [EStateM.Result.state, hq]

variable {path} (hR : ∀ q, IsAtOrUnder path.bytes q → R q)
include hR

theorem Runtime.storeHas_confined :
    Confined R (Runtime.storeHas path) ∧ ReadOnly (Runtime.storeHas path) :=
  Confined.ofRead (fun s => .ok (s.valueType path.bytes)) (fun _ => rfl)
    fun _ _ h => by simp only [Store.valueType_congr (h.mono hR)]

theorem Runtime.storeValueSize_confined :
    Confined R (Runtime.storeValueSize path) ∧ ReadOnly (Runtime.storeValueSize path) := by
  refine Confined.ofRead (fun s => match s.value path.bytes with
    | some v => .ok v.length
    | none => .error (.ofRuntime .storeNotAValue)) (fun s => ?_) fun s t h => ?_
  · unfold Runtime.storeValueSize
    cases hv : s.value path.bytes <;> simp only [hv]
  · simp only [h path.bytes (hR _ (isAtOrUnder_refl _))]

theorem Runtime.storeRead_confined (fromOffset maxBytes : Nat) :
    Confined R (Runtime.storeRead path fromOffset maxBytes) ∧
      ReadOnly (Runtime.storeRead path fromOffset maxBytes) := by
  refine Confined.ofRead (fun s => match s.value path.bytes with
    | none => .error (.ofRuntime .storeNotAValue)
    | some v =>
        if v.length < fromOffset then .error (.ofRuntime .storeInvalidAccess)
        else .ok ((v.drop fromOffset).take (min maxBytes MAX_FILE_CHUNK_SIZE)))
    (fun s => ?_) fun s t h => ?_
  · unfold Runtime.storeRead
    cases hv : s.value path.bytes <;> simp only [hv]
    split_ifs <;> rfl
  · simp only [h path.bytes (hR _ (isAtOrUnder_refl _))]

theorem Runtime.storeReadSlice_confined (fromOffset : Nat) (buffer : Bytes) :
    Confined R (Runtime.storeReadSlice path fromOffset buffer) ∧
      ReadOnly (Runtime.storeReadSlice path fromOffset buffer) := by
  refine Confined.ofRead (fun s => match (Runtime.storeReadSlice path fromOffset buffer s) with
    | .ok r _ => .ok r
    | .error e _ => .error e) (fun s => ?_) fun s t h => ?_
  · unfold Runtime.storeReadSlice
    cases hv : s.value path.bytes <;> simp only [hv]
    split_ifs <;> rfl
  · unfold Runtime.storeReadSlice
    simp only [h path.bytes (hR _ (isAtOrUnder_refl _))]
    cases t.value path.bytes
    · rfl
    · dsimp only
      split_ifs <;> rfl

theorem Runtime.storeCountSubkeys_confined :
    Confined R (Runtime.storeCountSubkeys path) ∧
      ReadOnly (Runtime.storeCountSubkeys path) :=
  Confined.ofRead (fun s => .ok (s.subkeys path.bytes).card) (fun _ => rfl)
    fun _ _ h => by simp only [Store.subkeys_congr (h.mono hR)]

theorem Runtime.storeWrite_confined (src : Bytes) (atOffset : Nat) :
    Confined R (Runtime.storeWrite path src atOffset) := by
  have hp : R path.bytes := hR _ (isAtOrUnder_refl _)
  refine ⟨(Runtime.storeWrite_changesOnly path src atOffset).mono fun q hq => hq ▸ hp, ?_⟩
  · intro s t h
    unfold Runtime.storeWrite
    dsimp only
    rw [h path.bytes hp]
    split_ifs
    · exact ⟨rfl, h⟩
    · exact ⟨rfl, h⟩
    · refine ⟨rfl, fun q hq => ?_⟩
      by_cases hqp : q = path.bytes <;> simp [EStateM.Result.state, hqp, h q hq]

theorem Runtime.storeDelete_confined : Confined R (Runtime.storeDelete path) := by
  have hvt : ∀ s t : Store, s.AgreeOn R t → s.valueType path.bytes = t.valueType path.bytes :=
    fun s t h => Store.valueType_congr (h.mono hR)
  constructor
  · intro s q hq
    have hout : ¬IsAtOrUnder path.bytes q := fun h => hq (hR q h)
    unfold Runtime.storeDelete
    split_ifs <;> simp [EStateM.Result.state, hout]
  · intro s t h
    unfold Runtime.storeDelete
    rw [hvt s t h]
    split_ifs
    · exact ⟨rfl, h⟩
    · refine ⟨rfl, fun q hq => ?_⟩
      by_cases hq' : IsAtOrUnder path.bytes q <;> simp [EStateM.Result.state, hq', h q hq]

end HostCalls

/-! ## Runs -/

/-- A run of store computations: every result, and the store at the end.  A
failed call does not stop the run; the next one starts from the store the
failure left. -/
def runAll {α β : Type} (exec : α → EStateM Error Store β) : List α → Store → List (Except Error β) × Store
  | [], s => ([], s)
  | a :: as, s => ((exec a s).toExcept :: (runAll exec as (exec a s).state).1,
      (runAll exec as (exec a s).state).2)

theorem runAll_map {α γ β : Type} (exec : α → EStateM Error Store β) (g : γ → α) (l : List γ)
    (s : Store) : runAll exec (l.map g) s = runAll (fun c => exec (g c)) l s := by
  induction l generalizing s with
  | nil => rfl
  | cons c l ih => simp only [List.map_cons, runAll, ih]

end KernelEvmStorage
