import Mathlib.Data.Finset.Card
import KernelEvmStorage.Path

/-!
# The durable store

The storage module runs against the host's durable store through the
`Runtime` trait: byte-range reads and writes at an offset, an existence check,
the size of a value, the number of subkeys, and a subtree delete.  The store is
not part of src/, so it is modelled from the spec's contract (section 6 of the
spec): a finite map from paths to values, whose tree shape is derived from the
paths that hold a value.

Each store call is an `EStateM` computation over the store.  A failing call
keeps the state it failed in, as a Rust call through `&mut Host` does: writes
made before a later `?` fails stay in the store.
-/

namespace EStateM.Result

/-- The state a computation ends in, whether it failed or not. -/
def state {ε σ α : Type} : EStateM.Result ε σ α → σ
  | .ok _ s => s
  | .error _ s => s

/-- What a computation returns: Rust's `Result`. -/
def toExcept {ε σ α : Type} : EStateM.Result ε σ α → Except ε α
  | .ok a _ => .ok a
  | .error e _ => .error e

theorem eq_ok_of_toExcept {ε σ α : Type} {x : EStateM.Result ε σ α} {a : α}
    (h : x.toExcept = .ok a) : x = .ok a x.state := by
  cases x with
  | ok b t => cases h; rfl
  | error e t => cases h

end EStateM.Result

namespace KernelEvmStorage

/-- Modelled from the spec: the store's cap on the bytes one read or one write
moves, `MAX_FILE_CHUNK_SIZE` of the host's core crate. -/
def MAX_FILE_CHUNK_SIZE : Nat := 2048

/-- Modelled from the spec: the durable store.  A path holds a value or not;
a path has a subtree when some path under it holds a value. -/
structure Store where
  value : Bytes → Option Bytes
  keys : Finset Bytes
  mem_keys : ∀ p, p ∈ keys ↔ value p ≠ none

/-- Modelled from the spec: what `store_has` reports about a path. -/
inductive ValueType
  | value
  | subtree
  | valueWithSubtree
deriving DecidableEq, Repr

/-- Modelled from the spec: the errors of the host's store calls. -/
inductive RuntimeError
  | pathNotFound
  | storeNotAValue
  | storeInvalidAccess
  | inputOutputTooLarge
deriving DecidableEq, Repr

/-- Modelled from the spec: the storage errors of the kernel's error module. -/
inductive StorageError
  | path (e : PathError)
  | runtime (e : RuntimeError)
  | invalidLoadValue (expected actual : Nat)
deriving DecidableEq, Repr

/-- Modelled from the spec: the kernel's `Error`; the storage module raises
only its storage errors. -/
inductive Error
  | storage (e : StorageError)
deriving DecidableEq, Repr

/-- `Error::from` on a path error. -/
def Error.ofPath (e : PathError) : Error := .storage (.path e)

/-- `Error::from` on a runtime error. -/
def Error.ofRuntime (e : RuntimeError) : Error := .storage (.runtime e)

namespace Store

@[ext] theorem ext {s t : Store} (h : ∀ p, s.value p = t.value p) : s = t := by
  obtain ⟨v, k, hk⟩ := s
  obtain ⟨w, l, hl⟩ := t
  have hvw : v = w := funext h
  subst hvw
  have hkl : k = l := Finset.ext fun p => (hk p).trans (hl p).symm
  subst hkl
  rfl

/-- The store with no value anywhere. -/
def empty : Store where
  value := fun _ => none
  keys := ∅
  mem_keys := by simp

/-- The store with `v` at `p`. -/
def set (s : Store) (p v : Bytes) : Store where
  value := fun q => if q = p then some v else s.value q
  keys := insert p s.keys
  mem_keys := fun q => by
    by_cases h : q = p <;> simp [h, s.mem_keys]

/-- The store without the subtree at `p`, `p` included. -/
def deleteAtOrUnder (s : Store) (p : Bytes) : Store where
  value := fun q => if IsAtOrUnder p q then none else s.value q
  keys := s.keys.filter fun q => ¬IsAtOrUnder p q
  mem_keys := fun q => by
    by_cases h : IsAtOrUnder p q <;> simp [h, s.mem_keys]

@[simp] theorem empty_value (q : Bytes) : empty.value q = none := rfl

@[simp] theorem set_value (s : Store) (p v q : Bytes) :
    (s.set p v).value q = if q = p then some v else s.value q := rfl

@[simp] theorem deleteAtOrUnder_value (s : Store) (p q : Bytes) :
    (s.deleteAtOrUnder p).value q = if IsAtOrUnder p q then none else s.value q := rfl

/-- Some path strictly under `p` holds a value. -/
def HasSubtree (s : Store) (p : Bytes) : Prop := ∃ q ∈ s.keys, IsStrictlyUnder p q

instance (s : Store) (p : Bytes) : Decidable (s.HasSubtree p) :=
  inferInstanceAs (Decidable (∃ q ∈ s.keys, _))

/-- What `store_has` reports about `p`. -/
def valueType (s : Store) (p : Bytes) : Option ValueType :=
  match s.value p, decide (s.HasSubtree p) with
  | some _, true => some .valueWithSubtree
  | some _, false => some .value
  | none, true => some .subtree
  | none, false => none

/-- The steps that lead from `p` to the paths under it that hold a value:
`p`'s subkeys. -/
def subkeys (s : Store) (p : Bytes) : Finset Bytes :=
  (s.keys.filter (IsStrictlyUnder p)).image (childStep p)

theorem mem_keys_iff {s : Store} {q : Bytes} : q ∈ s.keys ↔ s.value q ≠ none := s.mem_keys q

/-- A value set strictly under `P` adds its step to `P`'s subkeys. -/
theorem subkeys_set (s : Store) (p v P : Bytes) :
    (s.set p v).subkeys P = if IsStrictlyUnder P p then insert (childStep P p) (s.subkeys P) else s.subkeys P := by
  unfold subkeys set
  split_ifs with h <;> simp [Finset.filter_insert, h]

theorem valueType_eq_none {s : Store} {p : Bytes} :
    s.valueType p = none ↔ s.value p = none ∧ ¬s.HasSubtree p := by
  unfold valueType
  split <;> simp_all

/-- A path with a value is reported. -/
theorem valueType_of_value {s : Store} {p v : Bytes} (h : s.value p = some v) :
    s.valueType p = some .value ∨ s.valueType p = some .valueWithSubtree := by
  unfold valueType
  split <;> simp_all

/-- A path with a value and nothing under it is reported as a value. -/
theorem valueType_of_value_of_not_hasSubtree {s : Store} {p v : Bytes}
    (h : s.value p = some v) (hsub : ¬s.HasSubtree p) : s.valueType p = some .value := by
  unfold valueType
  split <;> simp_all

end Store

/-! ## Binds of store computations -/

section Bind

variable {ε σ α β : Type} {x : EStateM ε σ α} {f : α → EStateM ε σ β} {s s' : σ}

theorem bind_apply_of_ok {a : α} (h : x s = .ok a s') : (x >>= f) s = f a s' := by
  show EStateM.bind x f s = _
  simp only [EStateM.bind, h]

theorem bind_apply_of_error {e : ε} (h : x s = .error e s') :
    (x >>= f) s = .error e s' := by
  show EStateM.bind x f s = _
  simp only [EStateM.bind, h]

/-- Everything a bind can do: its first step fails, or succeeds and the second
runs from where the first ended. -/
theorem bind_apply_cases (x : EStateM ε σ α) (f : α → EStateM ε σ β) (s : σ) :
    (∃ e s', x s = .error e s' ∧ (x >>= f) s = .error e s') ∨
      ∃ a s', x s = .ok a s' ∧ (x >>= f) s = f a s' := by
  cases h : x s with
  | error e s' => exact .inl ⟨e, s', rfl, bind_apply_of_error h⟩
  | ok a s' => exact .inr ⟨a, s', rfl, bind_apply_of_ok h⟩

theorem eq_ok_of_bind_eq_ok {b : β} (h : (x >>= f) s = .ok b s') :
    ∃ a s₁, x s = .ok a s₁ ∧ f a s₁ = .ok b s' := by
  rcases bind_apply_cases x f s with ⟨e, s₁, -, hb⟩ | ⟨a, s₁, hx, hb⟩
  · rw [hb] at h
    cases h
  · exact ⟨a, s₁, hx, hb ▸ h⟩

@[simp] theorem pure_apply (a : α) : (pure a : EStateM ε σ α) s = .ok a s := rfl

@[simp] theorem throw_apply (e : ε) : (throw e : EStateM ε σ α) s = .error e s := rfl

theorem foldlM_apply_of_ok {γ : Type} (l : List γ) (f : List α → γ → EStateM ε σ (List α))
    (g : γ → List α) (s : σ) (hf : ∀ acc, ∀ x ∈ l, f acc x s = .ok (acc ++ g x) s)
    (acc : List α) :
    l.foldlM f acc s = .ok (acc ++ (l.map g).flatten) s := by
  induction l generalizing acc with
  | nil => simp [List.foldlM]
  | cons x l ih =>
      show (f acc x >>= fun acc' => l.foldlM f acc') s = _
      rw [bind_apply_of_ok (hf acc x (List.mem_cons_self _ _)),
        ih fun acc y hy => hf acc y (List.mem_cons_of_mem _ hy)]
      simp

end Bind

/-! ## The host's store calls -/

namespace Runtime

/-- Modelled from the spec: `store_has`. -/
def storeHas (path : OwnedPath) : EStateM Error Store (Option ValueType) := fun s =>
  .ok (s.valueType path.bytes) s

/-- Modelled from the spec: `store_value_size`, failing where there is no
value. -/
def storeValueSize (path : OwnedPath) : EStateM Error Store Nat := fun s =>
  match s.value path.bytes with
  | some v => .ok v.length s
  | none => .error (.ofRuntime .storeNotAValue) s

/-- Modelled from the spec: `store_read`, at most `maxBytes` bytes, and at
most the store's cap, from `fromOffset` on. -/
def storeRead (path : OwnedPath) (fromOffset maxBytes : Nat) :
    EStateM Error Store Bytes := fun s =>
  match s.value path.bytes with
  | none => .error (.ofRuntime .storeNotAValue) s
  | some v =>
      if v.length < fromOffset then .error (.ofRuntime .storeInvalidAccess) s
      else .ok ((v.drop fromOffset).take (min maxBytes MAX_FILE_CHUNK_SIZE)) s

/-- Modelled from the spec: `store_read_slice`, a read into `buffer`; it
returns how many bytes were read and the buffer with them in front. -/
def storeReadSlice (path : OwnedPath) (fromOffset : Nat) (buffer : Bytes) :
    EStateM Error Store (Nat × Bytes) := fun s =>
  match s.value path.bytes with
  | none => .error (.ofRuntime .storeNotAValue) s
  | some v =>
      if v.length < fromOffset then .error (.ofRuntime .storeInvalidAccess) s
      else
        let read := (v.drop fromOffset).take (min buffer.length MAX_FILE_CHUNK_SIZE)
        .ok (read.length, read ++ buffer.drop read.length) s

/-- Modelled from the spec: `store_write`, writing `src` over the bytes from
`atOffset` on and extending the value where it runs past its end.  It fails
on more bytes than the store's cap, and on an offset past the value's end. -/
def storeWrite (path : OwnedPath) (src : Bytes) (atOffset : Nat) :
    EStateM Error Store Unit := fun s =>
  let old := (s.value path.bytes).getD []
  if MAX_FILE_CHUNK_SIZE < src.length then .error (.ofRuntime .inputOutputTooLarge) s
  else if old.length < atOffset then .error (.ofRuntime .storeInvalidAccess) s
  else .ok () (s.set path.bytes (old.take atOffset ++ src ++ old.drop (atOffset + src.length)))

/-- Modelled from the spec: `store_delete`, removing the value and the subtree
at a path, failing where there is nothing. -/
def storeDelete (path : OwnedPath) : EStateM Error Store Unit := fun s =>
  if s.valueType path.bytes = none then .error (.ofRuntime .pathNotFound) s
  else .ok () (s.deleteAtOrUnder path.bytes)

/-- Modelled from the spec: `store_count_subkeys`, the number of distinct
steps below a path. -/
def storeCountSubkeys (path : OwnedPath) : EStateM Error Store Nat := fun s =>
  .ok (s.subkeys path.bytes).card s

end Runtime

@[simp] theorem Store.set_set (s : Store) (p v w : Bytes) : (s.set p v).set p w = s.set p w := by
  ext q
  by_cases h : q = p <;> simp [h]

namespace Runtime

theorem storeWrite_apply_of_le {path : OwnedPath} {src : Bytes} {atOffset : Nat} {s : Store}
    (hsrc : src.length ≤ MAX_FILE_CHUNK_SIZE)
    (hoff : atOffset ≤ ((s.value path.bytes).getD []).length) :
    storeWrite path src atOffset s =
      .ok () (s.set path.bytes (((s.value path.bytes).getD []).take atOffset ++ src ++
        ((s.value path.bytes).getD []).drop (atOffset + src.length))) := by
  unfold storeWrite
  dsimp only
  rw [if_neg (by omega), if_neg (by omega)]

theorem storeWrite_apply_of_lt {path : OwnedPath} {src : Bytes} {atOffset : Nat} {s : Store}
    (hsrc : MAX_FILE_CHUNK_SIZE < src.length) :
    storeWrite path src atOffset s = .error (.ofRuntime .inputOutputTooLarge) s := by
  unfold storeWrite
  dsimp only
  rw [if_pos hsrc]

/-- A write at offset 0 where there is no value makes the value. -/
theorem storeWrite_apply_of_none {path : OwnedPath} {src : Bytes} {s : Store}
    (hsrc : src.length ≤ MAX_FILE_CHUNK_SIZE) (hnone : s.value path.bytes = none) :
    storeWrite path src 0 s = .ok () (s.set path.bytes src) := by
  rw [storeWrite_apply_of_le hsrc (by omega), hnone]
  simp

theorem storeWrite_zero {path : OwnedPath} {src : Bytes} {s : Store}
    (hsrc : src.length ≤ MAX_FILE_CHUNK_SIZE) :
    storeWrite path src 0 s =
      .ok () (s.set path.bytes (src ++ ((s.value path.bytes).getD []).drop src.length)) := by
  rw [storeWrite_apply_of_le hsrc (Nat.zero_le _)]
  simp

theorem storeRead_apply_of_some {path : OwnedPath} {fromOffset maxBytes : Nat} {s : Store}
    {v : Bytes} (hv : s.value path.bytes = some v) (hoff : fromOffset ≤ v.length) :
    storeRead path fromOffset maxBytes s =
      .ok ((v.drop fromOffset).take (min maxBytes MAX_FILE_CHUNK_SIZE)) s := by
  unfold storeRead
  rw [hv]
  exact if_neg (by omega)

theorem storeReadSlice_apply_of_some {path : OwnedPath} {fromOffset : Nat}
    {buffer : Bytes} {s : Store} {v : Bytes} (hv : s.value path.bytes = some v)
    (hoff : fromOffset ≤ v.length) :
    storeReadSlice path fromOffset buffer s =
      let read := (v.drop fromOffset).take (min buffer.length MAX_FILE_CHUNK_SIZE)
      .ok (read.length, read ++ buffer.drop read.length) s := by
  unfold storeReadSlice
  rw [hv]
  exact if_neg (by omega)

theorem storeReadSlice_apply_of_none {path : OwnedPath} {fromOffset : Nat}
    {buffer : Bytes} {s : Store} (hv : s.value path.bytes = none) :
    storeReadSlice path fromOffset buffer s = .error (.ofRuntime .storeNotAValue) s := by
  unfold storeReadSlice
  rw [hv]

end Runtime

end KernelEvmStorage
