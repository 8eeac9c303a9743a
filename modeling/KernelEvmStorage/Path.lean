import Mathlib.Data.List.Infix
import KernelEvmStorage.Encoding

/-!
# Store paths

Paths of the durable store are byte strings of `/`-separated steps.  A path is
built from bytes by a check that can fail, and two paths are joined by
`concat`, which checks the result again.  Neither is in the storage module:
both belong to the host's path module, so they are modelled here from the
spec's contract ("construction from malformed byte sequences fails with a path
error").  The rest of the module is the tree shape of paths: when a path lies
under another, and the step that leads from a path to one below it.
-/

namespace KernelEvmStorage

instance instDecidableEqExcept {ε α : Type*} [DecidableEq ε] [DecidableEq α] : DecidableEq (Except ε α)
  | .error a, .error b => decidable_of_iff (a = b) ⟨congrArg _, Except.error.inj⟩
  | .ok a, .ok b => decidable_of_iff (a = b) ⟨congrArg _, Except.ok.inj⟩
  | .error _, .ok _ => isFalse fun h => Except.noConfusion h
  | .ok _, .error _ => isFalse fun h => Except.noConfusion h

/-- Modelled from the spec: the errors of path construction in the host's path
module, which is not in src/. -/
inductive PathError
  | pathEmpty
  | pathTooLong
  | invalidStart
  | invalidEmptyStep
  | invalidByteInStep
deriving DecidableEq, Repr

/-- Modelled from the spec: the longest path the store accepts, the host path
module's `PATH_MAX_SIZE`. -/
def PATH_MAX_SIZE : Nat := 250

/-- The step separator `/`. -/
def PATH_SEPARATOR : UInt8 := 47

/-- Modelled from the spec: the bytes a path step may hold, ASCII letters and
digits, `.`, `_` and `-`. -/
def isAllowedStepByte (b : UInt8) : Bool :=
  (48 ≤ b.toNat && b.toNat ≤ 57) || (65 ≤ b.toNat && b.toNat ≤ 90) ||
    (97 ≤ b.toNat && b.toNat ≤ 122) || b == 46 || b == 95 || b == 45

/-- Modelled from the spec: checks the bytes after the leading separator;
`atStart` holds right after a separator, where a step must begin. -/
def validateSteps : Bool → Bytes → Except PathError Unit
  | atStart, [] => if atStart then .error .invalidEmptyStep else .ok ()
  | atStart, b :: rest =>
      if b = PATH_SEPARATOR then
        if atStart then .error .invalidEmptyStep else validateSteps true rest
      else if isAllowedStepByte b then validateSteps false rest
      else .error .invalidByteInStep

/-- Modelled from the spec: the host's check of a path's bytes. -/
def validatePath (path : Bytes) : Except PathError Unit :=
  match path with
  | [] => .error .pathEmpty
  | b :: rest =>
      if PATH_MAX_SIZE < path.length then .error .pathTooLong
      else if b = PATH_SEPARATOR then validateSteps true rest
      else .error .invalidStart

/-- A path of the store, the host's `OwnedPath` and `RefPath`: bytes that
passed the host's check. -/
structure OwnedPath where
  bytes : Bytes
  valid : validatePath bytes = .ok ()

theorem OwnedPath.bytes_injective : Function.Injective OwnedPath.bytes := by
  rintro ⟨a, ha⟩ ⟨b, hb⟩ (rfl : a = b)
  rfl

instance : DecidableEq OwnedPath := fun p q =>
  decidable_of_iff (p.bytes = q.bytes) OwnedPath.bytes_injective.eq_iff

/-- Modelled from the spec: `OwnedPath::try_from` on bytes. -/
def OwnedPath.tryFrom (bytes : Bytes) : Except PathError OwnedPath :=
  match h : validatePath bytes with
  | .ok () => .ok ⟨bytes, h⟩
  | .error e => .error e

/-- Modelled from the spec: `concat`, the prefix's bytes followed by the
suffix's, checked again. -/
def concat (pre suffix : OwnedPath) : Except PathError OwnedPath :=
  OwnedPath.tryFrom (pre.bytes ++ suffix.bytes)

theorem OwnedPath.tryFrom_of_valid {bytes : Bytes} (h : validatePath bytes = .ok ()) :
    OwnedPath.tryFrom bytes = .ok ⟨bytes, h⟩ := by
  unfold OwnedPath.tryFrom
  split <;> simp_all

theorem OwnedPath.bytes_of_tryFrom {bytes : Bytes} {p : OwnedPath}
    (h : OwnedPath.tryFrom bytes = .ok p) : p.bytes = bytes := by
  unfold OwnedPath.tryFrom at h
  split at h
  · cases h; rfl
  · cases h

theorem concat_bytes {pre suffix p : OwnedPath} (h : concat pre suffix = .ok p) :
    p.bytes = pre.bytes ++ suffix.bytes :=
  OwnedPath.bytes_of_tryFrom h

/-! ## Valid paths -/

theorem validatePath_eq_ok {path : Bytes} :
    validatePath path = .ok () ↔ path.length ≤ PATH_MAX_SIZE ∧
      ∃ rest, path = PATH_SEPARATOR :: rest ∧ validateSteps true rest = .ok () := by
  cases path with
  | nil => simp [validatePath]
  | cons b rest =>
      simp only [validatePath, List.length_cons]
      split_ifs <;> simp_all

theorem validateSteps_append {atStart : Bool} {a : Bytes} (b : Bytes)
    (ha : validateSteps atStart a = .ok ()) :
    validateSteps atStart (a ++ PATH_SEPARATOR :: b) = validateSteps true b := by
  induction a generalizing atStart with
  | nil =>
      cases atStart <;> simp_all [validateSteps]
  | cons c rest ih =>
      simp only [List.cons_append, validateSteps] at ha ⊢
      by_cases hc : c = PATH_SEPARATOR
      · cases atStart <;> simp_all
      · by_cases hallowed : isAllowedStepByte c = true <;> simp_all

theorem OwnedPath.bytes_eq_cons (p : OwnedPath) :
    ∃ rest, p.bytes = PATH_SEPARATOR :: rest ∧ validateSteps true rest = .ok () :=
  (validatePath_eq_ok.mp p.valid).2

theorem OwnedPath.length_le (p : OwnedPath) : p.bytes.length ≤ PATH_MAX_SIZE :=
  (validatePath_eq_ok.mp p.valid).1

theorem validatePath_append {a b : OwnedPath}
    (hlen : (a.bytes ++ b.bytes).length ≤ PATH_MAX_SIZE) :
    validatePath (a.bytes ++ b.bytes) = .ok () := by
  obtain ⟨ra, ha, hva⟩ := a.bytes_eq_cons
  obtain ⟨rb, hb, hvb⟩ := b.bytes_eq_cons
  refine validatePath_eq_ok.mpr ⟨hlen, ra ++ PATH_SEPARATOR :: rb, by simp [ha, hb], ?_⟩
  rw [validateSteps_append rb hva, hvb]

theorem concat_of_length_le {a b : OwnedPath}
    (hlen : (a.bytes ++ b.bytes).length ≤ PATH_MAX_SIZE) :
    concat a b = .ok ⟨a.bytes ++ b.bytes, validatePath_append hlen⟩ :=
  OwnedPath.tryFrom_of_valid _

/-- A one-step path `/step` is valid when the step is nonempty, made of allowed
bytes, and short enough. -/
theorem validatePath_step {step : Bytes} (hne : step ≠ [])
    (hbytes : ∀ b ∈ step, isAllowedStepByte b = true)
    (hlen : step.length < PATH_MAX_SIZE) :
    validatePath (PATH_SEPARATOR :: step) = .ok () := by
  have hsteps : ∀ atStart, validateSteps atStart step = .ok () := by
    induction step with
    | nil => exact absurd rfl hne
    | cons c rest ih =>
        intro atStart
        have hc := hbytes c (List.mem_cons_self _ _)
        have hsep : c ≠ PATH_SEPARATOR := by
          rintro rfl
          exact absurd hc (by decide)
        simp only [validateSteps, if_neg hsep, hc, if_true]
        cases rest with
        | nil => rfl
        | cons d more =>
            exact ih (List.cons_ne_nil _ _)
              (fun b hb => hbytes b (List.mem_cons_of_mem _ hb))
              (by simp only [List.length_cons] at hlen ⊢; omega) false
  exact validatePath_eq_ok.mpr ⟨by simp; omega, step, rfl, hsteps true⟩

theorem isAllowedStepByte_of_digit {b : UInt8} (h : 48 ≤ b.toNat ∧ b.toNat ≤ 57) :
    isAllowedStepByte b = true := by
  simp [isAllowedStepByte, h.1, h.2]

theorem isAllowedStepByte_of_hexDigit {b : UInt8}
    (h : (48 ≤ b.toNat ∧ b.toNat ≤ 57) ∨ (97 ≤ b.toNat ∧ b.toNat ≤ 102)) :
    isAllowedStepByte b = true := by
  rcases h with h | h
  · exact isAllowedStepByte_of_digit h
  · have : b.toNat ≤ 122 := by omega
    simp [isAllowedStepByte, h.1, this]

/-! ## The tree of paths -/

/-- `q` lies strictly under `p`: it is `p`, a separator, and more. -/
def IsStrictlyUnder (p q : Bytes) : Prop := p ++ [PATH_SEPARATOR] <+: q

/-- `q` is `p` or lies under it: the subtree the store deletes at `p`. -/
def IsAtOrUnder (p q : Bytes) : Prop := q = p ∨ IsStrictlyUnder p q

instance (p q : Bytes) : Decidable (IsStrictlyUnder p q) :=
  inferInstanceAs (Decidable (_ <+: _))

instance (p q : Bytes) : Decidable (IsAtOrUnder p q) :=
  inferInstanceAs (Decidable (_ ∨ _))

/-- The step that leads from `p` to a path `q` under it. -/
def childStep (p q : Bytes) : Bytes :=
  (q.drop (p.length + 1)).takeWhile (· != PATH_SEPARATOR)

theorem isStrictlyUnder_iff {p q : Bytes} :
    IsStrictlyUnder p q ↔ ∃ rest, q = p ++ PATH_SEPARATOR :: rest := by
  simp only [IsStrictlyUnder, List.IsPrefix, List.append_assoc, List.singleton_append]
  exact ⟨fun ⟨t, ht⟩ => ⟨t, ht.symm⟩, fun ⟨t, ht⟩ => ⟨t, ht.symm⟩⟩

theorem isStrictlyUnder_append (p rest : Bytes) :
    IsStrictlyUnder p (p ++ PATH_SEPARATOR :: rest) :=
  isStrictlyUnder_iff.mpr ⟨rest, rfl⟩

theorem IsStrictlyUnder.isAtOrUnder {p q : Bytes} (h : IsStrictlyUnder p q) : IsAtOrUnder p q :=
  Or.inr h

theorem isAtOrUnder_refl (p : Bytes) : IsAtOrUnder p p := Or.inl rfl

theorem IsAtOrUnder.trans {p q r : Bytes} (hpq : IsAtOrUnder p q) (hqr : IsAtOrUnder q r) :
    IsAtOrUnder p r := by
  rcases hpq with rfl | hpq
  · exact hqr
  · rcases hqr with rfl | hqr
    · exact Or.inr hpq
    · obtain ⟨a, rfl⟩ := isStrictlyUnder_iff.mp hpq
      obtain ⟨b, rfl⟩ := isStrictlyUnder_iff.mp hqr
      exact Or.inr (isStrictlyUnder_iff.mpr ⟨a ++ PATH_SEPARATOR :: b, by simp⟩)

theorem IsAtOrUnder.trans_strict {p q r : Bytes} (hpq : IsAtOrUnder p q)
    (hqr : IsStrictlyUnder q r) : IsStrictlyUnder p r := by
  rcases hpq with rfl | hpq
  · exact hqr
  · obtain ⟨a, rfl⟩ := isStrictlyUnder_iff.mp hpq
    obtain ⟨b, rfl⟩ := isStrictlyUnder_iff.mp hqr
    exact isStrictlyUnder_iff.mpr ⟨a ++ PATH_SEPARATOR :: b, by simp⟩

theorem IsStrictlyUnder.length_lt {p q : Bytes} (h : IsStrictlyUnder p q) :
    p.length < q.length := by
  obtain ⟨rest, rfl⟩ := isStrictlyUnder_iff.mp h
  simp

/-- The step from `p` to `p/step` is `step`, when `step` holds no separator. -/
theorem childStep_append {p step : Bytes} (hstep : PATH_SEPARATOR ∉ step) :
    childStep p (p ++ PATH_SEPARATOR :: step) = step := by
  have hdrop : (p ++ PATH_SEPARATOR :: step).drop (p.length + 1) = step := by
    simp [List.drop_append_eq_append_drop]
  rw [childStep, hdrop, List.takeWhile_eq_self_iff]
  intro x hx
  simpa using fun heq : x = PATH_SEPARATOR => hstep (heq ▸ hx)

theorem IsAtOrUnder.isPrefix {p q : Bytes} (h : IsAtOrUnder p q) : p <+: q := by
  rcases h with rfl | h
  · exact List.prefix_refl _
  · exact (List.prefix_append _ _).trans h

/-- Two paths of one length are both over a path only when they are equal. -/
theorem eq_of_isAtOrUnder_of_length_eq {p p' q : Bytes} (h : IsAtOrUnder p q)
    (h' : IsAtOrUnder p' q) (hlen : p.length = p'.length) : p = p' :=
  (List.prefix_of_prefix_length_le h.isPrefix h'.isPrefix hlen.le).eq_of_length hlen

/-- `p/a` is over `p/b` only when the steps are equal. -/
theorem isAtOrUnder_append_step_iff {p a b : Bytes} (hb : PATH_SEPARATOR ∉ b) :
    IsAtOrUnder (p ++ PATH_SEPARATOR :: a) (p ++ PATH_SEPARATOR :: b) ↔ a = b := by
  constructor
  · rintro (h | h)
    · simpa using h.symm
    · obtain ⟨rest, hrest⟩ := isStrictlyUnder_iff.mp h
      have : b = a ++ PATH_SEPARATOR :: rest := by simpa using hrest
      exact absurd (this ▸ List.mem_append_right a (List.mem_cons_self _ _)) hb
  · rintro rfl
    exact isAtOrUnder_refl _

theorem not_isStrictlyUnder_step {p a b : Bytes} (hb : PATH_SEPARATOR ∉ b) :
    ¬IsStrictlyUnder (p ++ PATH_SEPARATOR :: a) (p ++ PATH_SEPARATOR :: b) := fun h =>
  absurd h.length_lt (by rw [(isAtOrUnder_append_step_iff hb).mp h.isAtOrUnder]; exact lt_irrefl _)

theorem isStrictlyUnder_append_path (pre suffix : OwnedPath) :
    IsStrictlyUnder pre.bytes (pre.bytes ++ suffix.bytes) := by
  obtain ⟨rest, hrest, -⟩ := suffix.bytes_eq_cons
  rw [hrest]
  exact isStrictlyUnder_append _ _

/-- The step from `p` to a path below `p/step`. -/
theorem childStep_append_sep {p step more : Bytes} (hstep : PATH_SEPARATOR ∉ step) :
    childStep p (p ++ PATH_SEPARATOR :: (step ++ PATH_SEPARATOR :: more)) = step := by
  have hdrop : (p ++ PATH_SEPARATOR :: (step ++ PATH_SEPARATOR :: more)).drop (p.length + 1) =
      step ++ PATH_SEPARATOR :: more := by
    simp [List.drop_append_eq_append_drop]
  rw [childStep, hdrop, List.takeWhile_append_of_pos]
  · simp
  · intro x hx
    simpa using fun heq : x = PATH_SEPARATOR => hstep (heq ▸ hx)

/-- Two paths over a third are one over the other. -/
theorem IsAtOrUnder.total {p q r : Bytes} (hp : IsAtOrUnder p r) (hq : IsAtOrUnder q r) :
    IsAtOrUnder p q ∨ IsAtOrUnder q p := by
  rcases hp with rfl | hp
  · exact .inr hq
  rcases hq with rfl | hq
  · exact .inl (Or.inr hp)
  rcases lt_trichotomy p.length q.length with hlt | heq | hgt
  · exact .inl (.inr (List.prefix_of_prefix_length_le hp ((List.prefix_append _ _).trans hq)
      (by simp; omega)))
  · exact .inl (.inl (eq_of_isAtOrUnder_of_length_eq (.inr hq) (.inr hp) heq.symm))
  · exact .inr (.inr (List.prefix_of_prefix_length_le hq ((List.prefix_append _ _).trans hp)
      (by simp; omega)))

end KernelEvmStorage
