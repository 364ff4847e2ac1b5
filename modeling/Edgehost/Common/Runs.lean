import Mathlib.Data.List.Basic

/-!
# Runs of a deterministic transition function

A system is a step function `step : σ → ι → σ`; every choice the environment makes is part of the
input `ι`, so a statement about all input lists covers every interleaving.

* `runFrom` is the state after a list of inputs.
* `Always P` says that `P` holds in every state a run passes through, the first included.
* `EachStep ok` says that every step of a run is taken from a state and an input that satisfy `ok`.
* `EachStep.always` is the invariant rule, and `always_iff_eachStep` the form for a property that a
  step keeps exactly when a side condition holds.
* `runFrom_filterMap` is the rule for two systems, of which one follows the other.
-/

variable {σ ι : Type*}

/-- The state after the inputs `is`, taken in order. -/
def runFrom (step : σ → ι → σ) (s : σ) (is : List ι) : σ := is.foldl step s

/-- `P` holds in every state of the run. -/
def Always (step : σ → ι → σ) (P : σ → Prop) : σ → List ι → Prop
  | s, [] => P s
  | s, i :: is => P s ∧ Always step P (step s i) is

/-- Every step of the run satisfies `ok` where it is taken. -/
def EachStep (step : σ → ι → σ) (ok : σ → ι → Prop) : σ → List ι → Prop
  | _, [] => True
  | s, i :: is => ok s i ∧ EachStep step ok (step s i) is

instance decidableEachStep (step : σ → ι → σ) (ok : σ → ι → Prop) [∀ s i, Decidable (ok s i)] :
    ∀ (s : σ) (is : List ι), Decidable (EachStep step ok s is)
  | _, [] => inferInstanceAs (Decidable True)
  | s, i :: is =>
    have := decidableEachStep step ok (step s i) is
    inferInstanceAs (Decidable (_ ∧ _))

variable {step : σ → ι → σ} {P Inv : σ → Prop} {ok : σ → ι → Prop}

@[simp] theorem runFrom_nil (s : σ) : runFrom step s [] = s := rfl

@[simp] theorem runFrom_cons (s : σ) (i : ι) (is : List ι) :
    runFrom step s (i :: is) = runFrom step (step s i) is := rfl

theorem runFrom_append (s : σ) (is js : List ι) :
    runFrom step s (is ++ js) = runFrom step (runFrom step s is) js :=
  List.foldl_append

theorem Always.start {s : σ} {is : List ι} (h : Always step P s is) : P s := by
  cases is with
  | nil => exact h
  | cons i is => exact h.1

theorem Always.last {s : σ} {is : List ι} (h : Always step P s is) : P (runFrom step s is) := by
  induction is generalizing s with
  | nil => exact h
  | cons i is ih => exact ih h.2

theorem Always.mono {Q : σ → Prop} (himp : ∀ s, P s → Q s) {s : σ} {is : List ι}
    (h : Always step P s is) : Always step Q s is := by
  induction is generalizing s with
  | nil => exact himp s h
  | cons i is ih => exact ⟨himp s h.1, ih h.2⟩

/-- A run whose every prefix ends in a `P`-state is an `Always P` run. -/
theorem always_iff_prefixes {s : σ} {is : List ι} :
    Always step P s is ↔ ∀ js, js <+: is → P (runFrom step s js) := by
  induction is generalizing s with
  | nil => simp [Always]
  | cons i is ih =>
    rw [Always, ih]
    constructor
    · rintro ⟨hs, h⟩ js hjs
      cases js with
      | nil => exact hs
      | cons j js =>
        obtain ⟨rfl, htail⟩ := List.cons_prefix_cons.mp hjs
        exact h js htail
    · intro h
      refine ⟨h [] (List.nil_prefix), fun js hjs => ?_⟩
      exact h (i :: js) (List.cons_prefix_cons.mpr ⟨rfl, hjs⟩)

theorem EachStep.mono {ok' : σ → ι → Prop} (himp : ∀ s i, ok s i → ok' s i) {s : σ} {is : List ι}
    (h : EachStep step ok s is) : EachStep step ok' s is := by
  induction is generalizing s with
  | nil => trivial
  | cons i is ih => exact ⟨himp s i h.1, ih h.2⟩

/-- A step of the run, from the state in which it is taken. -/
theorem EachStep.step_at {i : ι} {s : σ} {is js : List ι} (h : EachStep step ok s (is ++ i :: js)) :
    ok (runFrom step s is) i := by
  induction is generalizing s with
  | nil => exact h.1
  | cons j is ih => exact ih h.2

/-- **The invariant rule.** A property that holds at the start and that every permitted step keeps
holds in every state of a run of permitted steps. -/
theorem EachStep.always (hstep : ∀ s i, P s → ok s i → P (step s i)) {s : σ} {is : List ι}
    (hs : P s) (h : EachStep step ok s is) : Always step P s is := by
  induction is generalizing s with
  | nil => exact hs
  | cons i is ih => exact ⟨hs, ih (hstep s i hs h.1) h.2⟩

/-- Every step of a run of permitted steps is taken from a state with the invariant. -/
theorem EachStep.with_inv (hstep : ∀ s i, P s → ok s i → P (step s i)) {s : σ} {is : List ι}
    (hs : P s) (h : EachStep step ok s is) : EachStep step (fun s i => P s ∧ ok s i) s is := by
  induction is generalizing s with
  | nil => trivial
  | cons i is ih => exact ⟨⟨hs, h.1⟩, ih (hstep s i hs h.1) h.2⟩

/-- The invariant rule for a property that every step keeps. -/
theorem always_of_step (hstep : ∀ s i, P s → P (step s i)) {s : σ} (hs : P s) (is : List ι) :
    Always step P s is := by
  induction is generalizing s with
  | nil => exact hs
  | cons i is ih => exact ⟨hs, ih (hstep s i hs)⟩

theorem runFrom_of_step (hstep : ∀ s i, P s → P (step s i)) {s : σ} (hs : P s) (is : List ι) :
    P (runFrom step s is) :=
  (always_of_step hstep hs is).last

/-- **The exact form of the invariant rule.** Where a step keeps `P` exactly when `ok` holds of it,
`P` holds all along a run exactly when every step of the run satisfies `ok`. -/
theorem always_iff_eachStep (hinv : ∀ s i, Inv s → Inv (step s i))
    (hiff : ∀ s i, Inv s → P s → (P (step s i) ↔ ok s i)) {s : σ} (hs : Inv s) (hP : P s)
    (is : List ι) : Always step P s is ↔ EachStep step ok s is := by
  induction is generalizing s with
  | nil => exact ⟨fun _ => trivial, fun _ => hP⟩
  | cons i is ih =>
    constructor
    · rintro ⟨-, h⟩
      have hnext := h.start
      exact ⟨(hiff s i hs hP).mp hnext, (ih (hinv s i hs) hnext).mp h⟩
    · rintro ⟨hok, h⟩
      have hnext := (hiff s i hs hP).mpr hok
      exact ⟨hP, (ih (hinv s i hs) hnext).mpr h⟩

/-- **The simulation rule.** `step'` follows `step` along a relation, where an input to it is one to
`step` or none; then so do the runs. -/
theorem runFrom_filterMap {τ κ : Type*} {step' : τ → κ → τ} {f : κ → Option ι} {R : σ → τ → Prop}
    (hstep : ∀ s t k, R s t → R ((f k).elim s (step s)) (step' t k)) {s : σ} {t : τ} (h : R s t)
    (ks : List κ) : R (runFrom step s (ks.filterMap f)) (runFrom step' t ks) := by
  induction ks generalizing s t with
  | nil => exact h
  | cons k ks ih =>
    have hnext := hstep s t k h
    rw [runFrom_cons, List.filterMap_cons]
    cases hk : f k with
    | none =>
      rw [hk] at hnext
      exact ih hnext
    | some i =>
      rw [hk] at hnext
      exact ih hnext
