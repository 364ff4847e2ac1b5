import Mathlib.Data.List.Basic

/-!
# Client programs against an interface

A `Client Q R ρ` is arbitrary code that may put questions of type `Q` to an interface, continue on
the answers of type `R`, and finally return a `ρ`. It is the tree of everything the code might do,
so a statement about all clients is a statement about all code restricted to the interface.
`Client.run` plays a client against an interface with state `σ`.
-/

variable {Q R ρ σ : Type*}

/-- Code that talks to an interface: return, or ask and continue on the answer. -/
inductive Client (Q R ρ : Type*)
  | ret (r : ρ)
  | ask (q : Q) (k : R → Client Q R ρ)

namespace Client

/-- Play the client against `answer`, from interface state `s`. -/
def run (answer : σ → Q → σ × R) : Client Q R ρ → σ → σ × ρ
  | ret r, s => (s, r)
  | ask q k, s => run answer (k (answer s q).2) (answer s q).1

/-- The questions put along that play, each with the interface state it was put in. -/
def asked (answer : σ → Q → σ × R) : Client Q R ρ → σ → List (σ × Q)
  | ret _, _ => []
  | ask q k, s => (s, q) :: asked answer (k (answer s q).2) (answer s q).1

/-- The same code, with what it returns rewritten. -/
def map {ρ' : Type*} (f : ρ → ρ') : Client Q R ρ → Client Q R ρ'
  | ret r => ret (f r)
  | ask q k => ask q fun r => map f (k r)

@[simp] theorem run_map {ρ' : Type*} (answer : σ → Q → σ × R) (f : ρ → ρ') (c : Client Q R ρ)
    (s : σ) : (c.map f).run answer s = ((c.run answer s).1, f (c.run answer s).2) := by
  induction c generalizing s with
  | ret r => rfl
  | ask q k ih => exact ih _ _

@[simp] theorem asked_map {ρ' : Type*} (answer : σ → Q → σ × R) (f : ρ → ρ') (c : Client Q R ρ)
    (s : σ) : (c.map f).asked answer s = c.asked answer s := by
  induction c generalizing s with
  | ret r => rfl
  | ask q k ih => exact congrArg ((s, q) :: ·) (ih _ _)

/-- Whatever it is answered, the client returns a result with `φ`. -/
def Returns (φ : ρ → Prop) : Client Q R ρ → Prop
  | ret r => φ r
  | ask _ k => ∀ r, (k r).Returns φ

theorem Returns.run {φ : ρ → Prop} (answer : σ → Q → σ × R) {c : Client Q R ρ} (h : c.Returns φ)
    (s : σ) : φ (c.run answer s).2 := by
  induction c generalizing s with
  | ret r => exact h
  | ask q k ih => exact ih _ (h _) _

/-- What each answer does to the interface, the whole play does, if that is closed under repetition. -/
theorem run_closed {T : σ → σ → Prop} {answer : σ → Q → σ × R} (hrefl : ∀ s, T s s)
    (htrans : ∀ {a b c}, T a b → T b c → T a c) (hstep : ∀ s q, T s (answer s q).1)
    (c : Client Q R ρ) (s : σ) : T s (c.run answer s).1 := by
  induction c generalizing s with
  | ret r => exact hrefl s
  | ask q k ih => exact htrans (hstep s q) (ih _ _)

end Client
