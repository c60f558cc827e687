import Mathlib.Logic.Relation

/-!
# Programs that fault or stop early

`Prog φ σ ρ α` is a program on a state `σ`. It may fault (`φ`: nothing after it happens), stop
early with a code (`ρ`: a `return` or a jump to the clean-up of the caller), or go on with a value
`α`. `Triple P x Q E` is total correctness: from a state in `P` the program does not fault, and it
ends with a value in `Q` or with a code in `E`. `Triple.bind` composes triples, so that the
specification of a sequence is assembled from those of its steps.

The last section has the induction rule for invariants of a step function that runs until it
leaves its loop (`reaches_invariant`).
-/

set_option autoImplicit false

namespace MateKeyring.Lib

/-- A program that faults, stops with a code, or goes on. -/
def Prog (φ σ ρ α : Type) : Type := σ → Except φ (Except ρ α × σ)

namespace Prog

variable {φ σ ρ α β : Type}

/-- Go on with a value. -/
def ret (a : α) : Prog φ σ ρ α := fun s => .ok (.ok a, s)

/-- Stop with a code. -/
def stop (r : ρ) : Prog φ σ ρ α := fun s => .ok (.error r, s)

/-- Sequence: the second program runs when the first goes on. -/
def andThen (x : Prog φ σ ρ α) (f : α → Prog φ σ ρ β) : Prog φ σ ρ β := fun s =>
  match x s with
  | .error e => .error e
  | .ok (.error r, s) => .ok (.error r, s)
  | .ok (.ok a, s) => f a s

instance : Monad (Prog φ σ ρ) where
  pure := ret
  bind := andThen

/-- Run an operation on the state that may fault. -/
def run (f : σ → Except φ (α × σ)) : Prog φ σ ρ α := fun s =>
  match f s with
  | .error e => .error e
  | .ok (a, s) => .ok (.ok a, s)

/-- Read the state. -/
def read (f : σ → α) : Prog φ σ ρ α := fun s => .ok (.ok (f s), s)

@[simp] theorem pure_apply (a : α) (s : σ) : (pure a : Prog φ σ ρ α) s = .ok (.ok a, s) := rfl

@[simp] theorem stop_apply (r : ρ) (s : σ) : (stop r : Prog φ σ ρ α) s = .ok (.error r, s) := rfl

@[simp] theorem read_apply (f : σ → α) (s : σ) :
    (read f : Prog φ σ ρ α) s = .ok (.ok (f s), s) := rfl

variable {a : α} {s s' : σ}

theorem run_apply {f : σ → Except φ (α × σ)} (h : f s = .ok (a, s')) :
    (run f : Prog φ σ ρ α) s = .ok (.ok a, s') := by
  simp [run, h]

variable {x : Prog φ σ ρ α}

theorem bind_of_ok (h : x s = .ok (.ok a, s')) (f : α → Prog φ σ ρ β) : (x >>= f) s = f a s' := by
  show andThen x f s = _
  simp [andThen, h]

theorem bind_of_stop {r : ρ} (h : x s = .ok (.error r, s'))
    (f : α → Prog φ σ ρ β) : (x >>= f) s = .ok (.error r, s') := by
  show andThen x f s = _
  simp [andThen, h]

/-- A sequence that goes on is two programs that go on. -/
theorem bind_eq_ok {f : α → Prog φ σ ρ β} {b : β} {s'' : σ} :
    (x >>= f) s = .ok (.ok b, s'') ↔ ∃ a s', x s = .ok (.ok a, s') ∧ f a s' = .ok (.ok b, s'') := by
  show andThen x f s = _ ↔ _
  unfold andThen
  constructor
  · intro h
    split at h
    · simp at h
    · simp at h
    · rename_i a s' hx
      exact ⟨a, s', hx, h⟩
  · rintro ⟨a, s', hx, hf⟩
    simp [hx, hf]

/-! ## Total correctness -/

/-- From a state in `P` the program ends with a value in `Q` or with a code in `E`. -/
def Triple (P : σ → Prop) (x : Prog φ σ ρ α) (Q : α → σ → Prop) (E : ρ → σ → Prop) : Prop :=
  ∀ s, P s → (∃ a s', x s = .ok (.ok a, s') ∧ Q a s') ∨ (∃ r s', x s = .ok (.error r, s') ∧ E r s')

variable {P P' : σ → Prop} {Q Q' : α → σ → Prop} {R : β → σ → Prop} {E E' : ρ → σ → Prop}

theorem Triple.pure (h : ∀ s, P s → Q a s) : Triple P (pure a : Prog φ σ ρ α) Q E :=
  fun s hs => .inl ⟨a, s, rfl, h s hs⟩

theorem Triple.stop {r : ρ} (h : ∀ s, P s → E r s) : Triple P (stop r : Prog φ σ ρ α) Q E :=
  fun s hs => .inr ⟨r, s, rfl, h s hs⟩

theorem Triple.bind {f : α → Prog φ σ ρ β} (hx : Triple P x Q E)
    (hf : ∀ a, Triple (Q a) (f a) R E) : Triple P (x >>= f) R E := by
  intro s hs
  rcases hx s hs with ⟨a, s', h, hq⟩ | ⟨r, s', h, he⟩
  · rw [bind_of_ok h]
    exact hf a s' hq
  · exact .inr ⟨r, s', bind_of_stop h f, he⟩

theorem Triple.conseq (h : Triple P x Q E) (hP : ∀ s, P' s → P s)
    (hQ : ∀ a s, Q a s → Q' a s) (hE : ∀ r s, E r s → E' r s) : Triple P' x Q' E' := by
  intro s hs
  rcases h s (hP s hs) with ⟨a, s', hx, hq⟩ | ⟨r, s', hx, he⟩
  · exact .inl ⟨a, s', hx, hQ a s' hq⟩
  · exact .inr ⟨r, s', hx, hE r s' he⟩

end Prog

/-! ## Loops -/

variable {φ σ : Type}

/-- One round of a loop: it faults, leaves the loop (`none`), or goes round again. -/
abbrev Round (φ σ : Type) := σ → Except φ (Option σ)

/-- `t` is at the head of the loop after some rounds from `s`, each made in a state where `C`
holds. -/
def Reaches (step : Round φ σ) (C : σ → Prop) : σ → σ → Prop :=
  Relation.ReflTransGen fun s t => C s ∧ step s = .ok (some t)

/-- What each round preserves holds at the head of every round. -/
theorem reaches_invariant {step : Round φ σ} {C I : σ → Prop}
    (hstep : ∀ s t, I s → C s → step s = .ok (some t) → I t) {s t : σ} (hs : I s)
    (h : Reaches step C s t) : I t := by
  induction h with
  | refl => exact hs
  | tail _ hst ih => exact hstep _ _ ih hst.1 hst.2

end MateKeyring.Lib
