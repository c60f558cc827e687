/-!
# Computations that agree

`Ensures allowed P x` says of a computation that may fail that its result is in `P`, and its error an allowed
one. `Agree allowed P x y` says that `x` and `y` have the same outcome, and that it is such a one: so a
program is compared with one that makes more checks, by composing steps (`Agree.bind`).
-/

set_option autoImplicit false

namespace MateKeyring.Lib

variable {ε α β : Type} {allowed : ε → Prop} {P Q : α → Prop} {x y : Except ε α}

/-- The result is in `P`, or the error is allowed. -/
inductive Ensures (allowed : ε → Prop) (P : α → Prop) : Except ε α → Prop
  | ok {a : α} (h : P a) : Ensures allowed P (.ok a)
  | error {e : ε} (h : allowed e) : Ensures allowed P (.error e)

theorem ensures_any (x : Except ε α) : Ensures (fun _ => True) (fun _ => True) x := by
  cases x with
  | error e => exact .error trivial
  | ok a => exact .ok trivial

theorem Ensures.of_ok {a : α} (h : Ensures allowed P x) (hx : x = .ok a) : P a := by
  rw [hx] at h
  cases h with
  | ok h => exact h

/-- What is known of the results besides. -/
theorem Ensures.and (h : Ensures allowed P x) (hx : ∀ a, x = .ok a → Q a) :
    Ensures allowed (fun a => P a ∧ Q a) x := by
  cases h with
  | ok h => exact .ok ⟨h, hx _ rfl⟩
  | error h => exact .error h

theorem Ensures.mono (h : Ensures allowed P x) (himp : ∀ a, P a → Q a) : Ensures allowed Q x := by
  cases h with
  | ok h => exact .ok (himp _ h)
  | error h => exact .error h

theorem Ensures.bind {R : β → Prop} {f : α → Except ε β} (h : Ensures allowed P x)
    (hf : ∀ a, P a → Ensures allowed R (f a)) : Ensures allowed R (x >>= f) := by
  cases h with
  | ok h => exact hf _ h
  | error h => exact .error h

/-- The outcomes are the same, with a result in `P` or an allowed error. -/
def Agree (allowed : ε → Prop) (P : α → Prop) (x y : Except ε α) : Prop :=
  x = y ∧ Ensures allowed P y

theorem Ensures.agree (h : Ensures allowed P x) : Agree allowed P x x := ⟨rfl, h⟩

theorem Agree.mono (h : Agree allowed P x y) (himp : ∀ a, P a → Q a) : Agree allowed Q x y :=
  ⟨h.1, h.2.mono himp⟩

theorem Agree.ok {a : α} (h : P a) : Agree allowed P (.ok a) (.ok a) := (Ensures.ok h).agree

theorem Agree.bind {R : β → Prop} {f g : α → Except ε β} (h : Agree allowed P x y)
    (hfg : ∀ a, P a → Agree allowed R (f a) (g a)) : Agree allowed R (x >>= f) (y >>= g) := by
  obtain ⟨rfl, hx⟩ := h
  cases hx with
  | ok h => exact hfg _ h
  | error h => exact ⟨rfl, .error h⟩

end MateKeyring.Lib
