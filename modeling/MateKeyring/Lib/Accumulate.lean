import Mathlib.Data.Int.ModEq
import Mathlib.Tactic.Ring

/-!
# Numerals accumulated in a machine word

A reader that takes a numeral of any length digit by digit in a signed word of `w` bits, and that gives up
when the word became smaller than it was. `accumulate_eq` says what it returns: the number modulo `2 ^ w`,
unless the numbers of two successive prefixes of the digits are, modulo `2 ^ w`, in descending order
(`Caught`). The test does not find every overflow.
-/

set_option autoImplicit false

namespace MateKeyring.Lib

/-- A number as a signed word of `w` bits. -/
def wordOf (w : Nat) (x : Int) : Int := Int.bmod x (2 ^ w)

namespace Accumulate

/-- The number whose digits are those of `v` and then `ds`. -/
def value (base : Nat) : Nat → List Nat → Nat
  | v, [] => v
  | v, d :: ds => value base (v * base + d) ds

/-- Behind the digits of `v` comes one that makes the word smaller. -/
def Caught (w base : Nat) : Nat → List Nat → Prop
  | _, [] => False
  | v, d :: ds => wordOf w (v * base + d : Nat) < wordOf w v ∨ Caught w base (v * base + d) ds

instance decidableCaught (w base : Nat) : (v : Nat) → (ds : List Nat) → Decidable (Caught w base v ds)
  | _, [] => inferInstanceAs (Decidable False)
  | v, d :: ds => @instDecidableOr _ _ _ (decidableCaught w base (v * base + d) ds)

/-- Take the digits one by one, and give up when the word becomes smaller. -/
def accumulate (w base : Nat) : Int → List Nat → Option Int
  | acc, [] => some acc
  | acc, d :: ds =>
    if wordOf w (acc * base + d) < acc then none
    else accumulate w base (wordOf w (acc * base + d)) ds

/-! ## Words -/

theorem wordOf_mul_add (w base d : Nat) (x : Int) :
    wordOf w (wordOf w x * base + d) = wordOf w (x * base + d) := by
  have hmul : Int.bmod (Int.bmod x (2 ^ w) * base) (2 ^ w) = Int.bmod (x * base) (2 ^ w) :=
    Int.bmod_mul_bmod
  rw [wordOf, wordOf, wordOf, ← Int.bmod_add_bmod, hmul, Int.bmod_add_bmod]

variable {w : Nat}

/-- A number is a word if it is below the sign. -/
theorem wordOf_eq_self_iff {n : Nat} (hw : 0 < w) : wordOf w n = n ↔ n < 2 ^ (w - 1) := by
  have hpow : 2 ^ w = 2 * 2 ^ (w - 1) := by
    rw [← Nat.pow_succ', Nat.succ_eq_add_one, Nat.sub_add_cancel hw]
  rw [wordOf, hpow]
  generalize hhalf : 2 ^ (w - 1) = half
  have hpos : 0 < half := by
    rw [← hhalf]
    exact Nat.two_pow_pos _
  constructor
  · intro h
    have hlt := @Int.bmod_lt n (2 * half) (by omega)
    rw [h] at hlt
    omega
  · intro h
    exact Int.bmod_eq_of_le (by omega) (by omega)

/-! ## Values -/

theorem value_append (base : Nat) (v : Nat) (ds es : List Nat) :
    value base v (ds ++ es) = value base (value base v ds) es := by
  induction ds generalizing v with
  | nil => rfl
  | cons d ds ih =>
    rw [List.cons_append, value, value]
    exact ih _

variable {base : Nat}

theorem le_value (hbase : 0 < base) (v : Nat) (ds : List Nat) : v ≤ value base v ds := by
  induction ds generalizing v with
  | nil => exact Nat.le_refl v
  | cons d ds ih =>
    have hmul : v ≤ v * base := Nat.le_mul_of_pos_right v hbase
    exact (hmul.trans (Nat.le_add_right _ d)).trans (ih _)

variable {v : Nat} {ds : List Nat}

/-- Nothing is caught of a number below the sign. -/
theorem not_caught_of_lt (hw : 0 < w) (hbase : 0 < base)
    (h : value base v ds < 2 ^ (w - 1)) : ¬ Caught w base v ds := by
  induction ds generalizing v with
  | nil => exact not_false
  | cons d ds ih =>
    rw [value] at h
    have hnext : v * base + d < 2 ^ (w - 1) := Nat.lt_of_le_of_lt (le_value hbase _ ds) h
    have hmul : v ≤ v * base := Nat.le_mul_of_pos_right v hbase
    rintro (hless | hlater)
    · rw [(wordOf_eq_self_iff hw).2 hnext, (wordOf_eq_self_iff hw).2 (by omega)] at hless
      omega
    · exact ih h hlater

/-- What is accumulated is the word of the number, unless that is caught. -/
theorem accumulate_eq (w base v : Nat) (ds : List Nat) :
    accumulate w base (wordOf w v) ds =
      if Caught w base v ds then none else some (wordOf w (value base v ds)) := by
  induction ds generalizing v with
  | nil => rfl
  | cons d ds ih =>
    have hnext : wordOf w (wordOf w v * base + d) = wordOf w (v * base + d : Nat) := by
      rw [wordOf_mul_add]
      push_cast
      rfl
    rw [accumulate, hnext, ih]
    by_cases hless : wordOf w (v * base + d : Nat) < wordOf w v
    · rw [if_pos hless, if_pos (show Caught w base v (d :: ds) from .inl hless)]
    · rw [if_neg hless]
      by_cases hlater : Caught w base (v * base + d) ds
      · rw [if_pos hlater, if_pos (show Caught w base v (d :: ds) from .inr hlater)]
      · rw [if_neg hlater, if_neg (fun h : Caught w base v (d :: ds) => h.elim hless hlater), value]

/-- What is accumulated without a catch is not negative. -/
theorem wordOf_nonneg (h : ¬ Caught w base v ds)
    (hv : 0 ≤ wordOf w v) : 0 ≤ wordOf w (value base v ds) := by
  induction ds generalizing v with
  | nil => exact hv
  | cons d ds ih =>
    have hless : ¬ wordOf w (v * base + d : Nat) < wordOf w v := fun hless => h (.inl hless)
    exact ih (fun hlater => h (.inr hlater)) (hv.trans (Int.not_lt.1 hless))

/-- Without a catch the word never becomes smaller. -/
theorem wordOf_le (h : ¬ Caught w base v ds) : wordOf w v ≤ wordOf w (value base v ds) := by
  induction ds generalizing v with
  | nil => exact Int.le_refl _
  | cons d ds ih =>
    have hless : ¬ wordOf w (v * base + d : Nat) < wordOf w v := fun hless => h (.inl hless)
    exact (Int.not_lt.1 hless).trans (ih (fun hlater => h (.inr hlater)))

/-- A number that is not zero does not become zero without a catch, its digits being below the sign. -/
theorem wordOf_pos (hw : 0 < w) (h : ¬ Caught w base 0 ds)
    (hds : ∀ d ∈ ds, d < 2 ^ (w - 1)) (hpos : 0 < value base 0 ds) : 0 < wordOf w (value base 0 ds) := by
  induction ds with
  | nil => exact absurd hpos (Nat.lt_irrefl 0)
  | cons d ds ih =>
    rw [List.forall_mem_cons] at hds
    have hlater : ¬ Caught w base (0 * base + d) ds := fun hlater => h (.inr hlater)
    rw [value] at hpos ⊢
    rw [Nat.zero_mul, Nat.zero_add] at hpos hlater ⊢
    rcases Nat.eq_zero_or_pos d with rfl | hd
    · exact ih hlater hds.2 hpos
    · -- the first digit that is not zero stays below what follows
      have hfirst := (wordOf_eq_self_iff hw).2 hds.1
      have hle := wordOf_le hlater
      omega

end Accumulate

end MateKeyring.Lib
