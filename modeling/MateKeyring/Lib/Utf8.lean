import MateKeyring.Lib.CText

/-!
# Texts that pass `g_utf8_validate`

Such texts can be put together, and have no null character.
-/

set_option autoImplicit false

namespace MateKeyring.Lib

open List

variable {s t : Bytes}

/-- Behind valid text the rest is looked at. -/
theorem utf8Validate_append (h : utf8Validate s = true) : utf8Validate (s ++ t) = utf8Validate t := by
  fun_induction utf8Validate s with
  | case1 => rfl
  | case2 a s hone ih =>
    rw [cons_append, utf8Validate.eq_def]
    dsimp only
    rw [if_pos hone]
    exact ih h
  | case3 a hone htwo b s ih =>
    rw [Bool.and_eq_true] at h
    rw [cons_append, cons_append, utf8Validate, if_neg hone, if_pos htwo, h.1, ih h.2,
      Bool.true_and]
  | case4 a hone htwo => exact absurd h Bool.false_ne_true
  | case5 a hone htwo hthree b c s ih =>
    rw [Bool.and_eq_true, Bool.and_eq_true] at h
    rw [cons_append, cons_append, cons_append, utf8Validate, if_neg hone, if_neg htwo,
      if_pos hthree]
    dsimp only
    rw [h.1.1, h.1.2, ih h.2, Bool.true_and, Bool.true_and]
  | case6 a s hone htwo hthree hshort => exact absurd h Bool.false_ne_true
  | case7 a hone htwo hthree hfour b c d s ih =>
    rw [Bool.and_eq_true, Bool.and_eq_true, Bool.and_eq_true] at h
    rw [cons_append, cons_append, cons_append, cons_append, utf8Validate, if_neg hone,
      if_neg htwo, if_neg hthree, if_pos hfour]
    dsimp only
    rw [h.1.1.1, h.1.1.2, h.1.2, ih h.2, Bool.true_and, Bool.true_and, Bool.true_and]
  | case8 a s hone htwo hthree hfour hshort => exact absurd h Bool.false_ne_true
  | case9 a s hone htwo hthree hfour => exact absurd h Bool.false_ne_true

/-- A byte of a range that does not begin at zero is not zero. -/
theorem ne_zero_of_inRange {lo hi c : UInt8} (hlo : 0 < lo) (h : inRange lo hi c = true) : (0 : UInt8) ≠ c := by
  rintro rfl
  rw [inRange, Bool.and_eq_true, decide_eq_true_eq] at h
  exact absurd hlo (UInt8.not_lt.2 h.1)

theorem zero_not_mem_of_utf8Validate (h : utf8Validate s = true) : (0 : UInt8) ∉ s := by
  fun_induction utf8Validate s with
  | case1 => exact not_mem_nil
  | case2 a s hone ih =>
    rw [mem_cons, not_or]
    exact ⟨ne_zero_of_inRange (by decide) hone, ih h⟩
  | case3 a hone htwo b s ih =>
    rw [Bool.and_eq_true] at h
    rw [mem_cons, mem_cons, not_or, not_or]
    exact ⟨ne_zero_of_inRange (by decide) htwo, ne_zero_of_inRange (by decide) h.1, ih h.2⟩
  | case4 a hone htwo => exact absurd h Bool.false_ne_true
  | case5 a hone htwo hthree b c s ih =>
    rw [Bool.and_eq_true, Bool.and_eq_true] at h
    have hsecond : (0 : UInt8) < if a = 0xe0 then 0xa0 else 0x80 := by split <;> decide
    rw [mem_cons, mem_cons, mem_cons, not_or, not_or, not_or]
    exact ⟨ne_zero_of_inRange (by decide) hthree, ne_zero_of_inRange hsecond h.1.1,
      ne_zero_of_inRange (by decide) h.1.2, ih h.2⟩
  | case6 a s hone htwo hthree hshort => exact absurd h Bool.false_ne_true
  | case7 a hone htwo hthree hfour b c d s ih =>
    rw [Bool.and_eq_true, Bool.and_eq_true, Bool.and_eq_true] at h
    have hsecond : (0 : UInt8) < if a = 0xf0 then 0x90 else 0x80 := by split <;> decide
    rw [mem_cons, mem_cons, mem_cons, mem_cons, not_or, not_or, not_or, not_or]
    exact ⟨ne_zero_of_inRange (by decide) hfour, ne_zero_of_inRange hsecond h.1.1.1,
      ne_zero_of_inRange (by decide) h.1.1.2, ne_zero_of_inRange (by decide) h.1.2, ih h.2⟩
  | case8 a s hone htwo hthree hfour hshort => exact absurd h Bool.false_ne_true
  | case9 a s hone htwo hthree hfour => exact absurd h Bool.false_ne_true

end MateKeyring.Lib
