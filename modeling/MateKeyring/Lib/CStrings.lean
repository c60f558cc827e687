import MateKeyring.Lib.CText

/-!
# Searching and escaping C strings

`strchr` gives the text on both sides of the first character it looks for. `hex02` prints a byte as
`%02x` does, and `xdigitValue` reads one of its digits.
-/

set_option autoImplicit false

namespace MateKeyring.Lib

open List

variable {c : UInt8} {s t : Bytes}

variable {r : Bytes × Bytes}

/-! ## Searching -/

/-- `strchr (s, c)`: what stands before the character and what stands after it. -/
def strchr (c : UInt8) : Bytes → Option (Bytes × Bytes)
  | [] => none
  | a :: s => if a = c then some ([], s) else (strchr c s).map fun r => (a :: r.1, r.2)

theorem strchr_eq_none (h : c ∉ s) : strchr c s = none := by
  induction s with
  | nil => rfl
  | cons a s ih =>
    rw [mem_cons, not_or] at h
    rw [strchr, if_neg (Ne.symm h.1), ih h.2]
    rfl

theorem strchr_append (h : c ∉ s) : strchr c (s ++ c :: t) = some (s, t) := by
  induction s with
  | nil => exact if_pos rfl
  | cons a s ih =>
    rw [mem_cons, not_or] at h
    rw [cons_append, strchr, if_neg (Ne.symm h.1), ih h.2]
    rfl

theorem eq_of_strchr (h : strchr c s = some r) : s = r.1 ++ c :: r.2 := by
  induction s generalizing r with
  | nil => exact nomatch h
  | cons a s ih =>
    rw [strchr] at h
    split at h
    · rename_i heq
      rw [← Option.some.inj h, ← heq]
      rfl
    · obtain ⟨r', hr', rfl⟩ := Option.map_eq_some_iff.1 h
      exact congrArg (a :: ·) (ih hr')

theorem not_mem_of_strchr (h : strchr c s = some r) : c ∉ r.1 := by
  induction s generalizing r with
  | nil => exact nomatch h
  | cons a s ih =>
    rw [strchr] at h
    split at h
    · cases h
      exact not_mem_nil
    · rename_i hne
      obtain ⟨r', hr', rfl⟩ := Option.map_eq_some_iff.1 h
      rw [mem_cons, not_or]
      exact ⟨Ne.symm hne, ih hr'⟩

/-- `strrchr (s, c)`: what stands before the last such character and what stands after it. -/
def strrchr (c : UInt8) (s : Bytes) : Option (Bytes × Bytes) :=
  (strchr c s.reverse).map fun r => (r.2.reverse, r.1.reverse)

theorem eq_of_strrchr (h : strrchr c s = some r) : s = r.1 ++ c :: r.2 := by
  obtain ⟨r', hr', rfl⟩ := Option.map_eq_some_iff.1 h
  have hreverse := congrArg List.reverse (eq_of_strchr hr')
  rw [reverse_reverse, reverse_append, reverse_cons, append_assoc] at hreverse
  exact hreverse

theorem mem_of_strrchr {b : UInt8} (h : strrchr c s = some r) (hb : b ∈ r.1 ∨ b ∈ r.2) : b ∈ s := by
  rw [eq_of_strrchr h, mem_append, mem_cons]
  exact hb.imp_right .inr

/-- `strlen`, of memory that may hold more than the string. -/
def strlen (s : Bytes) : Nat := (s.takeWhile (· ≠ 0)).length

theorem takeWhile_of_zero_not_mem (h : (0 : UInt8) ∉ s) : s.takeWhile (· ≠ 0) = s :=
  takeWhile_eq_self_iff.2 fun _ hc => decide_eq_true fun heq => h (heq ▸ hc)

theorem strlen_eq (h : (0 : UInt8) ∉ s) : strlen s = s.length := by
  rw [strlen, takeWhile_of_zero_not_mem h]

/-! ## Hexadecimal digits -/

/-- `g_ascii_isxdigit`. -/
def isXdigit (c : UInt8) : Bool := inRange 0x30 0x39 c || inRange 0x41 0x46 c || inRange 0x61 0x66 c

/-- `g_ascii_xdigit_value` of a digit. -/
def xdigitValue (c : UInt8) : Nat :=
  if inRange 0x41 0x46 c then c.toNat - 0x41 + 10
  else if inRange 0x61 0x66 c then c.toNat - 0x61 + 10
  else c.toNat - 0x30

/-- The digit that `%x` prints. -/
def hexDigit (n : Nat) : UInt8 := UInt8.ofNat (if n < 10 then 0x30 + n else 0x61 + (n - 10))

/-- `%02x`. -/
def hex02 (b : UInt8) : Bytes := [hexDigit (b.toNat / 16), hexDigit (b.toNat % 16)]

theorem hexDigit_spec {n : Nat} (h : n < 16) :
    isXdigit (hexDigit n) = true ∧ xdigitValue (hexDigit n) = n := by
  have hall : ∀ n < 16, isXdigit (hexDigit n) = true ∧ xdigitValue (hexDigit n) = n := by decide
  exact hall n h

/-- The value of two digits. -/
theorem ofNat_xdigitValue (b : UInt8) :
    UInt8.ofNat (xdigitValue (hexDigit (b.toNat / 16)) * 16 + xdigitValue (hexDigit (b.toNat % 16))) =
      b := by
  have hb := b.toNat_lt
  rw [(hexDigit_spec (by omega : b.toNat / 16 < 16)).2, (hexDigit_spec (by omega : b.toNat % 16 < 16)).2]
  have hdiv := Nat.div_add_mod b.toNat 16
  rw [Nat.mul_comm] at hdiv
  rw [hdiv, UInt8.ofNat_toNat]

theorem isXdigit_of_mem_hex02 {b c : UInt8} (h : c ∈ hex02 b) : isXdigit c = true := by
  have hb := b.toNat_lt
  rcases mem_cons.1 h with rfl | h
  · exact (hexDigit_spec (by omega)).1
  · rw [mem_singleton.1 h]
    exact (hexDigit_spec (by omega)).1

end MateKeyring.Lib
