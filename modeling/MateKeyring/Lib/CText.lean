import Mathlib.Data.List.TakeWhile
import Mathlib.Tactic.NormNum
import MateKeyring.Lib.Bytes

/-!
# Text as C programs read and print it

Text is a list of bytes without its terminator. `decimal` prints a number as `%u` does, `strtoul`
reads one as the C library does in base ten, and `utf8Validate` recognises well-formed UTF-8.
-/

set_option autoImplicit false

namespace MateKeyring.Lib

open List

/-- The bytes of a string literal of ASCII characters. -/
def ascii (s : String) : Bytes := s.toList.map fun c => UInt8.ofNat c.toNat

/-! ## Numerals -/

/-- `isspace` in the C locale. -/
def isSpace (c : UInt8) : Bool := c == 0x20 || (0x09 ≤ c && c ≤ 0x0d)

/-- `isdigit`. -/
def isDigit (c : UInt8) : Bool := 0x30 ≤ c && c ≤ 0x39

/-- A number in base ten. -/
def decimal (n : Nat) : Bytes := (Nat.toDigits 10 n).map fun c => UInt8.ofNat c.toNat

/-- The value of a list of digits. -/
def decimalValue (ds : Bytes) : Nat := ds.foldl (fun n c => 10 * n + (c.toNat - 0x30)) 0

/-- The sign before a numeral: whether it is a minus sign, and what follows. -/
def takeSign : Bytes → Bool × Bytes
  | [] => (false, [])
  | c :: s => if c = 0x2d then (true, s) else if c = 0x2b then (false, s) else (false, c :: s)

/-- `strtoul (s, &end, 10)` for numbers of `w` bits: the value and the text from `end` on. Without a
digit nothing is taken; a numeral that does not fit is the largest number. -/
def strtoul (w : Nat) (s : Bytes) : Nat × Bytes :=
  let signed := takeSign (s.dropWhile isSpace)
  let digits := signed.2.takeWhile isDigit
  let rest := signed.2.dropWhile isDigit
  if digits = [] then (0, s)
  else if 2 ^ w ≤ decimalValue digits then (2 ^ w - 1, rest)
  else if signed.1 then ((2 ^ w - decimalValue digits) % 2 ^ w, rest)
  else (decimalValue digits, rest)

theorem toNat_ofNat_digit {c : Char} (h : c.isDigit = true) :
    (UInt8.ofNat c.toNat).toNat = c.toNat ∧ 0x30 ≤ c.toNat ∧ c.toNat ≤ 0x39 := by
  have hc : 48 ≤ c.toNat ∧ c.toNat ≤ 57 := by
    simp only [Char.isDigit, ge_iff_le, Bool.and_eq_true, decide_eq_true_eq,
      UInt32.le_iff_toNat_le] at h
    exact h
  refine ⟨?_, hc.1, hc.2⟩
  rw [UInt8.toNat_ofNat', Nat.mod_eq_of_lt]
  omega

theorem isDigit_of_mem_decimal {n : Nat} {c : UInt8} (h : c ∈ decimal n) : isDigit c = true := by
  obtain ⟨d, hd, rfl⟩ := mem_map.1 h
  obtain ⟨heq, hlo, hhi⟩ :=
    toNat_ofNat_digit (Nat.isDigit_of_mem_toDigits (by decide) (by decide) hd)
  simp only [isDigit, Bool.and_eq_true, decide_eq_true_eq, UInt8.le_iff_toNat_le, heq]
  exact ⟨hlo, hhi⟩

theorem decimal_ne_nil (n : Nat) : decimal n ≠ [] := by
  simp [decimal]

theorem foldl_digits (ds : List Char) (h : ∀ c ∈ ds, c.isDigit = true) (v : Nat) :
    (ds.map fun c => UInt8.ofNat c.toNat).foldl (fun n c => 10 * n + (c.toNat - 0x30)) v =
      Nat.ofDigitChars 10 ds v := by
  induction ds generalizing v with
  | nil => simp
  | cons c ds ih =>
    have hc := (toNat_ofNat_digit (h c mem_cons_self)).1
    rw [map_cons, foldl_cons, ih (forall_mem_cons.1 h).2, hc, Nat.ofDigitChars_cons]
    rfl

theorem decimalValue_decimal (n : Nat) : decimalValue (decimal n) = n := by
  have h := foldl_digits (Nat.toDigits 10 n)
    (fun c hc => Nat.isDigit_of_mem_toDigits (by decide) (by decide) hc) 0
  rw [Nat.ofDigitChars_ten_toDigits] at h
  exact h

theorem decimal_injective {m n : Nat} (h : decimal m = decimal n) : m = n := by
  rw [← decimalValue_decimal m, h, decimalValue_decimal]

theorem not_isSpace_of_isDigit {c : UInt8} (h : isDigit c = true) : isSpace c = false := by
  simp only [isDigit, Bool.and_eq_true, decide_eq_true_eq, UInt8.le_iff_toNat_le] at h
  have h1 : (0x30 : UInt8).toNat = 48 := rfl
  have h2 : (0x0d : UInt8).toNat = 13 := rfl
  have h3 : c ≠ 0x20 := fun hc => by subst hc; simp at h
  simp only [isSpace, Bool.or_eq_false_iff, beq_eq_false_iff_ne, ne_eq, h3, not_false_eq_true,
    Bool.and_eq_false_iff, decide_eq_false_iff_not, UInt8.le_iff_toNat_le, true_and]
  omega

theorem takeSign_of_digit {s : Bytes} (h : ∀ c ∈ s, isDigit c = true) :
    takeSign s = (false, s) := by
  cases s with
  | nil => rfl
  | cons c s =>
    have hc := h c mem_cons_self
    have h1 : c ≠ 0x2d := fun he => by subst he; simp [isDigit] at hc
    have h2 : c ≠ 0x2b := fun he => by subst he; simp [isDigit] at hc
    simp [takeSign, h1, h2]

/-- What `%u` prints is read back. -/
theorem strtoul_decimal {w n : Nat} (h : n < 2 ^ w) : strtoul w (decimal n) = (n, []) := by
  have hd : ∀ c ∈ decimal n, isDigit c = true := fun c hc => isDigit_of_mem_decimal hc
  have hspace : (decimal n).dropWhile isSpace = decimal n := by
    rw [dropWhile_eq_self_iff]
    intro hl
    exact not_isSpace_of_isDigit (hd _ (getElem_mem hl)) ▸ by simp
  have htake : (decimal n).takeWhile isDigit = decimal n := takeWhile_eq_self_iff.2 hd
  have hdrop : (decimal n).dropWhile isDigit = [] := dropWhile_eq_nil_iff.2 hd
  unfold strtoul
  simp only [hspace, takeSign_of_digit hd, htake, hdrop, decimal_ne_nil, if_false,
    decimalValue_decimal, Bool.false_eq_true]
  rw [if_neg (by omega)]

theorem zero_not_mem_decimal (n : Nat) : (0 : UInt8) ∉ decimal n := by
  intro h
  have := isDigit_of_mem_decimal h
  simp [isDigit] at this

/-! ## UTF-8 -/

/-- A continuation byte, which for the second byte of a character may have a narrower range. -/
def inRange (lo hi c : UInt8) : Bool := lo ≤ c && c ≤ hi

/-- `g_utf8_validate (s, n, NULL)` where `n` is the length: no null character, no overlong form, no
surrogate, nothing above `U+10FFFF`. -/
def utf8Validate : Bytes → Bool
  | [] => true
  | a :: s =>
    if inRange 0x01 0x7f a then utf8Validate s
    else if inRange 0xc2 0xdf a then
      match s with
      | b :: s => inRange 0x80 0xbf b && utf8Validate s
      | [] => false
    else if inRange 0xe0 0xef a then
      match s with
      | b :: c :: s =>
        inRange (if a = 0xe0 then 0xa0 else 0x80) (if a = 0xed then 0x9f else 0xbf) b &&
          inRange 0x80 0xbf c && utf8Validate s
      | _ => false
    else if inRange 0xf0 0xf4 a then
      match s with
      | b :: c :: d :: s =>
        inRange (if a = 0xf0 then 0x90 else 0x80) (if a = 0xf4 then 0x8f else 0xbf) b &&
          inRange 0x80 0xbf c && inRange 0x80 0xbf d && utf8Validate s
      | _ => false
    else false

theorem utf8Validate_of_ascii {s : Bytes} (h : ∀ c ∈ s, inRange 0x01 0x7f c = true) :
    utf8Validate s = true := by
  induction s with
  | nil => rfl
  | cons c s ih =>
    rw [utf8Validate.eq_def]
    simp only [h c mem_cons_self, if_true]
    exact ih (forall_mem_cons.1 h).2

end MateKeyring.Lib
