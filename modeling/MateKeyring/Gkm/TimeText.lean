import MateKeyring.Asn1x.Times
import MateKeyring.Lib.CText

/-!
# The text of times

What `gmtime_r`, `snprintf` and `strftime` make of a `time_t` for the dates and times of
`gkm-attributes.c`. The month, the day, the hour, the minute and the second have two characters each.
-/

set_option autoImplicit false

namespace MateKeyring.Gkm.Setters

open Lib List
open Asn1x.Times (Tm)

/-! ## Text of times -/

/-- `%d`, and `%Y` of `strftime`. -/
def decimalInt (n : Int) : Bytes :=
  if n < 0 then 0x2d :: decimal n.natAbs else decimal n.natAbs

/-- `%0wd`. -/
def zeroPadded (width : Nat) (n : Int) : Bytes :=
  if n < 0 then
    0x2d :: (replicate (width - 1 - (decimal n.natAbs).length) 0x30 ++ decimal n.natAbs)
  else replicate (width - (decimal n.natAbs).length) 0x30 ++ decimal n.natAbs

/-- `snprintf`: what is in the buffer of `n` octets, with the null character. -/
def snprintf (n : Nat) (text : Bytes) : Bytes := text.take (n - 1) ++ [0]

/-- The year of a day, counted from the epoch, the month from zero and the day of the month. The years
are counted from March on, in periods of 400, 100, 4 and one. -/
def civil (days : Int) : Int × Int × Int :=
  let z := days + 719468
  let era := z / 146097
  let century := min (z % 146097 / 36524) 3
  let day := z % 146097 - century * 36524
  let four := day / 1461
  let one := min (day % 1461 / 365) 3
  let doy := day % 1461 - one * 365
  let mp := (5 * doy + 2) / 153
  let year := era * 400 + century * 100 + four * 4 + one
  (if mp < 10 then year else year + 1, if mp < 10 then mp + 2 else mp - 10,
    doy - (153 * mp + 2) / 5 + 1)

/-- The year of a `time_t`. -/
def yearOf (time : Int) : Int := (civil (time / 86400)).1

/-- The broken down time of a `time_t`. -/
def tmOf (time : Int) : Tm where
  year := yearOf time - 1900
  mon := (civil (time / 86400)).2.1
  mday := (civil (time / 86400)).2.2
  hour := time % 86400 / 3600
  min := time % 3600 / 60
  sec := time % 60

/-- The value of an `int`. -/
def cInt (n : Int) : Int := n.bmod (2 ^ 32)

/-- `gmtime_r`, which fails when the year is no `int`. -/
def gmtimeR (time : Int) : Option Tm :=
  if cInt (yearOf time - 1900) = yearOf time - 1900 then some (tmOf time) else none

/-- The month and the day of a date. -/
def monthDay (tm : Tm) : Bytes := zeroPadded 2 (tm.mon + 1) ++ zeroPadded 2 tm.mday

/-- The hour, the minute, the second and two zeros. -/
def clockText (tm : Tm) : Bytes :=
  zeroPadded 2 tm.hour ++ zeroPadded 2 tm.min ++ zeroPadded 2 tm.sec ++ [0x30, 0x30]

/-- `strftime` of `"%Y%m%d%H%M%S00"`, without its null character. -/
def strftimeText (year : Int) (tm : Tm) : Bytes :=
  decimalInt year ++ (monthDay tm ++ clockText tm)

/-! ## The date of a day -/

/-- The month and the day are in their range. -/
theorem civil_range (days : Int) :
    (0 ≤ (civil days).2.1 ∧ (civil days).2.1 ≤ 11) ∧
      1 ≤ (civil days).2.2 ∧ (civil days).2.2 ≤ 31 := by
  unfold civil
  dsimp only
  have hdoe : 0 ≤ (days + 719468) % 146097 ∧ (days + 719468) % 146097 < 146097 := by omega
  generalize (days + 719468) % 146097 = doe at hdoe ⊢
  have hday : 0 ≤ doe - min (doe / 36524) 3 * 36524 := by omega
  generalize doe - min (doe / 36524) 3 * 36524 = day at hday ⊢
  have hrest : 0 ≤ day % 1461 ∧ day % 1461 < 1461 := by omega
  generalize day % 1461 = rest at hrest ⊢
  have hdoy : 0 ≤ rest - min (rest / 365) 3 * 365 ∧ rest - min (rest / 365) 3 * 365 ≤ 365 := by omega
  generalize rest - min (rest / 365) 3 * 365 = doy at hdoy ⊢
  split <;> omega

/-- The year has four characters, as a date needs them. -/
def DateYear (year : Int) : Prop := -999 ≤ year ∧ year ≤ 9999

/-- The year has four characters without zeros before it, as a time needs them. -/
def TimeYear (year : Int) : Prop := (1000 ≤ year ∧ year ≤ 9999) ∨ (-999 ≤ year ∧ year ≤ -100)

/-! ## Widths -/

theorem length_decimal_le_iff {n k : Nat} (hk : 0 < k) : (decimal n).length ≤ k ↔ n < 10 ^ k := by
  rw [decimal, length_map, Nat.length_toDigits_le_iff (by decide) hk]

theorem length_zeroPadded_two {n : Int} (h0 : 0 ≤ n) (h : n ≤ 99) : (zeroPadded 2 n).length = 2 := by
  have hle : (decimal n.natAbs).length ≤ 2 := (length_decimal_le_iff (by decide)).2 (by omega)
  rw [zeroPadded, if_neg (by omega), length_append, length_replicate]
  omega

theorem le_length_zeroPadded (w : Nat) (n : Int) : w ≤ (zeroPadded w n).length := by
  unfold zeroPadded
  split
  · rw [length_cons, length_append, length_replicate]
    omega
  · rw [length_append, length_replicate]
    omega

theorem length_zeroPadded_four {n : Int} : (zeroPadded 4 n).length = 4 ↔ DateYear n := by
  have hthree := length_decimal_le_iff (n := n.natAbs) (k := 3) (by decide)
  have hfour := length_decimal_le_iff (n := n.natAbs) (k := 4) (by decide)
  unfold zeroPadded DateYear
  split
  · rw [length_cons, length_append, length_replicate]
    omega
  · rw [length_append, length_replicate]
    omega

theorem length_decimalInt {n : Int} : (decimalInt n).length = 4 ↔ TimeYear n := by
  have htwo := length_decimal_le_iff (n := n.natAbs) (k := 2) (by decide)
  have hthree := length_decimal_le_iff (n := n.natAbs) (k := 3) (by decide)
  have hfour := length_decimal_le_iff (n := n.natAbs) (k := 4) (by decide)
  unfold decimalInt TimeYear
  split
  · rw [length_cons]
    omega
  · omega

theorem cInt_of_small {n : Int} (h : -2147483648 ≤ n) (h' : n ≤ 2147483647) : cInt n = n := by
  unfold cInt
  rw [Int.bmod_def]
  omega

/-- A year of at most seven characters is an `int`. -/
theorem cInt_of_length {n : Int} (h : (decimalInt n).length < 8) : cInt (n - 1900) = n - 1900 := by
  have hseven := length_decimal_le_iff (n := n.natAbs) (k := 7) (by decide)
  have habs : n.natAbs < 10 ^ 7 := by
    apply hseven.1
    unfold decimalInt at h
    split at h
    · rw [length_cons] at h
      omega
    · omega
  exact cInt_of_small (by omega) (by omega)

theorem length_monthDay (time : Int) : (monthDay (tmOf time)).length = 4 := by
  obtain ⟨⟨hmon, hmon'⟩, hday, hday'⟩ := civil_range (time / 86400)
  rw [monthDay, length_append, length_zeroPadded_two, length_zeroPadded_two]
  all_goals
    dsimp only [tmOf]
    omega

theorem length_clockText (time : Int) : (clockText (tmOf time)).length = 8 := by
  have hhour : 0 ≤ time % 86400 / 3600 ∧ time % 86400 / 3600 ≤ 99 := by omega
  have hmin : 0 ≤ time % 3600 / 60 ∧ time % 3600 / 60 ≤ 99 := by omega
  have hsec : 0 ≤ time % 60 ∧ time % 60 ≤ 99 := by omega
  simp only [clockText, tmOf, length_append, length_zeroPadded_two hhour.1 hhour.2,
    length_zeroPadded_two hmin.1 hmin.2, length_zeroPadded_two hsec.1 hsec.2, length_cons,
    length_nil]

theorem length_strftimeText (year time : Int) :
    (strftimeText year (tmOf time)).length = 12 + (decimalInt year).length := by
  rw [strftimeText, length_append, length_append, length_monthDay, length_clockText]
  omega

theorem take_snprintf {n : Nat} {text : Bytes} (h : n ≤ text.length) :
    (snprintf (n + 1) text).take n = text.take n := by
  have hlength : (text.take n).length = n := by
    rw [length_take]
    omega
  rw [snprintf, Nat.add_sub_cancel, take_left' hlength]

end MateKeyring.Gkm.Setters
