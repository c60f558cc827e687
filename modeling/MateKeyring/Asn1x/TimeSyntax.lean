import Mathlib.Data.List.Basic
import MateKeyring.Asn1x.Times

/-!
# Which contents are times

The text of a time: the year, the month and the day, and in turn the hour, the minute and the second, two digits
each; a fraction of four digits; and a zone. The parsers take more than that: a date that is cut off, a fraction of
any four characters, a zone whose hours are no digits or a whole day, and minutes that are no digits or too many. And
as they look for the end of the digits without the length of the contents, contents that are all digits are taken or
not by what stands behind them.
-/

set_option autoImplicit false

namespace MateKeyring.Asn1x.Times

open Lib List

variable {s data content beyond : Bytes} {fmt : TimeFormat}

/-! ## The grammar -/

/-- So many digits. -/
def Digits (n : Nat) (s : Bytes) : Prop := s.length = n ∧ s.all isDigit = true

/-- The number that digits are. -/
def number (s : Bytes) : Nat := s.foldl (fun n c => 10 * n + (c.toNat - 0x30)) 0

/-- Two digits of a number in a range. -/
def Field (lo hi : Nat) (s : Bytes) : Prop := Digits 2 s ∧ lo ≤ number s ∧ number s ≤ hi

/-- The ranges of month, day, hour, minute and second. -/
def dateBounds : List (Nat × Nat) := [(1, 12), (1, 31), (0, 23), (0, 59), (0, 59)]

/-- Fields in their ranges, some at the end left out. -/
def Fields : List (Nat × Nat) → List Bytes → Prop
  | _, [] => True
  | [], _ :: _ => False
  | b :: bounds, f :: fields => Field b.1 b.2 f ∧ Fields bounds fields

/-- The year, the month and the day at least. -/
def IsDate (fmt : TimeFormat) (s : Bytes) : Prop :=
  ∃ year fields, s = year ++ fields.flatten ∧ Digits fmt.yearDigits year ∧ 2 ≤ fields.length ∧ Fields dateBounds fields

/-- Four digits behind a period. -/
def IsFraction (s : Bytes) : Prop := s = [] ∨ ∃ digits, s = 0x2e :: digits ∧ Digits 4 digits

/-- `+` or `-`. -/
def IsSign (c : UInt8) : Prop := c = 0x2d ∨ c = 0x2b

/-- `Z`, or hours and perhaps minutes, less than a day. -/
def IsZone (s : Bytes) : Prop :=
  s = [] ∨ s = [0x5a] ∨ ∃ sign hours minutes, s = sign :: (hours ++ minutes) ∧ IsSign sign ∧ Digits 2 hours ∧
    (minutes = [] ∨ Digits 2 minutes) ∧ number hours * 3600 + number minutes * 60 < 86400

def IsTail (s : Bytes) : Prop := ∃ fraction zone, s = fraction ++ zone ∧ IsFraction fraction ∧ IsZone zone

/-- The contents of a time. -/
def Grammar (fmt : TimeFormat) (content : Bytes) : Prop :=
  ∃ date tail, content = date ++ tail ∧ IsDate fmt date ∧ IsTail tail

/-! ## What is taken -/

/-- The year is one that a `struct tm` of the parsers has. -/
def YearFits (fmt : TimeFormat) (year : Bytes) : Prop :=
  0 ≤ fmt.tmYear (number year) ∧ fmt.tmYear (number year) ≤ 9999

/-- A date that may be cut off after any field, or have no year at all. -/
def LooseDate (fmt : TimeFormat) (s : Bytes) : Prop :=
  ∃ year fields, s = year ++ fields.flatten ∧ Fields dateBounds fields ∧
    (Digits fmt.yearDigits year ∧ YearFits fmt year ∨ year = [] ∧ s.length < fmt.yearDigits)

/-- A zone whose hours are two digits up to a day has nothing or two characters behind it, else anything. -/
def LooseZone (s : Bytes) : Prop :=
  s = [] ∨ s = [0x5a] ∨ ∃ sign a b rest, s = sign :: a :: b :: rest ∧ IsSign sign ∧
    (¬ Field 0 24 [a, b] ∨ rest.length = 0 ∨ rest.length = 2)

/-- A fraction has any four characters. -/
def LooseFraction (s : Bytes) : Prop := ∃ a b c d, s = [0x2e, a, b, c, d]

def LooseTail (s : Bytes) : Prop :=
  ∃ fraction zone, s = fraction ++ zone ∧ (fraction = [] ∨ LooseFraction fraction) ∧ LooseZone zone

/-- The digits that contents begin with. -/
def digitsOf (content : Bytes) : Bytes := content.takeWhile isDigit

/-- What is behind them. -/
def tailOf (content : Bytes) : Bytes := content.dropWhile isDigit

/-- Contents that are misread, with what is behind them in the memory. -/
def Misread (fmt : TimeFormat) (content beyond : Bytes) : Prop :=
  (fmt.least ≤ content.length ∧ content.length < fmt.most) ∧
    ((Grammar fmt content ∧ ¬ YearFits fmt (content.take fmt.yearDigits)) ∨
      (tailOf content = [] ∧
        (beyond.all isDigit = true ∨ Grammar fmt content ∧ ∃ c, beyond.head? = some c ∧ isDigit c = true)) ∨
      (tailOf content ≠ [] ∧ LooseDate fmt (digitsOf content) ∧
        (LooseTail (tailOf content) ∧ ¬ Grammar fmt content ∨ LooseFraction (tailOf content) ∧ beyond = [])))

/-- A parser returns `TRUE` for the contents of a time and `FALSE` for others. -/
def Right (parse : Nat → Bytes → Checked Parsed) (fmt : TimeFormat) (content beyond : Bytes) : Prop :=
  ∃ parsed, parse content.length (content ++ beyond) = .ok parsed ∧ (parsed.ret = 1 ↔ Grammar fmt content) ∧
    (parsed.ret = 0 ↔ ¬ Grammar fmt content)

/-! ## Numbers -/

theorem number_lt (h : s.all isDigit = true) : number s < 10 ^ s.length := by
  have hstep : ∀ (s : Bytes) (n : Nat), s.all isDigit = true →
      s.foldl (fun n c => 10 * n + (c.toNat - 0x30)) n < (n + 1) * 10 ^ s.length := by
    intro s
    induction s with
    | nil => intro n _; simp
    | cons c s ih =>
      intro n h
      rw [all_cons, Bool.and_eq_true] at h
      have hc : c.toNat - 0x30 ≤ 9 := by
        have := h.1
        simp only [isDigit, Bool.and_eq_true, decide_eq_true_eq, UInt8.le_iff_toNat_le] at this
        have hmax : (0x39 : UInt8).toNat = 0x39 := rfl
        omega
      have := ih (10 * n + (c.toNat - 0x30)) h.2
      rw [foldl_cons, length_cons, Nat.pow_succ]
      refine this.trans_le ?_
      rw [Nat.mul_comm (10 ^ s.length) 10, ← Nat.mul_assoc]
      exact Nat.mul_le_mul_right _ (by omega)
  have := hstep s 0 h
  rwa [Nat.zero_add, Nat.one_mul] at this

theorem atoin_digits {n : Nat} (h : Digits n s) (hn : n ≤ 4) : atoin s = number s := by
  have hcast : ∀ (s : Bytes) (n : Nat), s.all isDigit = true →
      s.foldl (fun n c => 10 * n + ((c.toNat : Int) - 0x30)) (n : Int) =
        ((s.foldl (fun n c => 10 * n + (c.toNat - 0x30)) n : Nat) : Int) := by
    intro s
    induction s with
    | nil => intro n _; rfl
    | cons c s ih =>
      intro n h
      rw [all_cons, Bool.and_eq_true] at h
      have hc : 0x30 ≤ c.toNat := by
        have := h.1
        simp only [isDigit, Bool.and_eq_true, decide_eq_true_eq, UInt8.le_iff_toNat_le] at this
        exact this.1
      rw [foldl_cons, foldl_cons, ← ih _ h.2]
      congr 1
      omega
  have hlt : number s < 10 ^ 4 := (number_lt h.2).trans_le (Nat.pow_le_pow_right (by omega) (by rw [h.1]; exact hn))
  rw [atoin, if_pos h.2]
  have := hcast s 0 h.2
  rw [Int.ofNat_zero] at this
  rw [this, gint, ← number]
  refine Int.bmod_eq_of_le ?_ ?_ <;> omega

theorem atoin_not_digits (h : s.all isDigit = false) : atoin s = -1 := by
  rw [atoin, if_neg (by rw [h]; exact Bool.false_ne_true)]

/-! ## The date -/

theorem length_of_fields {bounds : List (Nat × Nat)} {fields : List Bytes} (h : Fields bounds fields) :
    fields.flatten.length = 2 * fields.length ∧ fields.length ≤ bounds.length ∧
      fields.flatten.all isDigit = true := by
  induction bounds generalizing fields with
  | nil =>
    cases fields with
    | nil => exact ⟨rfl, Nat.le_refl _, rfl⟩
    | cons f fields => exact h.elim
  | cons b bounds ih =>
    cases fields with
    | nil => exact ⟨rfl, Nat.zero_le _, rfl⟩
    | cons f fields =>
      obtain ⟨hlength, hle, hall⟩ := ih h.2
      rw [flatten_cons, length_append, length_cons, length_cons, hlength, h.1.1.1,
        all_append, h.1.1.2, hall]
      exact ⟨by omega, by omega, rfl⟩

/-- The fields behind the year, as the numbers that they are. -/
def readFields (data : Bytes) (e : Nat) : List (Nat × Nat) → Nat → List Int × Nat
  | [], p => ([], p)
  | b :: bounds, p =>
    let r := readField data e 2 id b.1 p
    let rest := readFields data e bounds r.2
    (r.1 :: rest.1, rest.2)

def Within (b : Nat × Nat) (v : Int) : Prop := b.1 ≤ v ∧ v ≤ b.2

/-- The fields are in their ranges and come to the end of the digits, if these are fields. -/
theorem readFields_iff {bounds : List (Nat × Nat)} (hbounds : ∀ b ∈ bounds, b.1 ≤ b.2) {e p : Nat}
    (he : e ≤ data.length) (hdigits : (data.take e).all isDigit = true) (hp : p ≤ e) :
    (List.Forall₂ Within bounds (readFields data e bounds p).1 ∧ (readFields data e bounds p).2 = e) ↔
      ∃ fields, (data.take e).drop p = fields.flatten ∧ Fields bounds fields := by
  induction bounds generalizing p with
  | nil =>
    rw [readFields]
    have hend : p = e ↔ (data.take e).drop p = [] := by
      rw [drop_eq_nil_iff, length_take]
      omega
    constructor
    · rintro ⟨-, h⟩
      exact ⟨[], hend.1 h, trivial⟩
    · rintro ⟨fields, h, hfields⟩
      cases fields with
      | nil => exact ⟨List.Forall₂.nil, hend.2 h⟩
      | cons f fields => exact hfields.elim
  | cons b bounds ih =>
    have hrest : ∀ b ∈ bounds, b.1 ≤ b.2 := fun c hc => hbounds c (mem_cons_of_mem b hc)
    rw [readFields]
    by_cases hmore : p + 2 ≤ e
    · -- two digits are there, and make the field
      have hfirst : (data.drop p).take 2 = ((data.take e).drop p).take 2 := by
        rw [drop_take, take_take, Nat.min_eq_left (by omega)]
      have hsplit : (data.drop p).take 2 ++ (data.take e).drop (p + 2) = (data.take e).drop p := by
        rw [hfirst, ← drop_drop, take_append_drop]
      have hpair : Digits 2 ((data.drop p).take 2) := by
        refine ⟨by rw [length_take, length_drop]; omega, ?_⟩
        rw [hfirst]
        refine all_eq_true.2 fun c hc => all_eq_true.1 hdigits c ?_
        exact mem_of_mem_drop (mem_of_mem_take hc)
      have hih := ih hrest (p := p + 2) hmore
      rw [readField, if_pos hmore]
      dsimp only [id]
      rw [atoin_digits hpair (by omega), forall₂_cons, and_assoc, hih]
      constructor
      · rintro ⟨hwithin, fields, hflat, hfields⟩
        refine ⟨(data.drop p).take 2 :: fields, ?_, ⟨hpair, ?_⟩, hfields⟩
        · rw [flatten_cons, ← hflat, hsplit]
        · exact ⟨Int.ofNat_le.1 hwithin.1, Int.ofNat_le.1 hwithin.2⟩
      · rintro ⟨fields, hflat, hfields⟩
        cases fields with
        | nil =>
          rw [← hsplit, flatten_nil, append_eq_nil_iff] at hflat
          have := hpair.1
          rw [hflat.1] at this
          cases this
        | cons f fields =>
          rw [← hsplit, flatten_cons] at hflat
          obtain ⟨hf, htail⟩ := append_inj hflat (hpair.1.trans hfields.1.1.1.symm)
          rw [hf]
          exact ⟨⟨Int.ofNat_le.2 hfields.1.2.1, Int.ofNat_le.2 hfields.1.2.2⟩, fields, htail, hfields.2⟩
    · -- with one digit or none there are no fields
      have hshort : ((data.take e).drop p).length < 2 := by
        rw [length_drop, length_take]
        omega
      rw [readField, if_neg hmore]
      rw [forall₂_cons, and_assoc, ih hrest hp]
      have hnil : ∀ {bounds : List (Nat × Nat)} {fields : List Bytes},
          (data.take e).drop p = fields.flatten → Fields bounds fields → fields = [] := by
        intro bounds fields hflat hfields
        have := (length_of_fields hfields).1
        rw [← hflat] at this
        exact length_eq_zero_iff.1 (by omega)
      constructor
      · rintro ⟨-, fields, hflat, hfields⟩
        obtain rfl := hnil hflat hfields
        exact ⟨[], hflat, trivial⟩
      · rintro ⟨fields, hflat, hfields⟩
        obtain rfl := hnil hflat hfields
        refine ⟨⟨Int.le_refl _, ?_⟩, [], hflat, ?_⟩
        · exact Int.ofNat_le.2 (hbounds b mem_cons_self)
        · cases bounds <;> trivial

theorem readField_shift (data : Bytes) (e digits : Nat) (field : Int → Int) (unset : Int) (p : Nat) :
    readField data e digits field (field unset) p =
      (field (readField data e digits id unset p).1, (readField data e digits id unset p).2) := by
  rw [readField, readField]
  by_cases h : p + digits ≤ e
  · rw [if_pos h, if_pos h]
    rfl
  · rw [if_neg h, if_neg h]

/-- The date is in its ranges and is all that the digits are, if it is a date that may be cut off. -/
theorem readDate_iff {e : Nat} (he : e ≤ data.length) (hdigits : (data.take e).all isDigit = true)
    (hyear : fmt.yearDigits ≤ 4) :
    ((readDate fmt data e).1.InRange ∧ (readDate fmt data e).2 = e) ↔ LooseDate fmt (data.take e) := by
  have hlength : (data.take e).length = e := by
    rw [length_take]
    omega
  have hbounds : ∀ b ∈ dateBounds, b.1 ≤ b.2 := by decide
  have hmonth : ∀ p, readField data e 2 (· - 1) 0 p =
      ((readField data e 2 id 1 p).1 - 1, (readField data e 2 id 1 p).2) :=
    fun p => readField_shift data e 2 (· - 1) 1 p
  -- the fields behind a year that ends at `p`
  have hfields : ∀ p ≤ e, ∀ year : Int, readField data e fmt.yearDigits fmt.tmYear 0 0 = (year, p) →
      ((readDate fmt data e).1.InRange ∧ (readDate fmt data e).2 = e ↔
        (0 ≤ year ∧ year ≤ 9999) ∧
          ∃ fields, (data.take e).drop p = fields.flatten ∧ Fields dateBounds fields) := by
    intro p hp year hread
    have hnil : List.Forall₂ Within [] [] := List.Forall₂.nil
    rw [← readFields_iff hbounds he hdigits hp, readDate, hread, hmonth]
    simp only [dateBounds, readFields, forall₂_cons, hnil, Within, Tm.InRange, Nat.cast_zero, Nat.cast_one, and_true]
    omega
  by_cases hlong : fmt.yearDigits ≤ e
  · have hsplit : data.take fmt.yearDigits ++ (data.take e).drop fmt.yearDigits = data.take e := by
      rw [← Nat.min_eq_left hlong, ← take_take, Nat.min_eq_left hlong, take_append_drop]
    have hdigit : Digits fmt.yearDigits (data.take fmt.yearDigits) := by
      refine ⟨by rw [length_take]; omega, ?_⟩
      rw [← hsplit, all_append, Bool.and_eq_true] at hdigits
      exact hdigits.1
    have hread : readField data e fmt.yearDigits fmt.tmYear 0 0 =
        (fmt.tmYear (number (data.take fmt.yearDigits)), fmt.yearDigits) := by
      rw [readField, if_pos (by omega), drop_zero, atoin_digits hdigit hyear, Nat.zero_add]
    rw [hfields _ hlong _ hread]
    constructor
    · rintro ⟨hfits, fields, hflat, hin⟩
      exact ⟨_, fields, by rw [← hflat, hsplit], hin, .inl ⟨hdigit, hfits⟩⟩
    · rintro ⟨year, fields, hflat, hin, ⟨hdigits', hfits⟩ | ⟨-, hshort⟩⟩
      · rw [← hsplit] at hflat
        obtain ⟨rfl, hrest⟩ := append_inj hflat (hdigit.1.trans hdigits'.1.symm)
        exact ⟨hfits, fields, hrest, hin⟩
      · omega
  · have hread : readField data e fmt.yearDigits fmt.tmYear 0 0 = (0, 0) := by
      rw [readField, if_neg (by omega)]
    rw [hfields 0 (Nat.zero_le _) 0 hread, drop_zero]
    constructor
    · rintro ⟨-, fields, hflat, hin⟩
      exact ⟨[], fields, hflat, hin, .inr ⟨rfl, by omega⟩⟩
    · rintro ⟨year, fields, hflat, hin, ⟨hdigits', -⟩ | ⟨rfl, -⟩⟩
      · have := congrArg List.length hflat
        rw [length_append, hdigits'.1] at this
        omega
      · exact ⟨by omega, fields, hflat, hin⟩

/-! ## The zone -/

/-- What is behind a fraction. -/
def afterFraction (s : Bytes) : Bytes := if s.head? = some 0x2e ∧ 5 ≤ s.length then s.drop 5 else s

theorem drop_eq_cons {p : Nat} {c : UInt8} {rest : Bytes} (h : data.drop p = c :: rest) :
    peek data p = .ok c ∧ p < data.length := by
  have hlt : p < data.length := by
    by_contra hge
    rw [drop_eq_nil_of_le (by omega)] at h
    cases h
  rw [drop_eq_getElem_cons hlt] at h
  rw [peek, getElem?_eq_getElem hlt]
  exact ⟨congrArg Except.ok (List.cons.inj h).1, hlt⟩

/-- The cursor behind a fraction, which stands at what is behind the fraction. -/
theorem skipFraction_eq {p : Nat} (hp : p ≤ content.length) :
    ∃ p', skipFraction (content ++ beyond) content.length p = .ok p' ∧ p' ≤ content.length ∧
      content.drop p' = afterFraction (content.drop p) := by
  rw [skipFraction]
  cases hs : content.drop p with
  | nil =>
    have : content.length ≤ p := drop_eq_nil_iff.1 hs
    rw [if_neg (by omega)]
    exact ⟨p, rfl, hp, hs⟩
  | cons c rest =>
    have hlength := congrArg List.length hs
    rw [length_drop, length_cons] at hlength
    have hpeek : peek (content ++ beyond) p = .ok c := by
      have hdrop : (content ++ beyond).drop p = c :: (rest ++ beyond) := by
        rw [drop_append_of_le_length hp, hs]
        rfl
      exact (drop_eq_cons hdrop).1
    rw [if_pos (by omega), hpeek, ok_bind, afterFraction, head?_cons]
    by_cases hfraction : c = 0x2e ∧ p + 5 ≤ content.length
    · have hlong : 5 ≤ (c :: rest).length := by
        rw [length_cons]
        omega
      refine ⟨p + 5, by rw [if_pos hfraction]; rfl, hfraction.2, ?_⟩
      rw [if_pos ⟨congrArg some hfraction.1, hlong⟩, ← hs, drop_drop]
    · refine ⟨p, by rw [if_neg hfraction]; rfl, hp, ?_⟩
      rw [if_neg, hs]
      rintro ⟨hc, hlong⟩
      rw [length_cons] at hlong
      exact hfraction ⟨Option.some.inj hc, by omega⟩

/-- What is returned for the zone, and the offset. -/
def zoneValue : Bytes → Int × Int
  | [] => (1, 0)
  | c :: rest =>
    if c = 0x5a then (if rest = [] then 1 else 0, 0)
    else
      match rest with
      | a :: b :: rest =>
        if c = 0x2d ∨ c = 0x2b then
          let off := atoin [a, b] * 3600
          if off < 0 ∨ off > 86400 then (-1, 0)
          else
            let off := if 2 ≤ rest.length then off + atoin (rest.take 2) * 60 else off
            (if rest.length = 0 ∨ rest.length = 2 then 1 else 0, if c = 0x2d then 0 - off else off)
        else (0, 0)
      | _ => (0, 0)

/-- The hours, and the minutes where two characters are left. -/
theorem readZone_eq {q : Nat} {c a b : UInt8} {rest : Bytes} (hs : content.drop q = c :: a :: b :: rest)
    (hq : q ≤ content.length) :
    readZone (content ++ beyond) content.length q (c == 0x2d) =
      if atoin [a, b] * 3600 < 0 ∨ atoin [a, b] * 3600 > 86400 then (-1, 0)
      else
        (if rest.length = 0 ∨ rest.length = 2 then 1 else 0,
          if c = 0x2d then
            0 - if 2 ≤ rest.length then atoin [a, b] * 3600 + atoin (rest.take 2) * 60 else atoin [a, b] * 3600
          else if 2 ≤ rest.length then atoin [a, b] * 3600 + atoin (rest.take 2) * 60 else atoin [a, b] * 3600) := by
  have hlength := congrArg List.length hs
  rw [length_drop, length_cons, length_cons, length_cons] at hlength
  have hdrop : ∀ k ≤ 3, (content ++ beyond).drop (q + k) = (c :: a :: b :: rest).drop k ++ beyond := by
    intro k hk
    rw [drop_append_of_le_length (by omega), ← hs, drop_drop]
  have hhours : ((content ++ beyond).drop (q + 1)).take 2 = [a, b] := by
    rw [hdrop 1 (by omega)]
    rfl
  have hminutes : 2 ≤ rest.length → ((content ++ beyond).drop (q + 3)).take 2 = rest.take 2 := by
    intro h
    rw [hdrop 3 (by omega)]
    exact take_append_of_le_length h
  have hmore : q + 3 + 2 ≤ content.length ↔ 2 ≤ rest.length := by omega
  rw [readZone, hhours]
  by_cases hoff : atoin [a, b] * 3600 < 0 ∨ atoin [a, b] * 3600 > 86400
  · rw [if_pos hoff, if_pos hoff]
  · rw [if_neg hoff, if_neg hoff]
    simp only [hmore, beq_iff_eq]
    by_cases htwo : 2 ≤ rest.length
    · have hend : q + 3 + 2 = content.length ↔ rest.length = 0 ∨ rest.length = 2 := by omega
      simp only [if_pos htwo, hminutes htwo, hend]
    · have hend : q + 3 = content.length ↔ rest.length = 0 ∨ rest.length = 2 := by omega
      simp only [if_neg htwo, hend]

/-- The cursor is looked at, and behind the contents where these are at their end. -/
theorem readOffset_eq {q : Nat} (hq : q ≤ content.length) :
    readOffset (content ++ beyond) content.length q =
      if content.drop q = [] ∧ beyond = [] then .error .outOfBounds else .ok (zoneValue (content.drop q)) := by
  have hdrop : (content ++ beyond).drop q = content.drop q ++ beyond := drop_append_of_le_length hq
  have hlength : (content.drop q).length = content.length - q := length_drop
  cases hs : content.drop q with
  | nil =>
    rw [hs, length_nil] at hlength
    rw [hs, nil_append] at hdrop
    have hend : q = content.length := by omega
    have hutc : isUtc (content ++ beyond) content.length q = .ok false := if_neg (by omega)
    cases beyond with
    | nil =>
      have hnone : peek (content ++ []) q = .error .outOfBounds := by
        rw [peek, getElem?_eq_none (by rw [append_nil]; omega)]
      rw [if_pos ⟨rfl, rfl⟩, readOffset, hutc, ok_bind, if_neg Bool.false_ne_true, hnone]
      rfl
    | cons b beyond =>
      rw [if_neg fun h => cons_ne_nil _ _ h.2, readOffset, hutc, ok_bind, if_neg Bool.false_ne_true,
        (drop_eq_cons hdrop).1, ok_bind, if_neg fun h => absurd h.2 (by omega), if_pos hend]
      rfl
  | cons c rest =>
    rw [hs] at hdrop hlength
    rw [length_cons] at hlength
    have hpeek := (drop_eq_cons hdrop).1
    have hutc : isUtc (content ++ beyond) content.length q = .ok (c == 0x5a) := by
      rw [isUtc, if_pos (by omega), hpeek]
      rfl
    rw [if_neg fun h => cons_ne_nil _ _ h.1, readOffset, hutc, hpeek, ok_bind, ok_bind, zoneValue.eq_def]
    dsimp only
    by_cases hz : c = 0x5a
    · have hrest : q + 1 = content.length ↔ rest = [] := by
        rw [← length_eq_zero_iff]
        omega
      rw [if_pos (beq_iff_eq.2 hz), if_pos hz]
      simp only [hrest]
      rfl
    · rw [if_neg (fun h => hz (beq_iff_eq.1 h)), if_neg hz]
      have hend : q ≠ content.length := by omega
      cases rest with
      | nil =>
        rw [length_nil] at hlength
        rw [if_neg fun h => absurd h.2 (by omega), if_neg hend]
        rfl
      | cons a rest =>
        cases rest with
        | nil =>
          rw [length_singleton] at hlength
          rw [if_neg fun h => absurd h.2 (by omega), if_neg hend]
          rfl
        | cons b rest =>
          rw [length_cons, length_cons] at hlength
          have hthree : q + 3 ≤ content.length := by omega
          dsimp only
          by_cases hsign : c = 0x2d ∨ c = 0x2b
          · rw [if_pos ⟨hsign, hthree⟩, if_pos hsign, readZone_eq hs hq]
            rfl
          · rw [if_neg fun h => hsign h.1, if_neg hsign, if_neg hend]
            rfl

/-- The fraction is passed over, and the zone read. -/
theorem readRest_eq {p : Nat} (hp : p ≤ content.length) :
    readRest (content ++ beyond) content.length p =
      if afterFraction (content.drop p) = [] ∧ beyond = [] then .error .outOfBounds
      else .ok (zoneValue (afterFraction (content.drop p))) := by
  obtain ⟨q, hskip, hq, hafter⟩ := @skipFraction_eq content beyond p hp
  rw [readRest, hskip, ok_bind, ← hafter, readOffset_eq hq]

theorem field_iff {lo hi : Nat} {s : Bytes} (hlength : s.length = 2) :
    Field lo hi s ↔ s.all isDigit = true ∧ lo ≤ number s ∧ number s ≤ hi :=
  ⟨fun h => ⟨h.1.2, h.2⟩, fun h => ⟨⟨hlength, h.1⟩, h.2⟩⟩

/-- What is taken for a zone. -/
theorem zoneValue_iff (s : Bytes) : (zoneValue s).1 ≠ 0 ↔ LooseZone s := by
  rw [zoneValue.eq_def, LooseZone]
  cases s with
  | nil => exact iff_of_true (by decide) (.inl rfl)
  | cons c rest =>
    dsimp only
    by_cases hz : c = 0x5a
    · subst hz
      have hsign : ¬ IsSign 0x5a := by unfold IsSign; decide
      rw [if_pos rfl]
      by_cases hrest : rest = []
      · rw [if_pos hrest, hrest]
        exact iff_of_true (by decide) (.inr (.inl rfl))
      · rw [if_neg hrest]
        refine iff_of_false (not_not.2 rfl) ?_
        rintro (h | h | ⟨sign, a, b, r, h, hs, -⟩)
        · cases h
        · exact hrest (List.cons.inj h).2
        · exact hsign ((List.cons.inj h).1 ▸ hs)
    · rw [if_neg hz]
      have hshort : ∀ rest, (∀ a b r, rest ≠ a :: b :: r) → ¬ LooseZone (c :: rest) := by
        rintro rest hrest (h | h | ⟨sign, a, b, r, h, -⟩)
        · cases h
        · exact hz (List.cons.inj h).1
        · exact hrest a b r (List.cons.inj h).2
      cases rest with
      | nil => exact iff_of_false (not_not.2 rfl) (hshort [] fun a b r h => by cases h)
      | cons a rest =>
        cases rest with
        | nil => exact iff_of_false (not_not.2 rfl) (hshort [a] fun a b r h => by cases h)
        | cons b rest =>
          dsimp only
          have hloose : LooseZone (c :: a :: b :: rest) ↔
              IsSign c ∧ (¬ Field 0 24 [a, b] ∨ rest.length = 0 ∨ rest.length = 2) := by
            constructor
            · rintro (h | h | ⟨sign, a', b', r, h, hs⟩)
              · cases h
              · cases h
              · cases h
                exact hs
            · exact fun h => .inr (.inr ⟨c, a, b, rest, rfl, h⟩)
          rw [← LooseZone, hloose]
          by_cases hsign : c = 0x2d ∨ c = 0x2b
          · rw [if_pos hsign]
            have hfield : (atoin [a, b] * 3600 < 0 ∨ atoin [a, b] * 3600 > 86400) ↔ ¬ Field 0 24 [a, b] := by
              rw [field_iff rfl]
              by_cases hdigits : [a, b].all isDigit = true
              · rw [atoin_digits (n := 2) ⟨rfl, hdigits⟩ (by omega)]
                simp only [hdigits, true_and]
                omega
              · rw [atoin_not_digits (Bool.eq_false_iff.2 hdigits)]
                exact iff_of_true (.inl (by decide)) fun h => hdigits h.1
            by_cases hoff : atoin [a, b] * 3600 < 0 ∨ atoin [a, b] * 3600 > 86400
            · rw [if_pos hoff]
              exact iff_of_true (by decide) ⟨hsign, .inl (hfield.1 hoff)⟩
            · rw [if_neg hoff]
              dsimp only
              have hin := fun h => hoff (hfield.2 h)
              by_cases hend : rest.length = 0 ∨ rest.length = 2
              · rw [if_pos hend]
                exact iff_of_true (by decide) ⟨hsign, .inr hend⟩
              · rw [if_neg hend]
                exact iff_of_false (not_not.2 rfl) fun h => h.2.elim hin hend
          · rw [if_neg hsign]
            exact iff_of_false (not_not.2 rfl) fun h => hsign h.1

/-- The seconds of a zone, as it is written. -/
def zoneSeconds : Bytes → Int
  | sign :: zone =>
    let off : Int := number (zone.take 2) * 3600 + number (zone.drop 2) * 60
    if sign = 0x2d then -off else if sign = 0x2b then off else 0
  | [] => 0

/-- A zone is taken as what it is written. -/
theorem zoneValue_of_isZone (h : IsZone s) : zoneValue s = (1, zoneSeconds s) := by
  rcases h with rfl | rfl | ⟨sign, hours, minutes, rfl, hsign, hhours, hminutes, hlt⟩
  · rfl
  · rfl
  · obtain ⟨a, b, rfl⟩ := length_eq_two.1 hhours.1
    have hz : sign ≠ 0x5a := by
      rintro rfl
      exact absurd hsign (by unfold IsSign; decide)
    have hoff : ¬ ((number [a, b] : Int) * 3600 < 0 ∨ (number [a, b] : Int) * 3600 > 86400) := by omega
    have hend : minutes.length = 0 ∨ minutes.length = 2 :=
      hminutes.imp (fun h => by rw [h]; rfl) fun h => h.1
    have hminute : (if 2 ≤ minutes.length then (number [a, b] : Int) * 3600 + atoin (minutes.take 2) * 60
        else (number [a, b] : Int) * 3600) = number [a, b] * 3600 + number minutes * 60 := by
      rcases hminutes with rfl | hdigits
      · exact (Int.add_zero _).symm
      · rw [if_pos hdigits.1.ge, take_of_length_le hdigits.1.le, atoin_digits hdigits (by omega)]
    rw [zoneValue.eq_def]
    dsimp only [cons_append, nil_append]
    rw [atoin_digits hhours (by omega)]
    rw [if_neg hz, if_pos (show sign = 0x2d ∨ sign = 0x2b from hsign), if_neg hoff, if_pos hend, hminute]
    refine congrArg (Prod.mk 1) ?_
    show _ = if sign = 0x2d then -((number [a, b] : Int) * 3600 + number minutes * 60)
      else if sign = 0x2b then (number [a, b] : Int) * 3600 + number minutes * 60 else 0
    by_cases hneg : sign = 0x2d
    · rw [if_pos hneg, if_pos hneg, Int.zero_sub]
    · rw [if_neg hneg, if_neg hneg, if_pos (hsign.resolve_left hneg)]

/-! ## The tail -/

theorem looseZone_of_isZone (h : IsZone s) : LooseZone s := by
  rw [← zoneValue_iff, zoneValue_of_isZone h]
  exact Int.one_ne_zero

theorem looseZone_head (h : LooseZone s) : s.head? ≠ some 0x2e := by
  rcases h with rfl | rfl | ⟨sign, a, b, rest, rfl, hsign, -⟩
  · decide
  · decide
  · rintro h
    cases h
    exact absurd hsign (by unfold IsSign; decide)

/-- What is behind a fraction of any four characters is looked at as a zone. -/
theorem looseTail_iff : LooseTail s ↔ LooseZone (afterFraction s) := by
  rw [afterFraction]
  constructor
  · rintro ⟨fraction, zone, rfl, rfl | ⟨a, b, c, d, rfl⟩, hzone⟩
    · rwa [nil_append, if_neg fun h => looseZone_head hzone h.1]
    · rwa [if_pos ⟨rfl, by rw [length_append]; exact Nat.le_add_right 5 _⟩]
  · intro h
    by_cases hfraction : s.head? = some 0x2e ∧ 5 ≤ s.length
    · rw [if_pos hfraction] at h
      refine ⟨s.take 5, s.drop 5, (take_append_drop 5 s).symm, .inr ?_, h⟩
      cases s with
      | nil => cases hfraction.1
      | cons x rest =>
        obtain ⟨hhead, hlength⟩ := hfraction
        cases hhead
        rw [length_cons] at hlength
        obtain ⟨a, b, c, d, hfour⟩ := length_eq_four.1 (show (rest.take 4).length = 4 by
          rw [length_take]
          omega)
        exact ⟨a, b, c, d, congrArg (List.cons 0x2e) hfour⟩
    · rw [if_neg hfraction] at h
      exact ⟨[], s, rfl, .inl rfl, h⟩

theorem afterFraction_eq_nil_iff (h : s ≠ []) : afterFraction s = [] ↔ LooseFraction s := by
  rw [afterFraction]
  constructor
  · intro hnil
    by_cases hfraction : s.head? = some 0x2e ∧ 5 ≤ s.length
    · rw [if_pos hfraction, drop_eq_nil_iff] at hnil
      cases s with
      | nil => exact absurd rfl h
      | cons x rest =>
        obtain ⟨hhead, hlength⟩ := hfraction
        cases hhead
        rw [length_cons] at hlength hnil
        obtain ⟨a, b, c, d, rfl⟩ := length_eq_four.1 (show rest.length = 4 by omega)
        exact ⟨a, b, c, d, rfl⟩
    · rw [if_neg hfraction] at hnil
      exact absurd hnil h
  · rintro ⟨a, b, c, d, rfl⟩
    rfl

/-- The zone of a tail is behind its fraction. -/
theorem isTail_zone (h : IsTail s) : IsZone (afterFraction s) := by
  obtain ⟨fraction, zone, rfl, rfl | ⟨digits, rfl, hdigits⟩, hzone⟩ := h
  · rw [nil_append, afterFraction, if_neg fun h => looseZone_head (looseZone_of_isZone hzone) h.1]
    exact hzone
  · obtain ⟨a, b, c, d, rfl⟩ := length_eq_four.1 hdigits.1
    rw [afterFraction, if_pos ⟨rfl, by rw [length_append]; exact Nat.le_add_right 5 _⟩]
    exact hzone

/-- A tail does not begin with a digit, and is not long. -/
theorem isTail_head (h : IsTail s) : (∀ c, s.head? = some c → isDigit c = false) ∧ s.length ≤ 10 := by
  obtain ⟨fraction, zone, rfl, hfraction, hzone⟩ := h
  have hzonehead : (∀ c, zone.head? = some c → isDigit c = false) ∧ zone.length ≤ 5 := by
    rcases hzone with rfl | rfl | ⟨sign, hours, minutes, rfl, hsign, hhours, hminutes, -⟩
    · exact ⟨fun c h => (by cases h), by decide⟩
    · exact ⟨fun c h => (by cases h; rfl), by decide⟩
    · refine ⟨fun c h => ?_, ?_⟩
      · cases h
        rcases hsign with rfl | rfl <;> rfl
      · have hlength : minutes.length ≤ 2 := by
          rcases hminutes with rfl | h
          · exact Nat.zero_le _
          · exact h.1.le
        rw [length_cons, length_append, hhours.1]
        omega
  rcases hfraction with rfl | ⟨digits, rfl, hdigits⟩
  · exact ⟨hzonehead.1, by rw [nil_append]; omega⟩
  · refine ⟨fun c h => (by cases h; rfl), ?_⟩
    rw [length_append, length_cons, hdigits.1]
    omega

/-! ## Contents -/

/-- The digits end at the first character that is none, wherever it stands. -/
theorem digitsEnd_eq (data : Bytes) (e : Nat) :
    digitsEnd data e =
      if data.all isDigit = true then .error .outOfBounds else .ok (e + (data.takeWhile isDigit).length) := by
  induction data generalizing e with
  | nil => rfl
  | cons c data ih =>
    rw [digitsEnd, all_cons, takeWhile_cons]
    by_cases hc : isDigit c = true
    · rw [if_pos hc, if_pos hc, ih, hc, Bool.true_and, length_cons]
      by_cases hall : data.all isDigit = true
      · rw [if_pos hall, if_pos hall]
      · rw [if_neg hall, if_neg hall]
        congr 1
        omega
    · rw [if_neg hc, if_neg hc, if_neg (by rw [Bool.eq_false_iff.2 hc]; exact Bool.false_ne_true)]
      rfl

theorem isDate_digits {date : Bytes} (h : IsDate fmt date) :
    date.all isDigit = true ∧ fmt.yearDigits + 4 ≤ date.length ∧ date.length ≤ fmt.yearDigits + 10 := by
  obtain ⟨year, fields, rfl, hyear, htwo, hfields⟩ := h
  obtain ⟨hlength, hle, hall⟩ := length_of_fields hfields
  have hfive : dateBounds.length = 5 := rfl
  rw [all_append, hyear.2, hall, length_append, hyear.1]
  exact ⟨rfl, by omega, by omega⟩

/-- The digits that contents begin with are the date, and what is behind them is the tail. -/
theorem digitsOf_append {date tail : Bytes} (hdate : IsDate fmt date) (htail : IsTail tail) :
    digitsOf (date ++ tail) = date ∧ tailOf (date ++ tail) = tail := by
  have hall := all_eq_true.1 (isDate_digits hdate).1
  have hnone : tail.takeWhile isDigit = [] ∧ tail.dropWhile isDigit = tail := by
    cases tail with
    | nil => exact ⟨rfl, rfl⟩
    | cons c tail =>
      have hc := (isTail_head htail).1 c rfl
      rw [takeWhile_cons, dropWhile_cons, hc]
      exact ⟨rfl, rfl⟩
  rw [digitsOf, tailOf, takeWhile_append_of_pos hall, dropWhile_append_of_pos hall, hnone.1, hnone.2,
    append_nil]
  exact ⟨rfl, rfl⟩

theorem grammar_iff : Grammar fmt content ↔ IsDate fmt (digitsOf content) ∧ IsTail (tailOf content) := by
  constructor
  · rintro ⟨date, tail, rfl, hdate, htail⟩
    obtain ⟨hdigits, hrest⟩ := digitsOf_append hdate htail
    rw [hdigits, hrest]
    exact ⟨hdate, htail⟩
  · exact fun h => ⟨_, _, takeWhile_append_dropWhile.symm, h.1, h.2⟩

/-- What both formats have: the limits leave room for the longest text and none for less than a date. -/
structure TimeFormat.Sound (fmt : TimeFormat) : Prop where
  year : fmt.yearDigits ≤ 4
  least : fmt.least = fmt.yearDigits + 4
  most : fmt.yearDigits + 20 < fmt.most

theorem grammar_length (hfmt : fmt.Sound) (h : Grammar fmt content) :
    fmt.least ≤ content.length ∧ content.length < fmt.most := by
  obtain ⟨date, tail, rfl, hdate, htail⟩ := h
  obtain ⟨-, hleast, hmost⟩ := isDate_digits hdate
  have htail := (isTail_head htail).2
  have := hfmt.least
  have := hfmt.most
  rw [length_append]
  omega

/-- A date of some length is not cut off. -/
theorem isDate_of_loose (h : LooseDate fmt s) (hlength : fmt.yearDigits + 4 ≤ s.length) :
    IsDate fmt s ∧ YearFits fmt (s.take fmt.yearDigits) := by
  obtain ⟨year, fields, rfl, hfields, ⟨hyear, hfits⟩ | ⟨rfl, hshort⟩⟩ := h
  · rw [length_append, hyear.1, (length_of_fields hfields).1] at hlength
    rw [take_left' hyear.1]
    exact ⟨⟨year, fields, rfl, hyear, by omega, hfields⟩, hfits⟩
  · omega

theorem loose_of_isDate (h : IsDate fmt s) (hfits : YearFits fmt (s.take fmt.yearDigits)) : LooseDate fmt s := by
  obtain ⟨year, fields, rfl, hyear, -, hfields⟩ := h
  rw [take_left' hyear.1] at hfits
  exact ⟨year, fields, rfl, hfields, .inl ⟨hyear, hfits⟩⟩

theorem take_digitsOf (h : fmt.yearDigits ≤ (digitsOf content).length) :
    (digitsOf content).take fmt.yearDigits = content.take fmt.yearDigits := by
  have hsplit : digitsOf content ++ tailOf content = content := takeWhile_append_dropWhile
  rw [← take_append_of_le_length h, hsplit]

/-! ## The parsers -/

/-- What is behind the digits is read if these are a date that may be cut off. -/
theorem parseTime_eq (hfmt : fmt.Sound) {n : Nat} (hleast : fmt.least ≤ n) (hmost : n < fmt.most)
    (hend : data.all isDigit = false) :
    (LooseDate fmt (digitsOf data) →
        parseTime fmt n data = (readRest data n (digitsOf data).length).map fun rest =>
          { ret := rest.1, tm := (readDate fmt data (digitsOf data).length).1, offset := rest.2 }) ∧
      (¬ LooseDate fmt (digitsOf data) → ∃ parsed, parseTime fmt n data = .ok parsed ∧ parsed.ret = 0) := by
  have hscanned : data.take (digitsOf data).length = digitsOf data :=
    (prefix_iff_eq_take.1 ( takeWhile_prefix isDigit)).symm
  have hle : (digitsOf data).length ≤ data.length := ( takeWhile_prefix isDigit).length_le
  have hdate := @readDate_iff data fmt (digitsOf data).length hle (by rw [hscanned]; exact all_takeWhile) hfmt.year
  rw [hscanned] at hdate
  have hscan : digitsEnd data 0 = .ok (digitsOf data).length := by
    rw [digitsEnd_eq, if_neg (by rw [hend]; exact Bool.false_ne_true), Nat.zero_add]
    rfl
  rw [← hdate, parseTime, if_neg (by omega), hscan, ok_bind]
  constructor
  · rintro ⟨hin, hall⟩
    rw [if_neg (not_not.2 hin), if_neg (not_not.2 hall), hall]
    cases readRest data n (digitsOf data).length with
    | error fault => rfl
    | ok rest => rfl
  · intro hnot
    by_cases hin : (readDate fmt data (digitsOf data).length).1.InRange
    · rw [if_neg (not_not.2 hin), if_pos fun hall => hnot ⟨hin, hall⟩]
      exact ⟨_, rfl, rfl⟩
    · rw [if_pos hin]
      exact ⟨_, rfl, rfl⟩

/-- The date of a time is taken, if the year fits. -/
theorem looseDate_iff (h : Grammar fmt content) :
    LooseDate fmt (digitsOf content) ↔ YearFits fmt (content.take fmt.yearDigits) := by
  have hdate := (grammar_iff.1 h).1
  have hlength := (isDate_digits hdate).2.1
  rw [← take_digitsOf (by omega : fmt.yearDigits ≤ (digitsOf content).length)]
  exact ⟨fun hloose => (isDate_of_loose hloose hlength).2, loose_of_isDate hdate⟩

theorem drop_digitsOf (content : Bytes) : content.drop (digitsOf content).length = tailOf content := by
  have hsplit : digitsOf content ++ tailOf content = content := takeWhile_append_dropWhile
  nth_rewrite 2 [← hsplit]
  exact drop_left

/-- With something behind the digits, what is behind the contents makes no difference to them. -/
theorem digits_of_tail (htail : tailOf content ≠ []) (beyond : Bytes) :
    (content ++ beyond).all isDigit = false ∧ digitsOf (content ++ beyond) = digitsOf content := by
  have hsplit : digitsOf content ++ tailOf content = content := takeWhile_append_dropWhile
  have hnotall : content.all isDigit = false := by
    rw [Bool.eq_false_iff]
    exact fun h => htail (dropWhile_eq_nil_iff.2 (all_eq_true.1 h))
  refine ⟨by rw [all_append, hnotall, Bool.false_and], ?_⟩
  rw [digitsOf, takeWhile_append, if_neg]
  · rfl
  · intro hlength
    have := congrArg List.length hsplit
    rw [length_append] at this
    exact htail (length_eq_zero_iff.1 (by rw [digitsOf] at this; omega))

/-- Contents with something behind the digits. -/
theorem right_of_tail (hfmt : fmt.Sound) (hleast : fmt.least ≤ content.length) (hmost : content.length < fmt.most)
    (htail : tailOf content ≠ []) :
    Right (parseTime fmt) fmt content beyond ↔
      ¬ ((Grammar fmt content ∧ ¬ YearFits fmt (content.take fmt.yearDigits)) ∨
        (LooseDate fmt (digitsOf content) ∧
          (LooseTail (tailOf content) ∧ ¬ Grammar fmt content ∨ LooseFraction (tailOf content) ∧ beyond = []))) := by
  have hle : (digitsOf content).length ≤ content.length := ( takeWhile_prefix isDigit).length_le
  have hdrop := drop_digitsOf content
  obtain ⟨hdata, hdigits⟩ := digits_of_tail htail beyond
  obtain ⟨hloose, hnot⟩ := @parseTime_eq (content ++ beyond) fmt hfmt content.length hleast hmost hdata
  rw [hdigits] at hloose hnot
  rw [Right]
  by_cases hdate : LooseDate fmt (digitsOf content)
  · have hfits : ¬ (Grammar fmt content ∧ ¬ YearFits fmt (content.take fmt.yearDigits)) :=
      fun h => h.2 ((looseDate_iff h.1).1 hdate)
    rw [hloose hdate, readRest_eq hle, hdrop]
    by_cases hfault : afterFraction (tailOf content) = [] ∧ beyond = []
    · -- the cursor is at the end of the memory
      rw [if_pos hfault]
      refine iff_of_false ?_ fun h => h (.inr ⟨hdate, .inr ⟨?_, hfault.2⟩⟩)
      · rintro ⟨parsed, hparsed, -⟩
        cases hparsed
      · exact (afterFraction_eq_nil_iff htail).1 hfault.1
    · rw [if_neg hfault]
      have hzone := zoneValue_iff (afterFraction (tailOf content))
      rw [← looseTail_iff] at hzone
      have hone : Grammar fmt content → (zoneValue (afterFraction (tailOf content))).1 = 1 :=
        fun h => congrArg Prod.fst (zoneValue_of_isZone (isTail_zone (grammar_iff.1 h).2))
      constructor
      · rintro ⟨parsed, hparsed, -, hzero⟩ (h | ⟨-, ⟨hlooseTail, hgrammar⟩ | ⟨hfraction, hbeyond⟩⟩)
        · exact hfits h
        · cases hparsed
          exact hzone.2 hlooseTail (hzero.2 hgrammar)
        · exact hfault ⟨(afterFraction_eq_nil_iff htail).2 hfraction, hbeyond⟩
      · intro hread
        refine ⟨_, rfl, ⟨fun h => ?_, hone⟩, fun h hgrammar => ?_, fun h => ?_⟩
        · by_contra hgrammar
          refine hread (.inr ⟨hdate, .inl ⟨hzone.1 ?_, hgrammar⟩⟩)
          exact fun hzero => Int.one_ne_zero (h.symm.trans hzero)
        · exact Int.one_ne_zero ((hone hgrammar).symm.trans h)
        · by_contra hret
          exact hread (.inr ⟨hdate, .inl ⟨hzone.1 hret, h⟩⟩)
  · obtain ⟨parsed, hparse, hret⟩ := hnot hdate
    rw [hparse]
    constructor
    · rintro ⟨_, hsame, -, hzero⟩ (⟨hgrammar, -⟩ | ⟨h, -⟩)
      · cases hsame
        exact hzero.1 hret hgrammar
      · exact hdate h
    · intro hread
      have hgrammar : ¬ Grammar fmt content :=
        fun h => hread (.inl ⟨h, fun hfits => hdate ((looseDate_iff h).2 hfits)⟩)
      refine ⟨parsed, rfl, iff_of_false ?_ hgrammar, iff_of_true hret hgrammar⟩
      rw [hret]
      exact Int.zero_ne_one

/-- A cursor that has come behind the contents does not come back. -/
theorem readRest_behind {n p : Nat} (hn : n < p) (hp : p < data.length) : readRest data n p = .ok (0, 0) := by
  have hskip : skipFraction data n p = .ok p := if_neg (by omega)
  have hutc : isUtc data n p = .ok false := if_neg (by omega)
  have hpeek := (drop_eq_cons (drop_eq_getElem_cons hp)).1
  rw [readRest, hskip, ok_bind, readOffset, hutc, ok_bind, if_neg Bool.false_ne_true, hpeek, ok_bind,
    if_neg fun h => absurd h.2 (by omega), if_neg (by omega)]
  rfl

/-- Contents that are all digits end where the first character behind them is none. -/
theorem right_of_digits (hfmt : fmt.Sound) (hleast : fmt.least ≤ content.length) (hmost : content.length < fmt.most)
    (hall : content.all isDigit = true) :
    Right (parseTime fmt) fmt content beyond ↔
      ¬ ((Grammar fmt content ∧ ¬ YearFits fmt (content.take fmt.yearDigits)) ∨
        (beyond.all isDigit = true ∨ Grammar fmt content ∧ ∃ c, beyond.head? = some c ∧ isDigit c = true)) := by
  have hcontent := all_eq_true.1 hall
  have hself : digitsOf content = content := takeWhile_eq_self_iff.2 hcontent
  have hdigits : digitsOf (content ++ beyond) = content ++ digitsOf beyond :=
    takeWhile_append_of_pos hcontent
  rw [Right]
  by_cases hbeyond : beyond.all isDigit = true
  · -- the scan runs out of the memory
    refine iff_of_false ?_ fun h => h (.inr (.inl hbeyond))
    rintro ⟨parsed, hparsed, -⟩
    rw [parseTime, if_neg (by omega), digitsEnd_eq, all_append, hall, hbeyond] at hparsed
    cases hparsed
  · have hdata : (content ++ beyond).all isDigit = false := by
      rw [all_append, Bool.eq_false_iff.2 hbeyond, Bool.and_false]
    have hstop : (digitsOf (content ++ beyond)).length < (content ++ beyond).length := by
      refine lt_of_le_of_ne ( takeWhile_prefix isDigit).length_le fun hlength => ?_
      have hscanned := ( takeWhile_prefix (l := content ++ beyond) isDigit).eq_of_length hlength
      rw [all_eq_true.2 (takeWhile_eq_self_iff.1 hscanned)] at hdata
      cases hdata
    obtain ⟨hloose, hnot⟩ := @parseTime_eq (content ++ beyond) fmt hfmt content.length hleast hmost hdata
    cases hfirst : digitsOf beyond with
    | nil =>
      rw [hdigits, hfirst, append_nil] at hloose hnot
      have hhead : ¬ ∃ c, beyond.head? = some c ∧ isDigit c = true := by
        rintro ⟨c, hc, hdigit⟩
        cases beyond with
        | nil => cases hc
        | cons b beyond =>
          cases hc
          rw [digitsOf, takeWhile_cons, if_pos hdigit] at hfirst
          cases hfirst
      have hne : beyond ≠ [] := by
        rintro rfl
        exact hbeyond rfl
      by_cases hdate : LooseDate fmt content
      · have hgrammar : Grammar fmt content := by
          have hdate' := (isDate_of_loose hdate (by rw [← hfmt.least]; exact hleast)).1
          exact ⟨content, [], (append_nil _).symm, hdate', [], [], rfl, .inl rfl, .inl rfl⟩
        have hfits := (looseDate_iff hgrammar).1 (by rwa [hself])
        have hrest : readRest (content ++ beyond) content.length content.length = .ok (1, 0) := by
          rw [readRest_eq (Nat.le_refl _), drop_length, if_neg fun h => hne h.2]
          rfl
        rw [hloose hdate, hrest]
        refine iff_of_true ⟨_, rfl, iff_of_true rfl hgrammar, iff_of_false Int.one_ne_zero (not_not.2 hgrammar)⟩ ?_
        rintro (h | h | h)
        · exact h.2 hfits
        · exact hbeyond h
        · exact hhead h.2
      · obtain ⟨parsed, hparse, hret⟩ := hnot hdate
        rw [hparse]
        constructor
        · rintro ⟨_, hsame, -, hzero⟩ (⟨hgrammar, -⟩ | h | h)
          · cases hsame
            exact hzero.1 hret hgrammar
          · exact hbeyond h
          · exact hhead h.2
        · intro hread
          have hgrammar : ¬ Grammar fmt content := by
            refine fun h => hread (.inl ⟨h, fun hfits => hdate ?_⟩)
            have := (looseDate_iff h).2 hfits
            rwa [hself] at this
          refine ⟨parsed, rfl, iff_of_false ?_ hgrammar, iff_of_true hret hgrammar⟩
          rw [hret]
          exact Int.zero_ne_one
    | cons b digits =>
      -- more digits are there than contents
      have hhead : ∃ c, beyond.head? = some c ∧ isDigit c = true := by
        cases beyond with
        | nil => cases hfirst
        | cons c beyond =>
          refine ⟨c, rfl, ?_⟩
          by_contra hc
          rw [digitsOf, takeWhile_cons, if_neg hc] at hfirst
          cases hfirst
      have hret : ∃ parsed, parseTime fmt content.length (content ++ beyond) = .ok parsed ∧ parsed.ret = 0 := by
        by_cases hdate : LooseDate fmt (digitsOf (content ++ beyond))
        · refine ⟨⟨0, (readDate fmt (content ++ beyond) (digitsOf (content ++ beyond)).length).1, 0⟩, ?_, rfl⟩
          rw [hloose hdate, readRest_behind (p := (digitsOf (content ++ beyond)).length) ?_ hstop]
          · rfl
          · rw [hdigits, hfirst, length_append, length_cons]
            omega
        · exact hnot hdate
      obtain ⟨parsed, hparse, hret⟩ := hret
      rw [hparse]
      constructor
      · rintro ⟨_, hsame, -, hzero⟩ h
        cases hsame
        rcases h with h | h | h
        · exact hzero.1 hret h.1
        · exact hbeyond h
        · exact hzero.1 hret h.1
      · intro hread
        have hgrammar : ¬ Grammar fmt content := fun h => hread (.inr (.inr ⟨h, hhead⟩))
        refine ⟨parsed, rfl, iff_of_false ?_ hgrammar, iff_of_true hret hgrammar⟩
        rw [hret]
        exact Int.zero_ne_one

theorem right_iff (hfmt : fmt.Sound) (content beyond : Bytes) :
    Right (parseTime fmt) fmt content beyond ↔ ¬ Misread fmt content beyond := by
  rw [Misread]
  by_cases hlength : fmt.least ≤ content.length ∧ content.length < fmt.most
  · obtain ⟨hleast, hmost⟩ := hlength
    by_cases htail : tailOf content = []
    · have hall : content.all isDigit = true := all_eq_true.2 (dropWhile_eq_nil_iff.1 htail)
      rw [right_of_digits hfmt hleast hmost hall]
      simp only [hleast, hmost, htail, ne_eq, not_true_eq_false, true_and, false_and, or_false]
    · rw [right_of_tail hfmt hleast hmost htail]
      simp only [hleast, hmost, htail, ne_eq, not_false_eq_true, true_and, false_and, false_or]
  · have hgrammar : ¬ Grammar fmt content := fun h => hlength (grammar_length hfmt h)
    refine iff_of_true ⟨{ ret := 0 }, if_pos (by omega), ?_, ?_⟩ fun h => hlength h.1
    · exact iff_of_false Int.zero_ne_one hgrammar
    · exact iff_of_true rfl hgrammar

theorem sound_utcFormat (clock : Clock) : (utcFormat clock).Sound :=
  ⟨(by decide : 2 ≤ 4), rfl, (by decide : 2 + 20 < 28)⟩

theorem sound_generalFormat : generalFormat.Sound :=
  ⟨(by decide : 4 ≤ 4), rfl, (by decide : 4 + 20 < 30)⟩

/-- The years of a `GeneralizedTime` begin with 1900. -/
theorem yearFits_general {year : Bytes} (h : Digits 4 year) : YearFits generalFormat year ↔ 1900 ≤ number year := by
  have hlt := number_lt h.2
  rw [h.1] at hlt
  have hyear : generalFormat.tmYear (number year) = (number year : Int) - 1900 := rfl
  rw [YearFits, hyear]
  omega

/-- Two digits are a year from 39 years before the current one to 60 years after it. -/
theorem twoToFourDigitYear_window (clock : Clock) {year : Nat} (h : year ≤ 99) :
    twoToFourDigitYear clock year % 100 = year ∧ (clock.tmYear + 1900 : Int) - 40 < twoToFourDigitYear clock year ∧
      twoToFourDigitYear clock year ≤ clock.tmYear + 1900 + 60 := by
  have hlow : ¬ ((year : Int) < 0 ∨ 99 < (year : Int)) := by omega
  rw [twoToFourDigitYear, if_neg hlow]
  dsimp only
  split
  · omega
  · split
    · omega
    · split
      · omega
      · split
        · omega
        · omega

/-- Those of a `UTCTime` do after the epoch, whatever the date is. -/
theorem yearFits_utc (clock : Clock) {year : Bytes} (h : Digits 2 year) : YearFits (utcFormat clock) year := by
  have hlt := number_lt h.2
  rw [h.1] at hlt
  obtain ⟨-, hlow, hhigh⟩ := @twoToFourDigitYear_window clock (number year) (by omega)
  have hyear : (utcFormat clock).tmYear (number year) = twoToFourDigitYear clock (number year) - 1900 := rfl
  have := clock.epoch
  have := clock.digits
  rw [YearFits, hyear]
  omega

/-- Whatever stands behind the contents, `parse_utc_time` and `parse_general_time` return `TRUE` for the contents of a
time and `FALSE` for others, unless the contents are misread. -/
theorem time_syntax_iff (clock : Clock) (content beyond : Bytes) :
    (Right (parseUtcTime clock) (utcFormat clock) content beyond ↔ ¬ Misread (utcFormat clock) content beyond) ∧
      (Right parseGeneralTime generalFormat content beyond ↔ ¬ Misread generalFormat content beyond) :=
  ⟨right_iff (sound_utcFormat clock) content beyond, right_iff sound_generalFormat content beyond⟩

/-- A date of the year 2025. -/
def sampleClock : Clock := ⟨125, by decide, by decide⟩

/-- `200101` is a time or not by what is behind it, and `.1234Z` is one without a date. -/
theorem time_syntax_fails :
    (parseUtcTime sampleClock 6 (ascii "200101" ++ [0x30, 0])).map Parsed.ret = .ok 0 ∧
      (parseUtcTime sampleClock 6 (ascii "200101" ++ [0])).map Parsed.ret = .ok 1 ∧
      ¬ (Right (parseUtcTime sampleClock) (utcFormat sampleClock) (ascii "200101") [0x30, 0] ∧
        Right (parseUtcTime sampleClock) (utcFormat sampleClock) (ascii "200101") [0]) ∧
      (parseGeneralTime 11 (ascii "20200101+xx" ++ [0])).map Parsed.ret = .ok (-1) ∧
      ¬ Right parseGeneralTime generalFormat (ascii "20200101+xx") [0] := by
  have hzero : (parseUtcTime sampleClock 6 (ascii "200101" ++ [0x30, 0])).map Parsed.ret = .ok 0 := by decide
  have hone : (parseUtcTime sampleClock 6 (ascii "200101" ++ [0])).map Parsed.ret = .ok 1 := by decide
  have hneg : (parseGeneralTime 11 (ascii "20200101+xx" ++ [0])).map Parsed.ret = .ok (-1) := by decide
  refine ⟨hzero, hone, ?_, hneg, ?_⟩
  · rintro ⟨⟨p, hp, -, hfalse⟩, q, hq, htrue, -⟩
    have hp' : p.ret = 0 := by
      have := congrArg (Except.map Parsed.ret) hp
      exact Except.ok.inj (this.symm.trans hzero)
    have hq' : q.ret = 1 := by
      have := congrArg (Except.map Parsed.ret) hq
      exact Except.ok.inj (this.symm.trans hone)
    exact hfalse.1 hp' (htrue.1 hq')
  · rintro ⟨p, hp, htrue, hfalse⟩
    have hp' : p.ret = -1 := by
      have := congrArg (Except.map Parsed.ret) hp
      exact Except.ok.inj (this.symm.trans hneg)
    have hgrammar : Grammar generalFormat (ascii "20200101+xx") := by
      by_contra h
      rw [hfalse.2 h] at hp'
      cases hp'
    rw [htrue.2 hgrammar] at hp'
    cases hp'

end MateKeyring.Asn1x.Times
