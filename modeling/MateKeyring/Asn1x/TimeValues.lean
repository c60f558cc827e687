import MateKeyring.Asn1x.TimeSyntax

/-!
# The seconds of a time

What `egg_asn1x_get_time_as_long` gives for a time with its zone. The offset of the zone is added to the local time,
so that the signs of the zones are the other way round than X.680 has them; the tests of the parsers have times that
say so.
-/

set_option autoImplicit false

namespace MateKeyring.Asn1x.Times

open Lib List

variable {data year zone : Bytes} {fields : List Bytes} {fmt : TimeFormat} {clock : Clock}

/-! ## The fields -/

/-- A field, or what it is where it is left out. -/
def fieldOr (fields : List Bytes) (k unset : Nat) : Nat := ((fields[k]?).map number).getD unset

/-- The seconds of the date and time that are written, without the zone. -/
def localSeconds (year : Int) (fields : List Bytes) : Int :=
  secondsOf year (fieldOr fields 0 1) (fieldOr fields 1 1) (fieldOr fields 2 0) (fieldOr fields 3 0) (fieldOr fields 4 0)

/-- The instant that X.680 has for it: the local time less the offset of the zone. -/
def instant (year : Int) (fields : List Bytes) (zone : Bytes) : Int :=
  localSeconds year fields - zoneSeconds zone

/-- The numbers of the fields, and the least one for each that is left out. -/
def valuesOf : List (Nat × Nat) → List Bytes → List Int
  | [], _ => []
  | b :: bounds, [] => b.1 :: valuesOf bounds []
  | _ :: bounds, f :: fields => number f :: valuesOf bounds fields

theorem readFields_values {bounds : List (Nat × Nat)} {e p : Nat} (he : e ≤ data.length) (hp : p ≤ e)
    (hflat : (data.take e).drop p = fields.flatten) (hfields : Fields bounds fields) :
    readFields data e bounds p = (valuesOf bounds fields, e) := by
  induction bounds generalizing p fields with
  | nil =>
    cases fields with
    | nil =>
      rw [flatten_nil, drop_eq_nil_iff, length_take] at hflat
      rw [readFields, valuesOf, show p = e by omega]
    | cons f fields => exact hfields.elim
  | cons b bounds ih =>
    have hlength := congrArg List.length hflat
    rw [length_drop, length_take, (length_of_fields hfields).1] at hlength
    rw [readFields]
    cases fields with
    | nil =>
      rw [length_nil] at hlength
      rw [readField, if_neg (by omega), ih hp hflat (by cases bounds <;> trivial)]
      rfl
    | cons f fields =>
      rw [length_cons] at hlength
      have hpair := hfields.1.1
      have hfirst : (data.drop p).take 2 = f := by
        have htake := congrArg (List.take 2) hflat
        rw [drop_take, take_take, Nat.min_eq_left (by omega), flatten_cons,
          take_left' hpair.1] at htake
        exact htake
      have hrest : (data.take e).drop (p + 2) = fields.flatten := by
        rw [← drop_drop, hflat, flatten_cons, drop_left' hpair.1]
      rw [readField, if_pos (by omega), hfirst, atoin_digits hpair (by omega), ih (by omega) hrest hfields.2]
      rfl

/-- The broken down time of a year and fields. -/
def tmOf (tmYear : Int) (fields : List Bytes) : Tm where
  year := tmYear
  mon := fieldOr fields 0 1 - 1
  mday := fieldOr fields 1 1
  hour := fieldOr fields 2 0
  min := fieldOr fields 3 0
  sec := fieldOr fields 4 0

theorem valuesOf_cons (b : Nat × Nat) (bounds : List (Nat × Nat)) (fields : List Bytes) :
    valuesOf (b :: bounds) fields = (fieldOr fields 0 b.1 : Int) :: valuesOf bounds fields.tail := by
  cases fields with
  | nil => rfl
  | cons f fields => rfl

theorem fieldOr_tail (fields : List Bytes) (k unset : Nat) :
    fieldOr fields.tail k unset = fieldOr fields (k + 1) unset := by
  cases fields with
  | nil => rfl
  | cons f fields => rfl

theorem valuesOf_dateBounds (fields : List Bytes) :
    valuesOf dateBounds fields = [(fieldOr fields 0 1 : Int), (fieldOr fields 1 1 : Int), (fieldOr fields 2 0 : Int),
      (fieldOr fields 3 0 : Int), (fieldOr fields 4 0 : Int)] := by
  simp only [dateBounds, valuesOf_cons, valuesOf, fieldOr_tail]

theorem readDate_tm {e : Nat} (he : e ≤ data.length) (hyear : Digits fmt.yearDigits year) (hfour : fmt.yearDigits ≤ 4)
    (hflat : data.take e = year ++ fields.flatten) (hfields : Fields dateBounds fields) :
    (readDate fmt data e).1 = tmOf (fmt.tmYear (number year)) fields := by
  have hlength := congrArg List.length hflat
  rw [length_take, length_append, hyear.1] at hlength
  have hlong : fmt.yearDigits ≤ e := by omega
  have hfirst : data.take fmt.yearDigits = year := by
    have htake := congrArg (List.take fmt.yearDigits) hflat
    rwa [take_take, Nat.min_eq_left hlong, take_left' hyear.1] at htake
  have hrest : (data.take e).drop fmt.yearDigits = fields.flatten := by rw [hflat, drop_left' hyear.1]
  have hread : readField data e fmt.yearDigits fmt.tmYear 0 0 = (fmt.tmYear (number year), fmt.yearDigits) := by
    rw [readField, if_pos (by omega), drop_zero, hfirst, atoin_digits hyear hfour, Nat.zero_add]
  have hmonth : ∀ p, readField data e 2 (· - 1) 0 p =
      ((readField data e 2 id 1 p).1 - 1, (readField data e 2 id 1 p).2) :=
    fun p => readField_shift data e 2 (· - 1) 1 p
  have hvalues := congrArg Prod.fst (readFields_values he hlong hrest hfields)
  rw [valuesOf_dateBounds] at hvalues
  simp only [dateBounds, readFields, List.cons.injEq, Nat.cast_zero, Nat.cast_one] at hvalues
  obtain ⟨hmon, hmday, hhour, hmin, hsec, -⟩ := hvalues
  rw [readDate, hread, hmonth]
  simp only [tmOf, hmon, hmday, hhour, hmin, hsec]

/-- The first field is a month, so that it is one at least. -/
theorem timegm_tmOf (y : Int) (hfields : Fields dateBounds fields) :
    timegm (tmOf (y - 1900) fields) = localSeconds y fields := by
  have hmonth : 1 ≤ fieldOr fields 0 1 := by
    cases fields with
    | nil => exact Nat.le_refl 1
    | cons f fields => exact hfields.1.2.1
  have hmon : ((fieldOr fields 0 1 : Int) - 1).toNat + 1 = fieldOr fields 0 1 := by omega
  rw [timegm, localSeconds]
  dsimp only [tmOf]
  rw [hmon, Int.sub_add_cancel]
  rfl

/-! ## The contents -/

/-- A time with its zone is read as it is written. -/
theorem parseTime_time (hfmt : fmt.Sound) {content : Bytes}
    (hcontent : content = year ++ fields.flatten ++ zone) (hyear : Digits fmt.yearDigits year) (htwo : 2 ≤ fields.length)
    (hfields : Fields dateBounds fields) (hzone : IsZone zone) (hne : zone ≠ []) (beyond : Bytes) :
    (YearFits fmt year → parseTime fmt content.length (content ++ beyond) =
        .ok { ret := 1, tm := tmOf (fmt.tmYear (number year)) fields, offset := zoneSeconds zone }) ∧
      (¬ YearFits fmt year → ∃ parsed, parseTime fmt content.length (content ++ beyond) = .ok parsed ∧
        parsed.ret = 0) := by
  have hdate : IsDate fmt (year ++ fields.flatten) := ⟨year, fields, rfl, hyear, htwo, hfields⟩
  have htail : IsTail zone := ⟨[], zone, rfl, .inl rfl, hzone⟩
  have hgrammar : Grammar fmt content := ⟨_, zone, hcontent, hdate, htail⟩
  obtain ⟨hleast, hmost⟩ := grammar_length hfmt hgrammar
  obtain ⟨hdigits, hrest⟩ := digitsOf_append hdate htail
  rw [← hcontent] at hdigits hrest
  have hle : (digitsOf content).length ≤ content.length := ( takeWhile_prefix isDigit).length_le
  obtain ⟨hdata, hsame⟩ := digits_of_tail (by rw [hrest]; exact hne) beyond
  obtain ⟨hloose, hnot⟩ := @parseTime_eq (content ++ beyond) fmt hfmt content.length hleast hmost hdata
  have hfits : YearFits fmt (content.take fmt.yearDigits) ↔ YearFits fmt year := by
    rw [hcontent, append_assoc, take_left' hyear.1]
  rw [hsame, looseDate_iff hgrammar, hfits] at hloose hnot
  refine ⟨fun h => ?_, hnot⟩
  have hafter : afterFraction zone = zone := if_neg fun h => looseZone_head (looseZone_of_isZone hzone) h.1
  have hflat : (content ++ beyond).take (digitsOf content).length = year ++ fields.flatten := by
    rw [take_append_of_le_length hle, hdigits, hcontent, take_left]
  rw [hloose h, readRest_eq hle, drop_digitsOf, hrest, hafter, if_neg fun h => hne h.1, zoneValue_of_isZone hzone,
    readDate_tm (by rw [length_append]; omega) hyear hfmt.year hflat hfields]
  rfl

/-! ## The node -/

/-- The node that is the time: the node itself, or the one that was chosen. -/
def IsTimeOf (node time : Node) : Prop :=
  time.kind = .time ∧ (time = node ∨ node.kind = .choice ∧ eggAsn1xGetChoice node = some time)

theorem timeAsLong_of (clock : Clock) {node time : Node} (h : IsTimeOf node time) :
    eggAsn1xGetTimeAsLong clock node = timeAsLong clock time := by
  obtain ⟨hkind, rfl | ⟨hchoice, hchosen⟩⟩ := h
  · rw [eggAsn1xGetTimeAsLong, if_neg (by rw [hkind]; decide), if_pos hkind]
  · rw [eggAsn1xGetTimeAsLong, if_pos hchoice, hchosen]
    exact if_pos hkind

/-- A time that is written in full, with its zone, in the memory of a node. -/
structure Holds (node time : Node) (tlv : Atlv) (year : Bytes) (fields : List Bytes) (zone : Bytes) :
    Prop where
  isTime : IsTimeOf node time
  value : time.value = some tlv
  inside : tlv.off + tlv.len.toNat ≤ tlv.buf.length
  content : tlv.content = year ++ fields.flatten ++ zone
  fields : Fields dateBounds fields
  isZone : IsZone zone
  zone : zone ≠ []

/-- The date and time that are written are taken for UTC, and the offset of the zone is added: to that of a
`GeneralizedTime` from 1900 on, and to that of a `UTCTime` in the year with its two digits among the 39 before the
current one, this, and the 60 after it. -/
theorem time_as_long_right (clock : Clock) (node time : Node) (tlv : Atlv) (year zone : Bytes)
    (fields : List Bytes) (h : Holds node time tlv year fields zone) :
    (time.flags.generalized = true → Digits 4 year → fields.length = 5 →
        eggAsn1xGetTimeAsLong clock node =
          .ok (if 1900 ≤ number year then localSeconds (number year) fields + zoneSeconds zone else -1)) ∧
      (time.flags.generalized = false → time.flags.utc = true → Digits 2 year → 4 ≤ fields.length →
        ∃ y : Int, y % 100 = number year ∧ (clock.tmYear + 1900 : Int) - 40 < y ∧ y ≤ clock.tmYear + 1900 + 60 ∧
          eggAsn1xGetTimeAsLong clock node = .ok (localSeconds y fields + zoneSeconds zone)) := by
  have hsplit : tlv.buf.drop tlv.off = tlv.content ++ (tlv.buf.drop tlv.off).drop tlv.len.toNat :=
    (take_append_drop _ _).symm
  have hlength : tlv.content.length = tlv.len.toNat := by
    have := h.inside
    rw [Atlv.content, length_take, length_drop]
    omega
  have hread : eggAsn1xGetTimeAsLong clock node = (anodeReadTime clock time tlv).map (·.getD (-1)) := by
    rw [timeAsLong_of clock h.isTime, timeAsLong, h.value]
  constructor
  · intro hflag hyear hfive
    obtain ⟨hfits, hnot⟩ := parseTime_time sound_generalFormat h.content hyear (by omega) h.fields h.isZone
      h.zone ((tlv.buf.drop tlv.off).drop tlv.len.toNat)
    rw [yearFits_general hyear, hlength, ← hsplit] at hfits hnot
    rw [hread, anodeReadTime, if_pos hflag, parseGeneralTime]
    by_cases hepoch : 1900 ≤ number year
    · rw [hfits hepoch, if_pos hepoch, ← timegm_tmOf _ h.fields]
      rfl
    · obtain ⟨parsed, hparse, hret⟩ := hnot hepoch
      rw [hparse, if_neg hepoch, ok_bind]
      dsimp only
      rw [if_pos hret]
      rfl
  · intro hgeneral hutc hyear hfour
    obtain ⟨hfits, -⟩ := parseTime_time (sound_utcFormat clock) h.content hyear (by omega) h.fields h.isZone
      h.zone ((tlv.buf.drop tlv.off).drop tlv.len.toNat)
    rw [hlength, ← hsplit] at hfits
    have hlt := number_lt hyear.2
    rw [hyear.1] at hlt
    obtain ⟨hmod, hlow, hhigh⟩ := @twoToFourDigitYear_window clock (number year) (by omega)
    refine ⟨twoToFourDigitYear clock (number year), hmod, hlow, hhigh, ?_⟩
    rw [hread, anodeReadTime, if_neg (by rw [hgeneral]; exact Bool.false_ne_true), if_pos hutc, parseUtcTime,
      hfits (yearFits_utc clock hyear), ← timegm_tmOf _ h.fields]
    rfl

/-! ## A zone -/

/-- A `GeneralizedTime` with some contents. -/
def generalizedTime (content : Bytes) : Node :=
  .mk { row := { kind := .time, flags := { generalized := true } },
        tlv := some { cls := 0, tag := 24, off := 2, len := content.length,
                      buf := [0x18, UInt8.ofNat content.length] ++ content, size := content.length + 2 } } []

/-- Noon of the first of January 2000, one hour ahead of UTC. -/
def aheadTime : Bytes := ascii "20000101120000+0100"

theorem fields_aheadTime :
    Fields dateBounds [ascii "01", ascii "01", ascii "12", ascii "00", ascii "00"] := by
  have hfield : ∀ lo hi s, s.length = 2 → s.all isDigit = true → lo ≤ number s → number s ≤ hi → Field lo hi s :=
    fun lo hi s h1 h2 h3 h4 => ⟨⟨h1, h2⟩, h3, h4⟩
  refine ⟨?_, ?_, ?_, ?_, ?_, trivial⟩
  all_goals exact hfield _ _ _ (by decide) (by decide) (by decide) (by decide)

theorem isZone_ahead : IsZone (ascii "+0100") := by
  refine .inr (.inr ⟨0x2b, ascii "01", ascii "00", by decide, .inr rfl, ⟨by decide, by decide⟩,
    .inr ⟨by decide, by decide⟩, by decide⟩)

theorem holds_aheadTime : Holds (generalizedTime aheadTime) (generalizedTime aheadTime)
    { cls := 0, tag := 24, off := 2, len := aheadTime.length,
      buf := [0x18, UInt8.ofNat aheadTime.length] ++ aheadTime, size := aheadTime.length + 2 }
    (ascii "2000") [ascii "01", ascii "01", ascii "12", ascii "00", ascii "00"] (ascii "+0100") where
  isTime := ⟨rfl, .inl rfl⟩
  value := by decide
  inside := by decide
  content := by decide
  fields := fields_aheadTime
  isZone := isZone_ahead
  zone := by decide

theorem time_as_long_sample :
    eggAsn1xGetTimeAsLong sampleClock (generalizedTime aheadTime) =
      .ok (if 1900 ≤ number (ascii "2000") then
        localSeconds (number (ascii "2000")) [ascii "01", ascii "01", ascii "12", ascii "00", ascii "00"] +
          zoneSeconds (ascii "+0100") else -1) :=
  (time_as_long_right sampleClock (generalizedTime aheadTime) (generalizedTime aheadTime) _ (ascii "2000")
    (ascii "+0100") [ascii "01", ascii "01", ascii "12", ascii "00", ascii "00"] holds_aheadTime).1 rfl
    ⟨by decide, by decide⟩ rfl

/-- That is eleven in UTC, and the seconds are those of one. -/
theorem ahead_time_not_instant :
    eggAsn1xGetTimeAsLong sampleClock (generalizedTime aheadTime) = .ok 946731600 ∧
      instant 2000 [ascii "01", ascii "01", ascii "12", ascii "00", ascii "00"] (ascii "+0100") = 946724400 := by
  constructor
  · decide
  · decide

end MateKeyring.Asn1x.Times
