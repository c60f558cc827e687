import MateKeyring.Asn1x.Values

/-!
# Times

`parse_utc_time` and `parse_general_time`, and the seconds from the epoch that `egg_asn1x_get_time_as_long` makes of
what they have read. The two parsers do the same with other limits and another year. They look for the end of the
digits without the length of the contents, so that what they are given is the memory from the contents on.
-/

set_option autoImplicit false

namespace MateKeyring.Asn1x.Times

open Lib

/-! ## The broken down time -/

/-- `struct tm`. -/
structure Tm where
  year : Int := 0
  mon : Int := 0
  mday : Int := 1
  hour : Int := 0
  min : Int := 0
  sec : Int := 0
  deriving DecidableEq, Repr

/-- The `tm_year` of the date that `time` and `gmtime_r` give: it is after the epoch, and has four digits. -/
structure Clock where
  tmYear : Nat
  epoch : 70 ≤ tmYear
  digits : tmYear ≤ 8099

/-- `two_to_four_digit_year`. -/
def twoToFourDigitYear (clock : Clock) (year : Int) : Int :=
  if year < 0 ∨ 99 < year then -1
  else
    let current : Int := clock.tmYear % 100
    let century : Int := clock.tmYear + 1900 - current
    -- within 40 years before the current date
    if current < 40 ∧ year < current then century + year
    else if current < 40 ∧ year > 100 - (40 - current) then century - 100 + year
    else if ¬ current < 40 ∧ year < current ∧ year > current - 40 then century + year
    -- overflows to the next century
    else if year < current then century + 100 + year
    else century + year

/-! ## Parsing -/

/-- What a parser comes back with: what it returns, `when` and `offset`. -/
structure Parsed where
  ret : Int
  tm : Tm := {}
  offset : Int := 0
  deriving DecidableEq, Repr

/-- What the two parsers differ in: the limits of the length, the digits of the year, and the `tm_year` of it. -/
structure TimeFormat where
  least : Nat
  most : Nat
  yearDigits : Nat
  tmYear : Int → Int

/-- The loop that looks for the end of the digits, from `e` on. -/
def digitsEnd : Bytes → Nat → Checked Nat
  | [], _ => .error .outOfBounds
  | c :: rest, e => if isDigit c then digitsEnd rest (e + 1) else .ok e

/-- `if (p + digits <= e)`: a field and the cursor behind it, where the digits are there. -/
def readField (data : Bytes) (e digits : Nat) (field : Int → Int) (unset : Int) (p : Nat) : Int × Nat :=
  if p + digits ≤ e then (field (atoin ((data.drop p).take digits)), p + digits) else (unset, p)

/-- The fields, one after the other, and the cursor behind them. -/
def readDate (fmt : TimeFormat) (data : Bytes) (e : Nat) : Tm × Nat :=
  let year := readField data e fmt.yearDigits fmt.tmYear 0 0
  let mon := readField data e 2 (· - 1) 0 year.2
  let mday := readField data e 2 id 1 mon.2
  let hour := readField data e 2 id 0 mday.2
  let min := readField data e 2 id 0 hour.2
  let sec := readField data e 2 id 0 min.2
  ({ year := year.1, mon := mon.1, mday := mday.1, hour := hour.1, min := min.1, sec := sec.1 }, sec.2)

/-- The fields are in their ranges. -/
def Tm.InRange (tm : Tm) : Prop :=
  (0 ≤ tm.year ∧ tm.year ≤ 9999) ∧ (0 ≤ tm.mon ∧ tm.mon ≤ 11) ∧ (1 ≤ tm.mday ∧ tm.mday ≤ 31) ∧
    (0 ≤ tm.hour ∧ tm.hour ≤ 23) ∧ (0 ≤ tm.min ∧ tm.min ≤ 59) ∧ (0 ≤ tm.sec ∧ tm.sec ≤ 59)

instance (tm : Tm) : Decidable tm.InRange := by
  unfold Tm.InRange
  infer_instance

/-- A fraction is passed over. -/
def skipFraction (data : Bytes) (e p : Nat) : Checked Nat :=
  if p < e then do
    let c ← peek data p
    pure (if c = 0x2e ∧ p + 5 ≤ e then p + 5 else p)
  else .ok p

/-- The zone, from its sign on. -/
def readZone (data : Bytes) (e p : Nat) (neg : Bool) : Int × Int :=
  let off := atoin ((data.drop (p + 1)).take 2) * 3600
  if off < 0 ∨ off > 86400 then (-1, 0)
  else
    let p := p + 3
    let minutes := p + 2 ≤ e
    let off := if minutes then off + atoin ((data.drop p).take 2) * 60 else off
    let p := if minutes then p + 2 else p
    (if p = e then 1 else 0, if neg then 0 - off else off)

/-- `p < e && *p == 'Z'`. -/
def isUtc (data : Bytes) (e p : Nat) : Checked Bool :=
  if p < e then (peek data p).map (· == 0x5a) else .ok false

/-- `Z` or the zone: what is returned, and the offset. -/
def readOffset (data : Bytes) (e p : Nat) : Checked (Int × Int) := do
  if ← isUtc data e p then pure (if p + 1 = e then 1 else 0, 0)
  else do
    -- at the end of the contents this looks behind it
    let c ← peek data p
    if (c = 0x2d ∨ c = 0x2b) ∧ p + 3 ≤ e then pure (readZone data e p (c == 0x2d))
    else pure (if p = e then 1 else 0, 0)

/-- The optional stuff behind the digits. -/
def readRest (data : Bytes) (e p : Nat) : Checked (Int × Int) := do
  let p ← skipFraction data e p
  readOffset data e p

/-- What both parsers do. `data` is the memory from the contents on. -/
def parseTime (fmt : TimeFormat) (nTime : Nat) (data : Bytes) : Checked Parsed :=
  if nTime < fmt.least ∨ fmt.most ≤ nTime then .ok { ret := 0 }
  else do
    let e ← digitsEnd data 0
    let date := readDate fmt data e
    if ¬ date.1.InRange then pure { ret := 0, tm := date.1 }
    else if date.2 ≠ e then pure { ret := 0, tm := date.1 }
    else do
      let rest ← readRest data nTime date.2
      pure { ret := rest.1, tm := date.1, offset := rest.2 }

/-- Two digits of a year. -/
def utcFormat (clock : Clock) : TimeFormat where
  least := 6
  most := 28
  yearDigits := 2
  tmYear year := twoToFourDigitYear clock year - 1900

/-- Four digits of a year. -/
def generalFormat : TimeFormat where
  least := 8
  most := 30
  yearDigits := 4
  tmYear year := year - 1900

/-- `parse_utc_time`. -/
def parseUtcTime (clock : Clock) (nTime : Nat) (data : Bytes) : Checked Parsed :=
  parseTime (utcFormat clock) nTime data

/-- `parse_general_time`. -/
def parseGeneralTime (nTime : Nat) (data : Bytes) : Checked Parsed := parseTime generalFormat nTime data

/-! ## Seconds -/

def isLeapYear (year : Int) : Bool := year % 4 == 0 && (year % 100 != 0 || year % 400 == 0)

/-- The days of the months before the month, which is counted from zero. -/
def daysBeforeMonth (leap : Bool) (month : Nat) : Int :=
  (([31, if leap then 29 else 28, 31, 30, 31, 30, 31, 31, 30, 31, 30, 31] : List Int).take month).sum

/-- The days from the first of January 1970 to that of the year. -/
def daysBeforeYear (year : Int) : Int :=
  365 * (year - 1970) + ((year - 1969) / 4 - (year - 1901) / 100 + (year - 1601) / 400)

/-- The seconds from the epoch of a date and time in UTC, the month from one on. -/
def secondsOf (year : Int) (month day hour min sec : Nat) : Int :=
  (((daysBeforeYear year + daysBeforeMonth (isLeapYear year) (month - 1) + (day - 1)) * 24 + hour) * 60 + min) * 60 +
    sec

/-- `timegm`. -/
def timegm (tm : Tm) : Int :=
  secondsOf (tm.year + 1900) (tm.mon.toNat + 1) tm.mday.toNat tm.hour.toNat tm.min.toNat tm.sec.toNat

/-- `anode_read_time`, for a `time_t` of 64 bits; `none` is that it fails. -/
def anodeReadTime (clock : Clock) (node : Node) (tlv : Atlv) : Checked (Option Int) := do
  let data := tlv.buf.drop tlv.off
  let parsed ←
    if node.flags.generalized then parseGeneralTime tlv.len.toNat data
    else if node.flags.utc then parseUtcTime clock tlv.len.toNat data
    else .ok { ret := 0 }
  pure (if parsed.ret = 0 then none else some (timegm parsed.tm + parsed.offset))

/-- `egg_asn1x_get_choice`. -/
def eggAsn1xGetChoice (node : Node) : Option Node := node.children.find? fun child => child.an.chosen

/-- `egg_asn1x_get_time_as_long` of a node that is a time. -/
def timeAsLong (clock : Clock) (node : Node) : Checked Int :=
  match node.value with
  | none => .ok (-1)
  | some tlv => (anodeReadTime clock node tlv).map (·.getD (-1))

/-- `egg_asn1x_get_time_as_long`. -/
def eggAsn1xGetTimeAsLong (clock : Clock) (node : Node) : Checked Int :=
  if node.kind = .choice then
    match eggAsn1xGetChoice node with
    | none => .ok (-1)
    | some child => if child.kind = .time then timeAsLong clock child else .ok (-1)
  else if node.kind = .time then timeAsLong clock node
  else .ok (-1)

end MateKeyring.Asn1x.Times
