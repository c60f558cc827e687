import MateKeyring.Egg.Pkcs12
import MateKeyring.Gkm.Templates
import MateKeyring.Gkm.TimeText
import MateKeyring.Secret.FieldWire

/-!
# Setting attributes

The setters of `gkm-attributes.c` for the two calls of an application: the first has no buffer and
asks for the length, the second has one. Most of them are `gkm_attribute_set_data` of some octets
(`setData_convention`). The number of a checksum that does not fit has its length and not
`(CK_ULONG)-1`, a date or a time of a year with the wrong number of characters is cut or filled up,
and the elements of a template have buffers of their own (`setters_right_iff`).
-/

set_option autoImplicit false

namespace MateKeyring.Gkm.Setters

open Lib List
open Asn1x.Times (Tm)
open Egg (CString gcryMpiPrintUsg)
open Rpc (CkAttribute ckUnavailable memRead memRead_eq_ok ckrGeneralError)
open Secret (WireAttribute gkmAttributeSetData gkmUtilReturnData ckrOk ckrBufferTooSmall)

variable {template array : List CkAttribute} {time : Int}

/-! ## The setters -/

/-- `GChecksumType` -/
inductive GChecksumType where
  | md5
  | sha1
  | sha256
  | sha384
  | sha512
  deriving DecidableEq, Repr

/-- `g_checksum_type_get_length` -/
def GChecksumType.getLength : GChecksumType → Nat
  | .md5 => 16
  | .sha1 => 20
  | .sha256 => 32
  | .sha384 => 48
  | .sha512 => 64

/-- What GLib computes for a checksum. -/
structure Checksums where
  digest : GChecksumType → Bytes → Bytes
  length_digest : ∀ ctype data, (digest ctype data).length = ctype.getLength

/-- `gkm_attribute_set_bool` -/
def gkmAttributeSetBool (attr : WireAttribute) (value : UInt8) : Nat × WireAttribute :=
  gkmAttributeSetData attr [value]

/-- The octets of a `CK_ULONG`, the low one first. -/
def ulongOctets (value : UInt64) : Bytes := (BigEndian.encode 8 value.toNat).reverse

/-- `gkm_attribute_set_ulong` -/
def gkmAttributeSetUlong (attr : WireAttribute) (value : UInt64) : Nat × WireAttribute :=
  gkmAttributeSetData attr (ulongOctets value)

/-- `gkm_attribute_set_string`; a string may be null. -/
def gkmAttributeSetString (attr : WireAttribute) (string : Option CString) : Nat × WireAttribute :=
  gkmAttributeSetData attr ((string.map Subtype.val).getD [])

/-- The `CK_DATE` of `gkm_attribute_set_date`. -/
def ckDate (tm : Tm) : Bytes :=
  (snprintf 5 (zeroPadded 4 (cInt (1900 + tm.year)))).take 4 ++
    ((snprintf 3 (zeroPadded 2 (tm.mon + 1))).take 2 ++ (snprintf 3 (zeroPadded 2 tm.mday)).take 2)

/-- `gkm_attribute_set_date` -/
def gkmAttributeSetDate (attr : WireAttribute) (time : Int) : Nat × WireAttribute :=
  if time = -1 then gkmAttributeSetData attr []
  else if attr.pValue.isNone then (ckrOk, { attr with ulValueLen := 8 })
  else
    match gmtimeR time with
    | none => (ckrGeneralError, attr)
    | some tm => gkmAttributeSetData attr (ckDate tm)

/-- `buf` of `gkm_attribute_set_time` after `strftime`; `stack` is what it had before. -/
def timeBuffer (stack : Nat → UInt8) (text : Bytes) : Bytes :=
  text ++ 0 :: (List.range (19 - text.length)).map stack

/-- `gkm_attribute_set_time` -/
def gkmAttributeSetTime (stack : Nat → UInt8) (attr : WireAttribute) (time : Int) :
    Nat × WireAttribute :=
  if time = -1 then gkmAttributeSetData attr []
  else if attr.pValue.isNone then (ckrOk, { attr with ulValueLen := 16 })
  else
    match gmtimeR time with
    | none => (ckrGeneralError, attr)
    | some tm =>
      -- `strftime` returns 0 when there is no room for the null character
      if 20 ≤ (strftimeText (tm.year + 1900) tm).length then (ckrGeneralError, attr)
      else gkmAttributeSetData attr
        ((timeBuffer stack (strftimeText (tm.year + 1900) tm)).take 16)

/-- `gkm_attribute_set_mpi` -/
def gkmAttributeSetMpi (attr : WireAttribute) (mpi : Nat) : Nat × WireAttribute :=
  match attr.pValue with
  | none => (ckrOk, { attr with ulValueLen := (gcryMpiPrintUsg mpi).length })
  | some output =>
    if (gcryMpiPrintUsg mpi).length > attr.ulValueLen then
      (ckrBufferTooSmall, { attr with ulValueLen := ckUnavailable })
    else (ckrOk, { pValue := some (gcryMpiPrintUsg mpi ++ output.drop (gcryMpiPrintUsg mpi).length),
                   ulValueLen := (gcryMpiPrintUsg mpi).length })

/-- `gkm_attribute_set_checksum`; the data may be null. -/
def gkmAttributeSetChecksum (checksums : Checksums) (attr : WireAttribute) (ctype : GChecksumType)
    (data : Option Bytes) : Nat × WireAttribute :=
  match data with
  | none => (ckrGeneralError, attr)
  | some data =>
    if data = [] then (ckrGeneralError, attr)
    else
      match attr.pValue with
      | none => (ckrOk, { attr with ulValueLen := ctype.getLength })
      | some output =>
        if ctype.getLength > attr.ulValueLen then
          (ckrBufferTooSmall, { attr with ulValueLen := ctype.getLength })
        else (ckrOk, { pValue := some (checksums.digest ctype data ++ output.drop ctype.getLength),
                       ulValueLen := ctype.getLength })

/-! ### Templates -/

/-- A `CK_ATTRIBUTE` whose value is an array of attributes. -/
structure ArrayAttribute where
  pValue : Option (List CkAttribute)
  ulValueLen : Nat

/-- `memcpy` from the value of an element of the template. -/
def readValue (at' : CkAttribute) : Checked Bytes :=
  match at'.pValue with
  | none => if at'.ulValueLen = 0 then .ok [] else .error .nullPointer
  | some memory => memRead memory at'.ulValueLen

/-- One step of the loop of `gkm_attribute_set_template`: the element of the array, and whether its
buffer was long enough. -/
def setElement (at' element : CkAttribute) : Checked (CkAttribute × Bool) :=
  match element.pValue with
  | none => .ok ({ element with type := at'.type, ulValueLen := at'.ulValueLen }, true)
  | some output =>
    if element.ulValueLen < at'.ulValueLen then
      .ok ({ element with type := at'.type, ulValueLen := ckUnavailable }, false)
    else do
      let value ← readValue at'
      pure ({ type := at'.type, pValue := some (value ++ output.drop at'.ulValueLen),
              ulValueLen := at'.ulValueLen }, true)

/-- The loop of `gkm_attribute_set_template`. -/
def setElements : List CkAttribute → List CkAttribute → Nat → Checked (Nat × List CkAttribute)
  | [], array, rv => .ok (rv, array)
  | _ :: _, [], _ => .error .outOfBounds
  | at' :: template, element :: array, rv => do
      let (element, fits) ← setElement at' element
      let (rv, array) ← setElements template array (if fits then rv else ckrBufferTooSmall)
      pure (rv, element :: array)

/-- `gkm_attribute_set_template` -/
def gkmAttributeSetTemplate (attr : ArrayAttribute) (template : List CkAttribute) :
    Checked (Nat × ArrayAttribute) :=
  match attr.pValue with
  | none => .ok (ckrOk, { attr with ulValueLen := 24 * template.length })
  | some array =>
    if 24 * template.length > attr.ulValueLen then
      .ok (ckrBufferTooSmall, { attr with ulValueLen := ckUnavailable })
    else do
      let (rv, array) ← setElements template array ckrOk
      pure (rv, { pValue := some array, ulValueLen := 24 * template.length })

/-! ## The convention -/

/-- The answer for a value of some octets, in a first call without a buffer or a second one. -/
structure Convention (value : Bytes) (attr : WireAttribute) (r : Nat × WireAttribute) : Prop where
  query : attr.pValue = none → r = (ckrOk, ⟨none, value.length⟩)
  short : ∀ output, attr.pValue = some output → attr.ulValueLen < value.length →
    r = (ckrBufferTooSmall, ⟨some output, ckUnavailable⟩)
  written : ∀ output, attr.pValue = some output → value.length ≤ attr.ulValueLen →
    r = (ckrOk, ⟨some (value ++ output.drop value.length), value.length⟩)

/-- What is set. -/
inductive Value where
  | bool (value : UInt8)
  | ulong (value : UInt64)
  | string (text : Option CString)
  | date (when' : Int)
  | time (when' : Int)
  | data (value : Bytes)
  | mpi (mpi : Nat)
  | checksum (ctype : GChecksumType) (data : Option Bytes)

/-- The setter of a value. -/
def Value.set (checksums : Checksums) (stack : Nat → UInt8) (attr : WireAttribute) :
    Value → Nat × WireAttribute
  | .bool value => gkmAttributeSetBool attr value
  | .ulong value => gkmAttributeSetUlong attr value
  | .string text => gkmAttributeSetString attr text
  | .date when' => gkmAttributeSetDate attr when'
  | .time when' => gkmAttributeSetTime stack attr when'
  | .data value => gkmAttributeSetData attr value
  | .mpi n => gkmAttributeSetMpi attr n
  | .checksum ctype given => gkmAttributeSetChecksum checksums attr ctype given

/-- The octets of a value: those of a date or a time are the whole text of its format, and the time
`-1` has none. -/
def Value.octets (checksums : Checksums) : Value → Bytes
  | .bool value => [value]
  | .ulong value => ulongOctets value
  | .string text => (text.map Subtype.val).getD []
  | .date when' =>
    if when' = -1 then [] else zeroPadded 4 (yearOf when') ++ monthDay (tmOf when')
  | .time when' => if when' = -1 then [] else strftimeText (yearOf when') (tmOf when')
  | .data value => value
  | .mpi n => gcryMpiPrintUsg n
  | .checksum ctype given => checksums.digest ctype (given.getD [])

/-- An element of an array has the value of the template in its own buffer. -/
structure Put (at' element element' : CkAttribute) : Prop where
  type : element'.type = at'.type
  length : element'.ulValueLen = at'.ulValueLen
  octets : (element'.pValue.getD []).take at'.ulValueLen = (at'.pValue.getD []).take at'.ulValueLen
  rest : element'.pValue.map (·.drop at'.ulValueLen) = element.pValue.map (·.drop at'.ulValueLen)

/-- The first elements of an array have the values of the template. -/
def AllPut : List CkAttribute → List CkAttribute → List CkAttribute → Prop
  | [], array, array' => array' = array
  | at' :: template, element :: array, element' :: array' =>
    Put at' element element' ∧ AllPut template array array'
  | _, _, _ => False

/-- The answer for a template. -/
structure TemplateConvention (template : List CkAttribute) (attr : ArrayAttribute)
    (r : Checked (Nat × ArrayAttribute)) : Prop where
  query : attr.pValue = none → r = .ok (ckrOk, ⟨none, 24 * template.length⟩)
  short : ∀ array, attr.pValue = some array → attr.ulValueLen < 24 * template.length →
    r = .ok (ckrBufferTooSmall, ⟨some array, ckUnavailable⟩)
  written : ∀ array, attr.pValue = some array → 24 * template.length ≤ attr.ulValueLen →
    ∃ array', r = .ok (ckrOk, ⟨some array', 24 * template.length⟩) ∧ AllPut template array array'

/-! ## When it is kept -/

/-- The setter of the value does as the convention says. -/
def Value.Kept (attr : WireAttribute) : Value → Prop
  | .date when' =>
    when' = -1 ∨ DateYear (yearOf when') ∨
      (attr.pValue ≠ none ∧ attr.ulValueLen < 8 ∧ cInt (yearOf when' - 1900) = yearOf when' - 1900)
  | .time when' =>
    when' = -1 ∨ TimeYear (yearOf when') ∨
      (attr.pValue ≠ none ∧ attr.ulValueLen < 16 ∧
        attr.ulValueLen < 12 + (decimalInt (yearOf when')).length ∧
        (decimalInt (yearOf when')).length < 8)
  | .checksum ctype given =>
    (∃ octets, given = some octets ∧ octets ≠ []) ∧
      (attr.pValue = none ∨ ctype.getLength ≤ attr.ulValueLen)
  | _ => True

/-- There is room for an element of a template in an element of the array, or it is empty. -/
def Fits (at' element : CkAttribute) : Prop :=
  match element.pValue with
  | none => (at'.pValue.getD []).take at'.ulValueLen = []
  | some _ => at'.ulValueLen ≤ element.ulValueLen ∧ at'.ulValueLen ≤ (at'.pValue.getD []).length

/-- There is room for each element of the template. -/
def AllFit : List CkAttribute → List CkAttribute → Prop
  | [], _ => True
  | _ :: _, [] => False
  | at' :: template, element :: array => Fits at' element ∧ AllFit template array

/-- The setter of the template does as the convention says. -/
def TemplateKept (template : List CkAttribute) (attr : ArrayAttribute) : Prop :=
  ∀ array, attr.pValue = some array → 24 * template.length ≤ attr.ulValueLen → AllFit template array

/-! ## Octets -/

variable {attr : WireAttribute} {value : Bytes}

theorem ok_ne_tooSmall : ckrOk ≠ ckrBufferTooSmall := by decide

theorem generalError_ne_ok : ckrGeneralError ≠ ckrOk := by decide

theorem generalError_ne_tooSmall : ckrGeneralError ≠ ckrBufferTooSmall := by decide

theorem setData_convention (value : Bytes) (attr : WireAttribute) :
    Convention value attr (gkmAttributeSetData attr value) := by
  refine ⟨fun h => ?_, fun output h hshort => ?_, fun output h hroom => ?_⟩
  · simp [gkmAttributeSetData, gkmUtilReturnData, h, ckrOk, ckrBufferTooSmall]
  · simp [gkmAttributeSetData, gkmUtilReturnData, h, hshort, ckrBufferTooSmall, ckUnavailable]
  · simp [gkmAttributeSetData, gkmUtilReturnData, h, Nat.not_lt.2 hroom, ckrOk, ckrBufferTooSmall]

/-- The convention leaves no choice. -/
theorem Convention.unique {r r' : Nat × WireAttribute} (h : Convention value attr r)
    (h' : Convention value attr r') : r = r' := by
  cases hvalue : attr.pValue with
  | none => rw [h.query hvalue, h'.query hvalue]
  | some output =>
    by_cases hshort : attr.ulValueLen < value.length
    · rw [h.short output hvalue hshort, h'.short output hvalue hshort]
    · rw [h.written output hvalue (Nat.not_lt.1 hshort),
        h'.written output hvalue (Nat.not_lt.1 hshort)]

theorem convention_iff {r : Nat × WireAttribute} :
    Convention value attr r ↔ r = gkmAttributeSetData attr value := by
  constructor
  · exact fun h => h.unique (setData_convention value attr)
  · rintro rfl
    exact setData_convention value attr

theorem setMpi_eq (attr : WireAttribute) (mpi : Nat) :
    gkmAttributeSetMpi attr mpi = gkmAttributeSetData attr (gcryMpiPrintUsg mpi) := by
  apply convention_iff.1
  refine ⟨fun h => ?_, fun output h hshort => ?_, fun output h hroom => ?_⟩
  · simp [gkmAttributeSetMpi, h]
  · simp [gkmAttributeSetMpi, h, hshort]
  · simp [gkmAttributeSetMpi, h, Nat.not_lt.2 hroom]

/-- An answer with another length than that of the value. -/
theorem convention_of_length_ne {value' output : Bytes} (h : attr.pValue = some output)
    (hne : value'.length ≠ value.length) :
    Convention value attr (gkmAttributeSetData attr value') ↔
      attr.ulValueLen < value'.length ∧ attr.ulValueLen < value.length := by
  have hcode := setData_convention value' attr
  constructor
  · intro hright
    by_cases hshort : attr.ulValueLen < value.length
    · refine ⟨?_, hshort⟩
      by_contra hroom
      have heq := (hright.short output h hshort).symm.trans
        (hcode.written output h (Nat.not_lt.1 hroom))
      exact ok_ne_tooSmall (congrArg Prod.fst heq).symm
    · exfalso
      have hwritten := hright.written output h (Nat.not_lt.1 hshort)
      by_cases hshort' : attr.ulValueLen < value'.length
      · have heq := hwritten.symm.trans (hcode.short output h hshort')
        exact ok_ne_tooSmall (congrArg Prod.fst heq)
      · have heq := hwritten.symm.trans (hcode.written output h (Nat.not_lt.1 hshort'))
        exact hne (congrArg (fun r => r.2.ulValueLen) heq).symm
  · rintro ⟨hshort', hshort⟩
    rw [hcode.short output h hshort', ← (setData_convention value attr).short output h hshort]
    exact setData_convention value attr

theorem convention_query_iff {m n : Nat} :
    Convention value ⟨none, m⟩ (ckrOk, ⟨none, n⟩) ↔ value.length = n := by
  rw [convention_iff, (setData_convention value ⟨none, m⟩).query rfl]
  constructor
  · exact fun heq => (congrArg (fun r => r.2.ulValueLen) heq).symm
  · rintro rfl
    rfl

theorem not_convention_generalError : ¬ Convention value attr (ckrGeneralError, attr) := by
  intro hright
  cases hvalue : attr.pValue with
  | none => exact generalError_ne_ok (congrArg Prod.fst (hright.query hvalue))
  | some output =>
    by_cases hshort : attr.ulValueLen < value.length
    · exact generalError_ne_tooSmall (congrArg Prod.fst (hright.short output hvalue hshort))
    · exact generalError_ne_ok
        (congrArg Prod.fst (hright.written output hvalue (Nat.not_lt.1 hshort)))

/-! ## Checksums -/

theorem checksum_convention_iff (checksums : Checksums) (attr : WireAttribute)
    (ctype : GChecksumType) (data : Option Bytes) :
    Convention (checksums.digest ctype (data.getD [])) attr
        (gkmAttributeSetChecksum checksums attr ctype data) ↔
      (∃ octets, data = some octets ∧ octets ≠ []) ∧
        (attr.pValue = none ∨ ctype.getLength ≤ attr.ulValueLen) := by
  have hrefused : ∀ octets, ¬ Convention octets attr (ckrGeneralError, attr) :=
    fun _ => not_convention_generalError
  cases data with
  | none =>
    refine iff_of_false (hrefused _) ?_
    rintro ⟨⟨octets, hnone, -⟩, -⟩
    cases hnone
  | some octets =>
    rw [Option.getD_some]
    by_cases hempty : octets = []
    · rw [gkmAttributeSetChecksum, if_pos hempty]
      refine iff_of_false (hrefused _) ?_
      rintro ⟨⟨octets', hsome, hne⟩, -⟩
      cases hsome
      exact hne hempty
    · have hlength := checksums.length_digest ctype octets
      have hdata : ∃ octets', some octets = some octets' ∧ octets' ≠ [] := ⟨octets, rfl, hempty⟩
      rw [gkmAttributeSetChecksum, if_neg hempty]
      obtain ⟨_ | output, given⟩ := attr
      · exact iff_of_true (convention_query_iff.2 hlength) ⟨hdata, .inl rfl⟩
      · dsimp only
        by_cases hshort : ctype.getLength > given
        · rw [if_pos hshort]
          refine iff_of_false (fun hright => ?_) ?_
          · -- the length that is stored is not that of an attribute that is not available
            have heq := hright.short output rfl (lt_of_lt_of_eq hshort hlength.symm)
            have hstored : ctype.getLength = ckUnavailable := congrArg (fun r => r.2.ulValueLen) heq
            cases ctype <;> cases hstored
          · rintro ⟨-, hnone | hroom⟩
            · cases hnone
            · exact absurd hshort (Nat.not_lt.2 hroom)
        · rw [if_neg hshort]
          refine iff_of_true ?_ ⟨hdata, .inr (Nat.not_lt.1 hshort)⟩
          rw [convention_iff, (setData_convention _ _).written output rfl
            (hlength.le.trans (Nat.not_lt.1 hshort)), hlength]

/-! ## Dates and times -/

/-- `gkm_attribute_set_date` and `gkm_attribute_set_time` take a length for granted when they are
asked for it, and set what they have written, if they have. -/
def setTimed (attr : WireAttribute) (length : Nat) (written : Option Bytes) : Nat × WireAttribute :=
  if attr.pValue.isNone then (ckrOk, { attr with ulValueLen := length })
  else
    match written with
    | none => (ckrGeneralError, attr)
    | some value => gkmAttributeSetData attr value

theorem setTimed_convention_iff {length : Nat} {written : Option Bytes}
    (hlength : ∀ value', written = some value' → value'.length = length)
    (heq : value.length = length → written = some value) :
    Convention value attr (setTimed attr length written) ↔
      value.length = length ∨ (attr.pValue ≠ none ∧ attr.ulValueLen < length ∧
        attr.ulValueLen < value.length ∧ written.isSome = true) := by
  obtain ⟨_ | output, given⟩ := attr
  · refine (convention_query_iff (m := given)).trans ⟨.inl, ?_⟩
    rintro (h | ⟨hne, -⟩)
    · exact h
    · exact absurd rfl hne
  · by_cases hfits : value.length = length
    · rw [heq hfits]
      exact iff_of_true (setData_convention value _) (.inl hfits)
    · cases hwritten : written with
      | none =>
        refine iff_of_false not_convention_generalError ?_
        rintro (h | ⟨-, -, -, h⟩)
        · exact hfits h
        · cases h
      | some value' =>
        have hlen := hlength value' hwritten
        have hother : Convention value ⟨some output, given⟩
              (gkmAttributeSetData ⟨some output, given⟩ value') ↔
            given < value'.length ∧ given < value.length :=
          convention_of_length_ne rfl fun h => hfits (h.symm.trans hlen)
        refine hother.trans ⟨fun ⟨hs, hs'⟩ => ?_, ?_⟩
        · exact .inr ⟨Option.some_ne_none output, lt_of_lt_of_eq hs hlen, hs', rfl⟩
        · rintro (h | ⟨-, hs, hs', -⟩)
          · exact absurd h hfits
          · exact ⟨lt_of_lt_of_eq hs hlen.symm, hs'⟩

theorem setDate_eq (attr : WireAttribute) (htime : time ≠ -1) :
    gkmAttributeSetDate attr time = setTimed attr 8 ((gmtimeR time).map ckDate) := by
  rw [gkmAttributeSetDate, if_neg htime]
  unfold setTimed
  cases gmtimeR time with
  | none => rfl
  | some tm => rfl

/-- What is written for a date: four characters of the year as an `int`, and the month and the day. -/
theorem ckDate_tmOf (time : Int) :
    ckDate (tmOf time) =
      (zeroPadded 4 (cInt (1900 + (yearOf time - 1900)))).take 4 ++ monthDay (tmOf time) := by
  obtain ⟨⟨hmon, hmon'⟩, hday, hday'⟩ := civil_range (time / 86400)
  have hmonth : (zeroPadded 2 ((tmOf time).mon + 1)).length = 2 := by
    apply length_zeroPadded_two
    all_goals
      dsimp only [tmOf]
      omega
  have hmday : (zeroPadded 2 (tmOf time).mday).length = 2 := by
    apply length_zeroPadded_two
    all_goals
      dsimp only [tmOf]
      omega
  rw [ckDate, take_snprintf (le_length_zeroPadded 4 _), take_snprintf hmonth.ge,
    take_snprintf hmday.ge, take_of_length_le hmonth.le, take_of_length_le hmday.le,
    monthDay]
  rfl

theorem date_convention_iff (attr : WireAttribute) (time : Int) :
    Convention (if time = -1 then [] else zeroPadded 4 (yearOf time) ++ monthDay (tmOf time)) attr
        (gkmAttributeSetDate attr time) ↔
      time = -1 ∨ DateYear (yearOf time) ∨
        (attr.pValue ≠ none ∧ attr.ulValueLen < 8 ∧
          cInt (yearOf time - 1900) = yearOf time - 1900) := by
  by_cases htime : time = -1
  · rw [if_pos htime, gkmAttributeSetDate, if_pos htime]
    exact iff_of_true (setData_convention [] attr) (.inl htime)
  · have hlength : (zeroPadded 4 (yearOf time) ++ monthDay (tmOf time)).length =
        (zeroPadded 4 (yearOf time)).length + 4 := by rw [length_append, length_monthDay]
    have hfour := length_zeroPadded_four (n := yearOf time)
    have hge := le_length_zeroPadded 4 (yearOf time)
    rw [if_neg htime, setDate_eq attr htime, setTimed_convention_iff]
    · rw [hlength]
      refine ⟨?_, ?_⟩
      · rintro (h | ⟨hsome, hshort, -, hgm⟩)
        · exact .inr (.inl (hfour.1 (by omega)))
        · refine .inr (.inr ⟨hsome, hshort, ?_⟩)
          by_contra hlarge
          rw [gmtimeR, if_neg hlarge] at hgm
          cases hgm
      · rintro (h | hyear | ⟨hsome, hshort, hint⟩)
        · exact absurd h htime
        · exact .inl (by rw [hfour.2 hyear])
        · refine .inr ⟨hsome, hshort, by omega, ?_⟩
          rw [gmtimeR, if_pos hint]
          rfl
    · intro value' hvalue'
      unfold gmtimeR at hvalue'
      split at hvalue'
      · cases hvalue'
        rw [ckDate_tmOf, length_append, length_monthDay, length_take]
        have := le_length_zeroPadded 4 (cInt (1900 + (yearOf time - 1900)))
        omega
      · cases hvalue'
    · intro h
      have hyear : DateYear (yearOf time) := hfour.1 (by omega)
      have hbounds := hyear
      unfold DateYear at hbounds
      rw [gmtimeR, if_pos (cInt_of_small (by omega) (by omega)), Option.map_some, ckDate_tmOf,
        cInt_of_small (by omega) (by omega), Int.add_comm, Int.sub_add_cancel,
        take_of_length_le (hfour.2 hyear).le]

/-- What is written for a time, if there is room for the text. -/
def timeWritten (stack : Nat → UInt8) (time : Int) : Option Bytes :=
  (gmtimeR time).bind fun tm =>
    if 20 ≤ (strftimeText (tm.year + 1900) tm).length then none
    else some ((timeBuffer stack (strftimeText (tm.year + 1900) tm)).take 16)

theorem setTime_eq (stack : Nat → UInt8) (attr : WireAttribute) (htime : time ≠ -1) :
    gkmAttributeSetTime stack attr time = setTimed attr 16 (timeWritten stack time) := by
  rw [gkmAttributeSetTime, if_neg htime, timeWritten]
  unfold setTimed
  cases gmtimeR time with
  | none => rfl
  | some tm =>
    dsimp only [Option.bind_some]
    split
    · rfl
    · split <;> rfl

theorem year_tmOf (time : Int) : (tmOf time).year + 1900 = yearOf time := Int.sub_add_cancel _ _

theorem timeWritten_eq (stack : Nat → UInt8) (h : (decimalInt (yearOf time)).length < 8) :
    timeWritten stack time =
      some ((timeBuffer stack (strftimeText (yearOf time) (tmOf time))).take 16) := by
  rw [timeWritten, gmtimeR, if_pos (cInt_of_length h), Option.bind_some, year_tmOf, if_neg]
  rw [length_strftimeText]
  omega

theorem timeWritten_none (stack : Nat → UInt8)
    (h : ¬ (decimalInt (yearOf time)).length < 8) : timeWritten stack time = none := by
  unfold timeWritten gmtimeR
  split
  · rw [Option.bind_some, year_tmOf, if_pos]
    rw [length_strftimeText]
    omega
  · rfl

theorem time_convention_iff (stack : Nat → UInt8) (attr : WireAttribute) (time : Int) :
    Convention (if time = -1 then [] else strftimeText (yearOf time) (tmOf time)) attr
        (gkmAttributeSetTime stack attr time) ↔
      time = -1 ∨ TimeYear (yearOf time) ∨
        (attr.pValue ≠ none ∧ attr.ulValueLen < 16 ∧
          attr.ulValueLen < 12 + (decimalInt (yearOf time)).length ∧
          (decimalInt (yearOf time)).length < 8) := by
  by_cases htime : time = -1
  · rw [if_pos htime, gkmAttributeSetTime, if_pos htime]
    exact iff_of_true (setData_convention [] attr) (.inl htime)
  · have hlength := length_strftimeText (yearOf time) time
    have hfour := length_decimalInt (n := yearOf time)
    rw [if_neg htime, setTime_eq stack attr htime, setTimed_convention_iff]
    · rw [hlength]
      refine ⟨?_, ?_⟩
      · rintro (h | ⟨hsome, hshort, hshort', hwritten⟩)
        · exact .inr (.inl (hfour.1 (by omega)))
        · refine .inr (.inr ⟨hsome, hshort, hshort', ?_⟩)
          by_contra hlong
          rw [timeWritten_none stack hlong] at hwritten
          cases hwritten
      · rintro (h | hyear | ⟨hsome, hshort, hshort', hseven⟩)
        · exact absurd h htime
        · exact .inl (by rw [hfour.2 hyear])
        · refine .inr ⟨hsome, hshort, hshort', ?_⟩
          rw [timeWritten_eq stack hseven]
          rfl
    · intro value' hvalue'
      by_cases hseven : (decimalInt (yearOf time)).length < 8
      · rw [timeWritten_eq stack hseven] at hvalue'
        cases hvalue'
        rw [timeBuffer, length_take, length_append, length_cons, length_map, length_range, hlength]
        omega
      · rw [timeWritten_none stack hseven] at hvalue'
        cases hvalue'
    · intro h
      rw [timeWritten_eq stack (by omega), timeBuffer, take_left' h]

/-! ## Templates -/

theorem readValue_ok_iff {at' : CkAttribute} {value : Bytes} :
    readValue at' = .ok value ↔
      at'.ulValueLen ≤ (at'.pValue.getD []).length ∧ (at'.pValue.getD []).take at'.ulValueLen = value := by
  unfold readValue
  cases at'.pValue with
  | none =>
    rw [Option.getD_none, length_nil, take_nil]
    dsimp only
    split
    · rename_i h
      simp [h]
    · rename_i h
      simp [h]
  | some memory => exact memRead_eq_ok

theorem setElement_put_iff {at' element : CkAttribute} :
    (∃ element', setElement at' element = .ok (element', true) ∧ Put at' element element') ↔
      Fits at' element := by
  unfold setElement Fits
  cases hvalue : element.pValue with
  | none =>
    constructor
    · rintro ⟨element', h, hput⟩
      cases h
      have hoctets := hput.octets
      dsimp only at hoctets
      rw [Option.getD_none, take_nil] at hoctets
      exact hoctets.symm
    · intro hempty
      refine ⟨_, rfl, rfl, rfl, ?_, ?_⟩
      · dsimp only
        rw [Option.getD_none, take_nil, hempty]
      · rw [hvalue]
  | some output =>
    constructor
    · rintro ⟨element', h, -⟩
      dsimp only at h
      split at h
      · cases h
      · rename_i hroom
        obtain ⟨value, hread, -⟩ := bind_eq_ok.1 h
        exact ⟨Nat.not_lt.1 hroom, (readValue_ok_iff.1 hread).1⟩
    · rintro ⟨hroom, hlength⟩
      have htake : ((at'.pValue.getD []).take at'.ulValueLen).length = at'.ulValueLen := by
        rw [length_take, Nat.min_eq_left hlength]
      refine ⟨⟨at'.type, some ((at'.pValue.getD []).take at'.ulValueLen ++ output.drop at'.ulValueLen),
        at'.ulValueLen⟩, ?_, rfl, rfl, ?_, ?_⟩
      · dsimp only
        rw [if_neg (Nat.not_lt.2 hroom), readValue_ok_iff.2 ⟨hlength, rfl⟩]
        rfl
      · exact take_left' htake
      · rw [Option.map_some, hvalue, Option.map_some, drop_left' htake]

/-- A buffer that was too short is not forgotten. -/
theorem setElements_tooSmall {r : Nat × List CkAttribute}
    (h : setElements template array ckrBufferTooSmall = .ok r) : r.1 = ckrBufferTooSmall := by
  induction template generalizing array r with
  | nil =>
    cases h
    rfl
  | cons at' template ih =>
    cases array with
    | nil => cases h
    | cons element array =>
      obtain ⟨⟨element', fits⟩, -, h⟩ := bind_eq_ok.1 h
      obtain ⟨⟨rv, rest⟩, hrest, h⟩ := bind_eq_ok.1 h
      cases h
      rw [ite_self] at hrest
      exact ih (r := (rv, rest)) hrest

theorem setElements_put_iff :
    (∃ array', setElements template array ckrOk = .ok (ckrOk, array') ∧ AllPut template array array') ↔
      AllFit template array := by
  induction template generalizing array with
  | nil => exact iff_of_true ⟨array, rfl, rfl⟩ trivial
  | cons at' template ih =>
    cases array with
    | nil =>
      refine iff_of_false ?_ id
      rintro ⟨array', h, -⟩
      cases h
    | cons element array =>
      constructor
      · rintro ⟨array', h, hput⟩
        obtain ⟨⟨element', fits⟩, hone, h⟩ := bind_eq_ok.1 h
        obtain ⟨⟨rv, rest⟩, hrest, h⟩ := bind_eq_ok.1 h
        cases h
        obtain ⟨hhead, htail⟩ := hput
        cases fits with
        | false => exact absurd (setElements_tooSmall hrest) ok_ne_tooSmall
        | true => exact ⟨setElement_put_iff.1 ⟨element', hone, hhead⟩, ih.1 ⟨rest, hrest, htail⟩⟩
      · rintro ⟨hhead, htail⟩
        obtain ⟨element', hone, hput⟩ := setElement_put_iff.2 hhead
        obtain ⟨rest, hrest, hall⟩ := ih.2 htail
        refine ⟨element' :: rest, ?_, hput, hall⟩
        rw [setElements, hone]
        change (setElements template array ckrOk >>= _) = _
        rw [hrest]
        rfl

theorem template_convention_iff (template : List CkAttribute) (attr : ArrayAttribute) :
    TemplateConvention template attr (gkmAttributeSetTemplate attr template) ↔
      TemplateKept template attr := by
  obtain ⟨_ | array, given⟩ := attr
  · refine iff_of_true ⟨fun _ => rfl, fun _ h => ?_, fun _ h => ?_⟩ fun _ h => ?_
    all_goals cases h
  · by_cases hshort : given < 24 * template.length
    · refine iff_of_true ⟨fun h => ?_, fun array' h _ => ?_, fun _ _ h => ?_⟩ fun _ _ h => ?_
      · cases h
      · cases h
        rw [gkmAttributeSetTemplate]
        exact if_pos hshort
      · exact absurd hshort (Nat.not_lt.2 h)
      · exact absurd hshort (Nat.not_lt.2 h)
    · have hroom := Nat.not_lt.1 hshort
      have hcode : gkmAttributeSetTemplate ⟨some array, given⟩ template =
          setElements template array ckrOk >>= fun r =>
            pure (r.1, ⟨some r.2, 24 * template.length⟩) := by
        rw [gkmAttributeSetTemplate]
        exact if_neg hshort
      constructor
      · intro hright array' harray' _
        cases harray'
        obtain ⟨array', heq, hput⟩ := hright.written array rfl hroom
        rw [hcode] at heq
        obtain ⟨⟨rv, rest⟩, hrun, heq⟩ := bind_eq_ok.1 heq
        cases heq
        exact setElements_put_iff.1 ⟨_, hrun, hput⟩
      · intro hkept
        obtain ⟨array', hrun, hput⟩ := setElements_put_iff.2 (hkept array rfl hroom)
        refine ⟨fun h => ?_, fun _ _ h => ?_, fun array'' h _ => ?_⟩
        · cases h
        · exact absurd h hshort
        · cases h
          refine ⟨array', ?_, hput⟩
          rw [hcode, hrun]
          rfl

/-! ## The setters -/

/-- The setters do as the convention says but for dates and times whose year has the wrong width,
checksums of nothing or for a buffer that is too short, and templates for which an element of the array
has no room. -/
theorem setters_right_iff (checksums : Checksums) (stack : Nat → UInt8) (value : Value)
    (attr : WireAttribute) (template : List CkAttribute) (array : ArrayAttribute) :
    (Convention (value.octets checksums) attr (value.set checksums stack attr) ↔ value.Kept attr) ∧
      (TemplateConvention template array (gkmAttributeSetTemplate array template) ↔
        TemplateKept template array) := by
  refine ⟨?_, template_convention_iff template array⟩
  cases value with
  | bool value => exact iff_of_true (setData_convention _ attr) trivial
  | ulong value => exact iff_of_true (setData_convention _ attr) trivial
  | string text => exact iff_of_true (setData_convention _ attr) trivial
  | date when' => exact date_convention_iff attr when'
  | time when' => exact time_convention_iff stack attr when'
  | data value => exact iff_of_true (setData_convention value attr) trivial
  | mpi mpi => exact iff_of_true (convention_iff.2 (setMpi_eq attr mpi)) trivial
  | checksum ctype given => exact checksum_convention_iff checksums attr ctype given

/-- An MD5 checksum for a buffer of one octet: the length is that of the checksum. -/
theorem checksum_tells_length :
    ¬ ∀ (checksums : Checksums) (stack : Nat → UInt8) (value : Value) (attr : WireAttribute),
      Convention (value.octets checksums) attr (value.set checksums stack attr) := by
  intro h
  have hmd5 := h ⟨fun ctype _ => replicate ctype.getLength 0, fun _ _ => length_replicate⟩
    (fun _ => 0) (.checksum .md5 (some [0x61])) ⟨some [0], 1⟩
  have hanswer := hmd5.short [0] rfl (by decide)
  exact absurd (congrArg (fun r => r.2.ulValueLen) hanswer) (by decide)

end MateKeyring.Gkm.Setters
