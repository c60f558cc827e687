import MateKeyring.Lib.Utf8
import MateKeyring.Secret.Binary

/-!
# The wire format of a table of fields

`gkm_secret_fields_serialize` writes names and values one after the other, each with a null character behind it,
and `gkm_secret_fields_parse` reads them again. Without a buffer only the lengths are added up, with `strlen` of
every value. A value may be a null pointer: `gkm_secret_fields_add_compat_hashed_string` stores the copy of a
string that the file does not have. No other way to build a table leaves one.
-/

set_option autoImplicit false

namespace MateKeyring.Secret

open Lib Egg List

variable {data : Bytes} {s : Bytes} {before after : Fields} {buffer : Bytes}

variable {table : Fields}

def ckrOk : Nat := 0x00
def ckrAttributeValueInvalid : Nat := 0x13
def ckrBufferTooSmall : Nat := 0x150

/-- The value of a `CK_ATTRIBUTE`: the memory that is pointed to, and its length. -/
structure WireAttribute where
  pValue : Option Bytes
  ulValueLen : Nat

/-! ## Parsing -/

/-- `memchr (data + ptr, 0, n)`. -/
def memchrZero (data : Bytes) (ptr n : Nat) : Checked (Option Nat) :=
  if ptr + n ≤ data.length then .ok ((strchr 0 ((data.drop ptr).take n)).map fun r => ptr + r.1.length)
  else .error .outOfBounds

/-- The text up to a null character, and the place behind that. -/
def nextText (data : Bytes) (last ptr : Nat) : Checked (Option (Bytes × Nat)) := do
  let stop ← memchrZero data ptr (last - ptr)
  pure (stop.map fun stop => ((data.drop ptr).take (stop - ptr), stop + 1))

/-- The loop of `gkm_secret_fields_parse`; `none` is that it is still running. -/
def fieldsParseLoop (data : Bytes) (last : Nat) :
    Nat → Nat → Fields → Option (Checked (Except Nat Fields))
  | 0, _, _ => none
  | fuel + 1, ptr, result =>
    if ptr = last then some (.ok (.ok result))
    else if ¬ ptr < last then some (.error .assertion)
    else
      match nextText data last ptr with
      | .error fault => some (.error fault)
      -- no value is present
      | .ok none => some (.ok (.error ckrAttributeValueInvalid))
      | .ok (some (name, ptr)) =>
        match nextText data last ptr with
        | .error fault => some (.error fault)
        -- the value has no end
        | .ok none => some (.ok (.error ckrAttributeValueInvalid))
        | .ok (some (value, ptr)) =>
          if h : utf8Validate name = true ∧ utf8Validate value = true then
            fieldsParseLoop data last fuel ptr
              (result.insert ⟨name, zero_not_mem_of_utf8Validate h.1⟩
                (some ⟨value, zero_not_mem_of_utf8Validate h.2⟩))
          else some (.ok (.error ckrAttributeValueInvalid))

/-- `gkm_secret_fields_parse`; the result is a table or the number of an error. -/
def gkmSecretFieldsParse (attr : WireAttribute) : Option (Checked (Except Nat Fields)) :=
  match attr.pValue with
  | none => some (.ok (if attr.ulValueLen ≠ 0 then .error ckrAttributeValueInvalid else .ok ∅))
  | some data => fieldsParseLoop data attr.ulValueLen (attr.ulValueLen + 1) 0 ∅

/-! ## Serializing -/

/-- The entries of a table. -/
abbrev Entries := List (Sigma fun _ : CString => Option CString)

/-- `each_field_length`, for every entry. -/
def eachFieldLength : Entries → Nat → Checked Nat
  | [], length => .ok length
  | ⟨_, none⟩ :: _, _ => .error .nullPointer
  | ⟨key, some value⟩ :: entries, length =>
    eachFieldLength entries (length + key.val.length + value.val.length + 2)

/-- `each_field_append`, for every entry; `g_string_append` leaves a null pointer out. -/
def eachFieldAppend : Entries → Bytes → Bytes
  | [], result => result
  | ⟨key, value⟩ :: entries, result =>
    eachFieldAppend entries (result ++ key.val ++ [0] ++ (value.map Subtype.val).getD [] ++ [0])

/-- `gkm_util_return_data`. -/
def gkmUtilReturnData (attr : WireAttribute) (input : Bytes) : Nat × WireAttribute :=
  match attr.pValue with
  | none => (ckrOk, { attr with ulValueLen := input.length })
  | some output =>
    if input.length > attr.ulValueLen then (ckrBufferTooSmall, { attr with ulValueLen := input.length })
    else (ckrOk, { pValue := some (input ++ output.drop input.length), ulValueLen := input.length })

/-- `gkm_attribute_set_data`. -/
def gkmAttributeSetData (attr : WireAttribute) (value : Bytes) : Nat × WireAttribute :=
  let r := gkmUtilReturnData attr value
  if r.1 = ckrBufferTooSmall then (r.1, { r.2 with ulValueLen := 2 ^ 64 - 1 }) else r

/-- `gkm_secret_fields_serialize`. -/
def gkmSecretFieldsSerialize (attr : WireAttribute) (fields : Fields) : Checked (Nat × WireAttribute) :=
  match attr.pValue with
  | none => do
      let length ← eachFieldLength fields.entries 0
      pure (ckrOk, { attr with ulValueLen := length })
  | some _ => .ok (gkmAttributeSetData attr (eachFieldAppend fields.entries []))

/-! ## Names and values on the wire -/

/-- A name and a value. -/
abbrev Pair := CString × CString

/-- Both are text. -/
def Pair.Text (p : Pair) : Prop := utf8Validate p.1.val = true ∧ utf8Validate p.2.val = true

/-- Names and values, each with a null character behind it. -/
def wire : List Pair → Bytes
  | [] => []
  | p :: pairs => p.1.val ++ 0 :: (p.2.val ++ 0 :: wire pairs)

/-- The table with some pairs more. -/
def insertAll (table : Fields) (pairs : List Pair) : Fields :=
  pairs.foldl (fun table p => table.insert p.1 (some p.2)) table

/-- What the octets of a value are parsed to. -/
def Parsed (s : Bytes) (before after : Fields) : Prop :=
  ∃ pairs, (∀ p ∈ pairs, Pair.Text p) ∧ s = wire pairs ∧ after = insertAll before pairs

/-- The text from a place inside on is what stands before the first null character. -/
theorem nextText_eq {ptr : Nat} (h : ptr ≤ data.length) :
    nextText data data.length ptr =
      .ok ((strchr 0 (data.drop ptr)).map fun r => (r.1, ptr + r.1.length + 1)) := by
  have hmemchr : memchrZero data ptr (data.length - ptr) =
      .ok ((strchr 0 (data.drop ptr)).map fun r => ptr + r.1.length) := by
    rw [memchrZero, if_pos (by omega), take_of_length_le (by rw [length_drop])]
  rw [nextText, hmemchr, ok_bind, Option.map_map]
  refine congrArg Except.ok (Option.map_congr fun r hr => ?_)
  rw [Function.comp_apply, Nat.add_sub_cancel_left, eq_of_strchr hr, take_left]

/-- The rest behind a null character. -/
theorem drop_of_strchr {ptr : Nat} (h : ptr ≤ data.length) {r : Bytes × Bytes}
    (hr : strchr 0 (data.drop ptr) = some r) :
    data.drop (ptr + r.1.length + 1) = r.2 ∧ ptr + r.1.length + 1 ≤ data.length := by
  have hsplit := eq_of_strchr hr
  constructor
  · rw [Nat.add_assoc, ← drop_drop, hsplit, ← drop_drop, drop_left]
    rfl
  · have hlength := congrArg List.length hsplit
    rw [length_drop, length_append, length_cons] at hlength
    omega

/-- What is not empty begins with a pair, or is not the wire format of any. -/
theorem parsed_cons_iff (hne : s ≠ []) :
    Parsed s before after ↔ ∃ p rest, Pair.Text p ∧ s = p.1.val ++ 0 :: (p.2.val ++ 0 :: rest) ∧
      Parsed rest (before.insert p.1 (some p.2)) after := by
  constructor
  · rintro ⟨pairs, htext, rfl, rfl⟩
    cases pairs with
    | nil => exact absurd rfl hne
    | cons p pairs =>
      exact ⟨p, wire pairs, htext p mem_cons_self, rfl, pairs,
        fun q hq => htext q (mem_cons_of_mem p hq), rfl, rfl⟩
  · rintro ⟨p, rest, htext, rfl, pairs, htexts, rfl, rfl⟩
    refine ⟨p :: pairs, ?_, rfl, rfl⟩
    intro q hq
    rcases mem_cons.1 hq with rfl | hq
    · exact htext
    · exact htexts q hq

/-- Without a null character behind a name and a value there is no pair. -/
theorem not_parsed (hne : s ≠ []) (h : (strchr 0 s).bind (fun r => strchr 0 r.2) = none) :
    ¬ Parsed s before after := by
  rw [parsed_cons_iff hne]
  rintro ⟨p, rest, -, rfl, -⟩
  rw [strchr_append p.1.property, Option.bind_some, strchr_append p.2.property] at h
  exact nomatch h

/-- With them there is one exactly for text. -/
theorem parsed_of_strchr (hne : s ≠ []) {r r' : Bytes × Bytes} (hname : strchr 0 s = some r)
    (hvalue : strchr 0 r.2 = some r') :
    Parsed s before after ↔ ∃ h : utf8Validate r.1 = true ∧ utf8Validate r'.1 = true,
      Parsed r'.2 (before.insert ⟨r.1, zero_not_mem_of_utf8Validate h.1⟩
        (some ⟨r'.1, zero_not_mem_of_utf8Validate h.2⟩)) after := by
  rw [parsed_cons_iff hne]
  constructor
  · rintro ⟨p, rest, htext, rfl, hrest⟩
    rw [strchr_append p.1.property] at hname
    cases hname
    rw [strchr_append p.2.property] at hvalue
    cases hvalue
    exact ⟨htext, hrest⟩
  · rintro ⟨htext, hrest⟩
    refine ⟨⟨⟨r.1, zero_not_mem_of_utf8Validate htext.1⟩, ⟨r'.1, zero_not_mem_of_utf8Validate htext.2⟩⟩, r'.2,
      htext, ?_, hrest⟩
    rw [eq_of_strchr hname, eq_of_strchr hvalue]

/-- The loop comes to an end, looks at nothing outside, and has a table for the wire format only. -/
theorem fieldsParseLoop_spec {fuel ptr : Nat} {result : Fields} (hptr : ptr ≤ data.length)
    (hfuel : data.length - ptr < fuel) :
    ∃ r, fieldsParseLoop data data.length fuel ptr result = some (.ok r) ∧
      ∀ table, r = .ok table ↔ Parsed (data.drop ptr) result table := by
  induction fuel generalizing ptr result with
  | zero => omega
  | succ fuel ih =>
    rw [fieldsParseLoop]
    by_cases hend : ptr = data.length
    · rw [if_pos hend, hend, drop_length]
      refine ⟨.ok result, rfl, fun table => ⟨?_, ?_⟩⟩
      · intro h
        exact ⟨[], fun _ h => absurd h not_mem_nil, rfl, (Except.ok.inj h).symm⟩
      · rintro ⟨pairs, -, hwire, rfl⟩
        cases pairs with
        | nil => rfl
        | cons p pairs => exact absurd hwire.symm (append_ne_nil_of_right_ne_nil _ (cons_ne_nil _ _))
    · have hlt : ptr < data.length := by omega
      have hne : data.drop ptr ≠ [] := by
        rw [Ne, drop_eq_nil_iff]
        omega
      rw [if_neg hend, if_neg (not_not.2 hlt), nextText_eq hptr]
      cases hname : strchr 0 (data.drop ptr) with
      | none => exact ⟨_, rfl, fun table => iff_of_false (fun h => nomatch h) (not_parsed hne (by rw [hname]; rfl))⟩
      | some r =>
        obtain ⟨hsecond, hlength⟩ := drop_of_strchr hptr hname
        rw [Option.map_some]
        dsimp only
        rw [nextText_eq hlength, hsecond]
        cases hvalue : strchr 0 r.2 with
        | none =>
          exact ⟨_, rfl, fun table => iff_of_false (fun h => nomatch h)
            (not_parsed hne (by rw [hname]; exact hvalue))⟩
        | some r' =>
          rw [← hsecond] at hvalue
          obtain ⟨hthird, hlength'⟩ := drop_of_strchr hlength hvalue
          rw [hsecond] at hvalue
          rw [Option.map_some]
          dsimp only
          simp only [parsed_of_strchr hne hname hvalue]
          split
          · -- one pair more is in the table
            rename_i htext
            obtain ⟨out, hrun, hout⟩ := @ih _ (result.insert ⟨r.1, zero_not_mem_of_utf8Validate htext.1⟩
              (some ⟨r'.1, zero_not_mem_of_utf8Validate htext.2⟩)) hlength' (by omega)
            rw [hthird] at hout
            exact ⟨out, hrun, fun table => ⟨fun h => ⟨htext, (hout table).1 h⟩, fun ⟨_, h⟩ => (hout table).2 h⟩⟩
          · rename_i htext
            exact ⟨_, rfl, fun table => iff_of_false (fun h => nomatch h) fun ⟨h, _⟩ => htext h⟩

/-- For any octets there is a result, and it is a table exactly for the wire format of text. -/
theorem fieldsParse_spec (data : Bytes) :
    ∃ r, gkmSecretFieldsParse ⟨some data, data.length⟩ = some (.ok r) ∧
      ∀ table, r = .ok table ↔ Parsed data ∅ table :=
  fieldsParseLoop_spec (Nat.zero_le _) (Nat.lt_succ_self _)

theorem fieldsParse_eq_iff :
    gkmSecretFieldsParse ⟨some data, data.length⟩ = some (.ok (.ok table)) ↔ Parsed data ∅ table := by
  obtain ⟨r, hrun, hr⟩ := fieldsParse_spec data
  rw [hrun, ← hr]
  constructor
  · exact fun h => Except.ok.inj (Option.some.inj h)
  · exact fun h => by rw [h]

/-! ## What is written -/

/-- The pairs of the entries that have a value. -/
def pairsOf (entries : Entries) : List Pair :=
  entries.filterMap fun entry => entry.2.map fun value => (entry.1, value)

/-- Every entry has a value. -/
def Present (entries : Entries) : Prop := ∀ entry ∈ entries, entry.2 ≠ none

/-- The names are text, and the values that are there. -/
def Texts (entries : Entries) : Prop :=
  ∀ entry ∈ entries, utf8Validate entry.1.val = true ∧ ∀ value, entry.2 = some value → utf8Validate value.val = true

variable {entries : Entries}

/-- What is appended is the wire format. -/
theorem eachFieldAppend_eq (h : Present entries) (result : Bytes) :
    eachFieldAppend entries result = result ++ wire (pairsOf entries) := by
  induction entries generalizing result with
  | nil => exact (append_nil result).symm
  | cons entry entries ih =>
    obtain ⟨key, value⟩ := entry
    cases value with
    | none => exact absurd rfl (h _ mem_cons_self)
    | some value =>
      rw [eachFieldAppend, ih (forall_mem_cons.1 h).2]
      show _ = result ++ (key.val ++ 0 :: (value.val ++ 0 :: wire (pairsOf entries)))
      simp only [Option.map_some, Option.getD_some, append_assoc, cons_append, nil_append]

/-- The length that is added up is that of the wire format. -/
theorem eachFieldLength_eq (h : Present entries) (length : Nat) :
    eachFieldLength entries length = .ok (length + (wire (pairsOf entries)).length) := by
  induction entries generalizing length with
  | nil => rfl
  | cons entry entries ih =>
    obtain ⟨key, value⟩ := entry
    cases value with
    | none => exact absurd rfl (h _ mem_cons_self)
    | some value =>
      rw [eachFieldLength, ih (forall_mem_cons.1 h).2]
      show _ = Except.ok (length + (key.val ++ 0 :: (value.val ++ 0 :: wire (pairsOf entries))).length)
      rw [length_append, length_cons, length_append, length_cons]
      congr 1
      omega

/-- Where a value is not there, `strlen` looks for it. -/
theorem eachFieldLength_faults (h : ¬ Present entries) (length : Nat) :
    eachFieldLength entries length = .error .nullPointer := by
  induction entries generalizing length with
  | nil => exact absurd (fun _ h => absurd h not_mem_nil) h
  | cons entry entries ih =>
    obtain ⟨key, value⟩ := entry
    cases value with
    | none => rfl
    | some value =>
      rw [eachFieldLength]
      apply ih
      intro hpresent
      apply h
      intro entry hentry
      rcases mem_cons.1 hentry with rfl | hentry
      · exact fun h => nomatch h
      · exact hpresent entry hentry

/-- The pairs of a table make the same table. -/
theorem lookup_insertAll (hnodup : entries.NodupKeys) (hpresent : Present entries) (table : Fields)
    (key : CString) :
    (insertAll table (pairsOf entries)).lookup key = (entries.dlookup key).or (table.lookup key) := by
  induction entries generalizing table with
  | nil => rfl
  | cons entry entries ih =>
    obtain ⟨name, value⟩ := entry
    rw [nodupKeys_cons] at hnodup
    cases value with
    | none => exact absurd rfl (hpresent _ mem_cons_self)
    | some value =>
      have hrest := ih hnodup.2 (forall_mem_cons.1 hpresent).2
        (table.insert name (some value))
      show (insertAll (table.insert name (some value)) (pairsOf entries)).lookup key = _
      rw [hrest]
      by_cases hkey : key = name
      · subst hkey
        rw [dlookup_eq_none.2 hnodup.1, dlookup_cons_eq, AList.lookup_insert]
        rfl
      · rw [AList.lookup_insert_ne hkey, dlookup_cons_ne _ _ hkey]

/-! ## The tables that are built -/

theorem text_of_digits (h : ∀ c ∈ s, isDigit c = true) : utf8Validate s = true := by
  apply utf8Validate_of_ascii
  intro c hc
  have hdigit := h c hc
  rw [isDigit, Bool.and_eq_true, decide_eq_true_eq, decide_eq_true_eq] at hdigit
  rw [inRange, Bool.and_eq_true, decide_eq_true_eq, decide_eq_true_eq]
  exact ⟨UInt8.le_trans (by decide) hdigit.1, UInt8.le_trans hdigit.2 (by decide)⟩

theorem text_formatUint32 (value : UInt32) : utf8Validate (formatUint32 value).val = true :=
  text_of_digits fun _ hc => isDigit_of_mem_decimal hc

/-- A compat prefix in front of a name leaves it text. -/
theorem text_concat {pre name : CString} (hpre : pre.val.all (inRange 0x01 0x7f) = true)
    (h : utf8Validate name.val = true) : utf8Validate (concat pre name).val = true := by
  have hval : (concat pre name).val = pre.val ++ name.val := rfl
  rw [hval, utf8Validate_append (utf8Validate_of_ascii (all_eq_true.1 hpre)), h]

theorem text_hashedName {name : CString} (h : utf8Validate name.val = true) :
    utf8Validate (makeCompatHashedName name).val = true :=
  text_concat (by decide) h

theorem text_uint32Name {name : CString} (h : utf8Validate name.val = true) :
    utf8Validate (makeCompatUint32Name name).val = true :=
  text_concat (by decide) h

/-- An entry of a table to which one was added is that one, or was there. -/
theorem mem_entries_insert {key : CString} {value : Option CString}
    {entry : Sigma fun _ : CString => Option CString} (h : entry ∈ (table.insert key value).entries) :
    entry = ⟨key, value⟩ ∨ entry ∈ table.entries := by
  rw [AList.entries_insert, mem_cons] at h
  exact h.imp_right fun hmem => (kerase_sublist key table.entries).subset hmem

theorem Texts.insert (h : Texts table.entries) {key : CString} {value : Option CString}
    (hkey : utf8Validate key.val = true) (hvalue : ∀ v, value = some v → utf8Validate v.val = true) :
    Texts (table.insert key value).entries := by
  intro entry hentry
  rcases mem_entries_insert hentry with rfl | hmem
  · exact ⟨hkey, hvalue⟩
  · exact h entry hmem

theorem Present.insert (h : Present table.entries) (key value : CString) :
    Present (table.insert key (some value)).entries := by
  intro entry hentry
  rcases mem_entries_insert hentry with rfl | hmem
  · exact fun h => nomatch h
  · exact h entry hmem

theorem texts_empty : Texts (∅ : Fields).entries := fun _ h => absurd h not_mem_nil

theorem present_empty : Present (∅ : Fields).entries := fun _ h => absurd h not_mem_nil

/-- A table that was parsed has all its values. -/
theorem insertAll_built {pairs : List Pair} (htext : ∀ p ∈ pairs, Pair.Text p)
    (h : Texts table.entries ∧ Present table.entries) :
    Texts (insertAll table pairs).entries ∧ Present (insertAll table pairs).entries := by
  induction pairs generalizing table with
  | nil => exact h
  | cons p pairs ih =>
    apply ih fun q hq => htext q (mem_cons_of_mem p hq)
    obtain ⟨hname, hvalue⟩ := htext p mem_cons_self
    exact ⟨h.1.insert hname fun v hv => Option.some.inj hv ▸ hvalue, h.2.insert p.1 p.2⟩

/-- A string that was read from a buffer is text. -/
theorem text_of_getUtf8String {offset next : Nat} {str : Option CString}
    (h : bufferGetUtf8String buffer offset = some (str, next)) :
    ∀ s, str = some s → utf8Validate s.val = true := by
  rintro s rfl
  rw [bufferGetUtf8String] at h
  split at h
  · exact nomatch h
  · split at h
    · rename_i htext
      have hstr := congrArg Prod.fst (Option.some.inj h)
      dsimp only at hstr
      rw [hstr] at htext
      exact htext
    · exact nomatch h

section Adding

variable {table : Fields} {name value : Option CString} (hname : ∀ s, name = some s → utf8Validate s.val = true)

include hname

theorem texts_take (h : Texts table.entries) (hvalue : ∀ s, value = some s → utf8Validate s.val = true) :
    Texts (gkmSecretFieldsTake table name value).entries := by
  cases name with
  | none => exact h
  | some name =>
    apply h.insert (hname name rfl)
    rintro v hv
    cases value with
    | none => exact Option.some.inj hv ▸ rfl
    | some value => exact Option.some.inj hv ▸ hvalue value rfl

theorem texts_addUint32 (h : Texts table.entries) (number : UInt32) :
    Texts (gkmSecretFieldsAddCompatUint32 table name number).entries := by
  cases name with
  | none => exact h
  | some name =>
    rw [gkmSecretFieldsAddCompatUint32]
    split
    · exact h
    · apply Texts.insert _ (text_uint32Name (hname name rfl)) fun v hv => Option.some.inj hv ▸ rfl
      exact h.insert (hname name rfl) fun v hv => Option.some.inj hv ▸ text_formatUint32 number

theorem texts_addHashedString (h : Texts table.entries)
    (hvalue : ∀ s, value = some s → utf8Validate s.val = true) :
    Texts (gkmSecretFieldsAddCompatHashedString table name value).entries := by
  cases name with
  | none => exact h
  | some name =>
    rw [gkmSecretFieldsAddCompatHashedString]
    split
    · exact h
    · exact h.insert (text_hashedName (hname name rfl)) hvalue

theorem texts_addHashedUint32 (h : Texts table.entries) (number : UInt32) :
    Texts (gkmSecretFieldsAddCompatHashedUint32 table name number).entries := by
  cases name with
  | none => exact h
  | some name =>
    rw [gkmSecretFieldsAddCompatHashedUint32]
    split
    · exact h
    · apply Texts.insert _ (text_uint32Name (hname name rfl)) fun v hv => Option.some.inj hv ▸ hname name rfl
      exact h.insert (text_hashedName (hname name rfl)) fun v hv => Option.some.inj hv ▸ text_formatUint32 number

end Adding

theorem present_take (h : Present table.entries) (name value : Option CString) :
    Present (gkmSecretFieldsTake table name value).entries := by
  cases name with
  | none => exact h
  | some name => exact h.insert name _

theorem present_addUint32 (h : Present table.entries) (name : Option CString) (number : UInt32) :
    Present (gkmSecretFieldsAddCompatUint32 table name number).entries := by
  cases name with
  | none => exact h
  | some name =>
    rw [gkmSecretFieldsAddCompatUint32]
    split
    · exact h
    · exact (h.insert name _).insert _ _

/-- The loop of the keyring reader adds text, and without hashes no value that is not there. -/
theorem getAttributesLoop_built {hashed : Bool} {n offset next : Nat} {table table' : Fields}
    (hrun : getAttributesLoop buffer hashed n offset table = some (table', next)) (h : Texts table.entries) :
    Texts table'.entries ∧ (hashed = false → Present table.entries → Present table'.entries) := by
  induction n generalizing offset table with
  | zero =>
    obtain ⟨rfl, -⟩ := Prod.mk.inj (Option.some.inj hrun)
    exact ⟨h, fun _ hpresent => hpresent⟩
  | succ n ih =>
    rw [getAttributesLoop] at hrun
    split at hrun
    · exact nomatch hrun
    · rename_i name _ hread
      have hname := text_of_getUtf8String hread
      split at hrun
      · exact nomatch hrun
      · split at hrun
        · split at hrun
          · exact nomatch hrun
          · rename_i str _ hread'
            have hstr := text_of_getUtf8String hread'
            cases hashed with
            | true => exact ⟨(ih hrun (texts_addHashedString hname h hstr)).1, fun hfalse => nomatch hfalse⟩
            | false =>
              obtain ⟨htexts, hkeeps⟩ := ih hrun (texts_take hname h hstr)
              exact ⟨htexts, fun _ hpresent => hkeeps rfl (present_take hpresent _ _)⟩
        · split at hrun
          · split at hrun
            · exact nomatch hrun
            · cases hashed with
              | true => exact ⟨(ih hrun (texts_addHashedUint32 hname h _)).1, fun hfalse => nomatch hfalse⟩
              | false =>
                obtain ⟨htexts, hkeeps⟩ := ih hrun (texts_addUint32 hname h _)
                exact ⟨htexts, fun _ hpresent => hkeeps rfl (present_addUint32 hpresent _ _)⟩
          · exact nomatch hrun

theorem getAttributes_built {hashed : Bool} {offset next : Nat}
    (hrun : bufferGetAttributes buffer offset hashed = some (table, next)) :
    Texts table.entries ∧ (hashed = false → Present table.entries) := by
  rw [bufferGetAttributes] at hrun
  split at hrun
  · exact nomatch hrun
  · obtain ⟨htexts, hpresent⟩ := getAttributesLoop_built hrun texts_empty
    exact ⟨htexts, fun hfalse => hpresent hfalse present_empty⟩

/-! ## What is right -/

/-- The length that is asked for is that of the value that is then written, and the value is parsed to the same
table. -/
def WireRight (table : Fields) : Prop :=
  ∃ n, (∀ given, gkmSecretFieldsSerialize ⟨none, given⟩ table = .ok (ckrOk, ⟨none, n⟩)) ∧
    ∀ memory : Bytes, memory.length = n → ∃ value,
      gkmSecretFieldsSerialize ⟨some memory, n⟩ table = .ok (ckrOk, ⟨some value, n⟩) ∧
        ∃ table', gkmSecretFieldsParse ⟨some value, n⟩ = some (.ok (.ok table')) ∧
          ∀ key, table'.lookup key = table.lookup key

/-- A value that fills the memory it is given. -/
theorem setData_eq {memory value : Bytes} (h : memory.length = value.length) :
    gkmAttributeSetData ⟨some memory, value.length⟩ value = (ckrOk, ⟨some value, value.length⟩) := by
  have hreturn : gkmUtilReturnData ⟨some memory, value.length⟩ value = (ckrOk, ⟨some value, value.length⟩) := by
    rw [gkmUtilReturnData]
    dsimp only
    rw [if_neg (Nat.lt_irrefl _), ← h, drop_length, append_nil]
  rw [gkmAttributeSetData, hreturn]
  exact if_neg (show ckrOk ≠ ckrBufferTooSmall by decide)

/-- A table of text is right exactly if it has all its values. -/
theorem wire_right_iff (h : Texts table.entries) : WireRight table ↔ Present table.entries := by
  constructor
  · rintro ⟨n, hquery, -⟩
    by_contra habsent
    have hfault := hquery 0
    rw [gkmSecretFieldsSerialize, eachFieldLength_faults habsent] at hfault
    exact nomatch hfault
  · intro hpresent
    refine ⟨(wire (pairsOf table.entries)).length, fun given => ?_, fun memory hmemory => ?_⟩
    · rw [gkmSecretFieldsSerialize, eachFieldLength_eq hpresent, Nat.zero_add]
      rfl
    · refine ⟨wire (pairsOf table.entries), ?_, insertAll ∅ (pairsOf table.entries), ?_, fun key => ?_⟩
      · rw [gkmSecretFieldsSerialize, eachFieldAppend_eq hpresent, nil_append]
        exact congrArg Except.ok (setData_eq hmemory)
      · apply fieldsParse_eq_iff.2
        refine ⟨pairsOf table.entries, ?_, rfl, rfl⟩
        intro p hp
        obtain ⟨entry, hentry, hvalue⟩ := mem_filterMap.1 hp
        obtain ⟨value, hsome, rfl⟩ := Option.map_eq_some_iff.1 hvalue
        exact ⟨(h entry hentry).1, (h entry hentry).2 value hsome⟩
      · rw [lookup_insertAll table.nodupKeys hpresent]
        exact Option.or_none

/-- Every value is parsed, to a table exactly if it has the wire format of text. The tables that are parsed, and
those that the keyring reader builds of plain attributes, come back from their wire format; a table of hashed
attributes does if all its values are there. -/
theorem fields_wire_right_iff (data : Bytes) (offset next : Nat) (table : Fields) :
    (∃ r, gkmSecretFieldsParse ⟨some data, data.length⟩ = some (.ok r) ∧
        ((∃ table, r = .ok table) ↔ ∃ pairs, (∀ p ∈ pairs, Pair.Text p) ∧ data = wire pairs)) ∧
      (gkmSecretFieldsParse ⟨some data, data.length⟩ = some (.ok (.ok table)) → WireRight table) ∧
      (bufferGetAttributes data offset false = some (table, next) → WireRight table) ∧
      (bufferGetAttributes data offset true = some (table, next) →
        (WireRight table ↔ Present table.entries)) := by
  refine ⟨?_, ?_, ?_, ?_⟩
  · obtain ⟨r, hrun, hr⟩ := fieldsParse_spec data
    refine ⟨r, hrun, ?_⟩
    constructor
    · rintro ⟨table, htable⟩
      obtain ⟨pairs, htext, hdata, -⟩ := (hr table).1 htable
      exact ⟨pairs, htext, hdata⟩
    · rintro ⟨pairs, htext, hdata⟩
      exact ⟨_, (hr _).2 ⟨pairs, htext, hdata, rfl⟩⟩
  · intro hrun
    obtain ⟨pairs, htext, -, rfl⟩ := fieldsParse_eq_iff.1 hrun
    obtain ⟨htexts, hpresent⟩ := insertAll_built htext ⟨texts_empty, present_empty⟩
    exact (wire_right_iff htexts).2 hpresent
  · intro hrun
    obtain ⟨htexts, hpresent⟩ := getAttributes_built hrun
    exact (wire_right_iff htexts).2 (hpresent rfl)
  · intro hrun
    exact wire_right_iff (getAttributes_built hrun).1

/-- One attribute with the name `a` and a string that is not there. -/
def absentStringFile : Bytes :=
  [0, 0, 0, 1, 0, 0, 0, 1, 0x61, 0, 0, 0, 0, 0xff, 0xff, 0xff, 0xff]

/-- The hashed table of it. -/
def absentStringTable : Fields := (∅ : Fields).insert (makeCompatHashedName ⟨[0x61], by decide⟩) none

theorem getAttributes_absentString : bufferGetAttributes absentStringFile 0 true = some (absentStringTable, 17) := by
  have hcount : uint32At absentStringFile 0 = some (1, 4) := by decide
  have hname : bufferGetUtf8String absentStringFile 4 = some (some ⟨[0x61], by decide⟩, 9) := by decide
  have htype : uint32At absentStringFile 9 = some (0, 13) := by decide
  have hstring : bufferGetUtf8String absentStringFile 13 = some (none, 17) := by decide
  rw [bufferGetAttributes, hcount]
  dsimp only
  rw [getAttributesLoop, hname]
  dsimp only
  rw [htype]
  dsimp only
  rw [if_pos rfl, hstring]
  rfl

theorem fields_wire_right_sample :
    bufferGetAttributes absentStringFile 0 true = some (absentStringTable, 17) ∧
      (WireRight absentStringTable ↔ Present absentStringTable.entries) := by
  obtain ⟨-, -, -, hhashed⟩ := fields_wire_right_iff absentStringFile 0 17 absentStringTable
  exact ⟨getAttributes_absentString, hhashed getAttributes_absentString⟩

/-- To ask for the length of that table is to look at a null pointer. -/
theorem absent_string_not_serialized :
    bufferGetAttributes absentStringFile 0 true = some (absentStringTable, 17) ∧
      gkmSecretFieldsSerialize ⟨none, 0⟩ absentStringTable = .error .nullPointer ∧ ¬ WireRight absentStringTable := by
  have hfault : gkmSecretFieldsSerialize ⟨none, 0⟩ absentStringTable = .error .nullPointer := rfl
  refine ⟨getAttributes_absentString, hfault, ?_⟩
  rintro ⟨n, hquery, -⟩
  exact nomatch hfault.symm.trans (hquery 0)

end MateKeyring.Secret
