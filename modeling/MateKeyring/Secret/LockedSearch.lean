import MateKeyring.Secret.Written

/-!
# Searching a locked collection

A locked collection knows of each field only its hash, as the table that `buffer_get_attributes` makes
of the hashed attributes in the file. Fields that were set in the ordinary way and match a needle match
it in that table too.

The reader may fail, on a name that is not UTF-8 or too long: such a name puts nothing into the file,
and what comes after it cannot be taken for a name and a type (`unwritable_number`,
`unwritable_digest`). When it does not fail, it has therefore read every field.
-/

set_option autoImplicit false

namespace MateKeyring.Secret

open Lib Egg BigEndian List

variable {fields : Fields} {name : CString} {bs : Bytes} {value : CString → Option FieldValue}
  {attributes : Fields} {md5 : Md5} {v : FieldValue} {hashed : Bool} {key : CString} {off n : Nat}

/-! ## Ordinary tables -/

/-- Tables that are built by the setters from names that are not compat names. -/
inductive Built : Fields → Prop
  | new : Built ∅
  | add {fields : Fields} {name : CString} (value : Option CString) (h : isCompatName name = false)
      (hb : Built fields) : Built (gkmSecretFieldsAdd fields (some name) value)
  | take {fields : Fields} {name : CString} (value : Option CString) (h : isCompatName name = false)
      (hb : Built fields) : Built (gkmSecretFieldsTake fields (some name) value)
  | addCompatUint32 {fields : Fields} {name : CString} (value : UInt32)
      (h : isCompatName name = false) (hb : Built fields) :
      Built (gkmSecretFieldsAddCompatUint32 fields (some name) value)

/-- No field is hashed, and no value is a null pointer. -/
structure Ordinary (fields : Fields) : Prop where
  unhashed : ∀ name, fields.lookup (makeCompatHashedName name) = none
  nonnull : ∀ name, fields.lookup name ≠ some none

theorem Ordinary.insert (h : Ordinary fields) (value : CString)
    (hkey : ∀ name, key ≠ makeCompatHashedName name) :
    Ordinary (fields.insert key (some value)) := by
  constructor
  · intro name
    rw [AList.lookup_insert_ne (hkey name).symm]
    exact h.unhashed name
  · intro name
    by_cases hn : name = key
    · subst hn
      simp
    · rw [AList.lookup_insert_ne hn]
      exact h.nonnull name

theorem ne_hashed_of_not_compat (h : isCompatName key = false) (name : CString) :
    key ≠ makeCompatHashedName name :=
  ne_of_not_compat h (isCompatName_hashed name)

theorem Built.ordinary (h : Built fields) : Ordinary fields := by
  induction h with
  | new => exact ⟨fun _ => AList.lookup_empty _, fun _ => by simp⟩
  | add value h _ ih => exact ih.insert _ (ne_hashed_of_not_compat h)
  | take value h _ ih => exact ih.insert _ (ne_hashed_of_not_compat h)
  | addCompatUint32 value h _ ih =>
    simp only [gkmSecretFieldsAddCompatUint32, h, Bool.false_eq_true, if_false]
    exact (ih.insert _ (ne_hashed_of_not_compat h)).insert _ fun _ =>
      makeCompatUint32Name_ne_hashed _ _

/-- Every name of an ordinary table is that of a field with a value. -/
theorem Ordinary.lookup_of_mem_names (h : Ordinary fields) (hn : name ∈ gkmSecretFieldsGetNames fields) :
    isCompatName name = false ∧ ∃ value, fields.lookup name = some (some value) := by
  obtain ⟨hc, hmem⟩ := mem_gkmSecretFieldsGetNames.1 hn
  refine ⟨hc, ?_⟩
  have hplain : name ∈ fields := by
    rcases hmem with hmem | hmem
    · exact hmem
    · have hnone := AList.lookup_eq_none.1 (h.unhashed name)
      exact absurd hmem hnone
  obtain ⟨value, hv⟩ := Option.isSome_iff_exists.1 (AList.lookup_isSome.2 hplain)
  cases value with
  | none => exact absurd hv (h.nonnull name)
  | some value => exact ⟨value, hv⟩

/-! ## The hashed value of a field -/

theorem digest_noNul (md5 : Md5) (value : CString) : 0 ∉ eggHexEncodeFull (md5.hash value.val) false 0 0 :=
  zero_not_mem_eggHexEncodeFull _ _ _

/-- The digest of a value, as text. -/
def digestText (md5 : Md5) (value : CString) : CString :=
  ⟨eggHexEncodeFull (md5.hash value.val) false 0 0, digest_noNul md5 value⟩

theorem compatHashValueAsString_some (md5 : Md5) (value : CString) :
    compatHashValueAsString md5 (some value) = some (digestText md5 value) := rfl

theorem digestText_length (md5 : Md5) (value : CString) : (digestText md5 value).val.length = 32 := by
  have h := length_hexEncodeLoop hexcLower 0 (md5.hash value.val) 0
  rw [md5.length_hash] at h
  exact h

theorem digestText_writable (md5 : Md5) (value : CString) : Writable (digestText md5 value) :=
  ⟨utf8Validate_eggHexEncodeFull _ _ _, by rw [digestText_length]; decide⟩

/-- The hash of a value: a number is hashed as a number. -/
def hashedValue (md5 : Md5) (number : Bool) (value : CString) : FieldValue :=
  match if number then compatHashValueAsUint32 (some value) else none with
  | some n => .number n
  | none => .text (some (digestText md5 value))

theorem Ordinary.writtenValue_eq (h : Ordinary fields) (md5 : Md5) {name value : CString}
    (hc : isCompatName name = false) (hv : fields.lookup name = some (some value)) :
    writtenValue md5 fields true name =
      some (hashedValue md5 (fields.lookup (makeCompatUint32Name name)).isSome value) := by
  have halready : alreadyHashedUint32 fields name = .ok none := by
    simp [alreadyHashedUint32, h.unhashed]
  have hstring : gkmSecretFieldsGetCompatHashedString md5 fields name =
      some (some (digestText md5 value)) := by
    simp [gkmSecretFieldsGetCompatHashedString, hc, hv, compatHashValueAsString_some]
  cases hm : (fields.lookup (makeCompatUint32Name name)).isSome with
  | false =>
    have hn : gkmSecretFieldsGetCompatHashedUint32 fields name = .ok none := by
      simp [gkmSecretFieldsGetCompatHashedUint32, hc, hm, halready]
    simp [writtenValue, fieldValue, hn, hstring, resultOf, hashedValue]
  | true =>
    cases hh : compatHashValueAsUint32 (some value) with
    | none =>
      have hn : gkmSecretFieldsGetCompatHashedUint32 fields name = .ok none := by
        simp [gkmSecretFieldsGetCompatHashedUint32, hc, hm, hv, hh, halready]
      simp [writtenValue, fieldValue, hn, hstring, resultOf, hashedValue, hh]
    | some n =>
      have hn : gkmSecretFieldsGetCompatHashedUint32 fields name = .ok (some n) := by
        simp [gkmSecretFieldsGetCompatHashedUint32, hc, hm, hv, hh]
      simp [writtenValue, fieldValue, hn, resultOf, hashedValue, hh]

/-! ## Names that cannot be written -/

theorem compatHash_bits (x : BitVec 32) :
    let n := 0x18273645#32 ^^^ x ^^^ ((x <<< 16) ||| (x >>> 16))
    n.getLsbD 1 ≠ n.getLsbD 17 := by
  have h1 : (0x18273645#32).getLsbD 1 = false := by decide
  have h17 : (0x18273645#32).getLsbD 17 = true := by decide
  simp only [BitVec.getLsbD_xor, BitVec.getLsbD_or, BitVec.getLsbD_shiftLeft,
    BitVec.getLsbD_ushiftRight, h1, h17]
  simp [Bool.xor_comm]

/-- The hash of a number never ends in three null bytes: its second and its eighteenth bit differ. -/
theorem compatHash_mod {value : Option CString} {n : UInt32}
    (h : compatHashValueAsUint32 value = some n) : n.toNat % 256 ^ 3 ≠ 0 := by
  obtain ⟨x, -, hx⟩ := Option.map_eq_some_iff.1 h
  intro hmod
  have hbit : ∀ i < 24, n.toNat.testBit i = false := by
    intro i hi
    have hz : n.toNat % 2 ^ 24 = 0 := hmod
    have := Nat.testBit_mod_two_pow n.toNat 24 i
    rw [hz, Nat.zero_testBit] at this
    simpa [hi] using this.symm
  have hn : n.toBitVec =
      0x18273645#32 ^^^ x.toBitVec ^^^ ((x.toBitVec <<< 16) ||| (x.toBitVec >>> 16)) := by
    rw [← hx]
    rfl
  apply compatHash_bits x.toBitVec
  rw [← hn]
  show n.toNat.testBit 1 = n.toNat.testBit 17
  rw [hbit 1 (by decide), hbit 17 (by decide)]

theorem utf8StringBytes_unwritable (h : ¬ Writable name) : utf8StringBytes (some name) = [] := by
  rw [utf8StringBytes, if_neg h]

/-- Where a string of one byte is read, the reader goes on after five bytes or fails. -/
theorem bufferGetUtf8String_one {off : Nat} (h : readAt 4 bs off = some 1)
    {r : Option CString × Nat} (hr : bufferGetUtf8String bs off = some r) : r.2 = off + 5 := by
  have hs : ∀ r', stringAt bs off = some r' → r'.2 = off + 5 := by
    intro r' hr'
    simp only [stringAt, h, if_neg (by decide : ¬ (1 : Nat) = 0xffffffff),
      if_neg (by decide : ¬ (0x7fffffff : Nat) ≤ 1)] at hr'
    cases hsl : sliceAt bs (off + 4) 1 with
    | none => simp [hsl] at hr'
    | some v =>
      simp only [hsl] at hr'
      split at hr'
      · cases hr'
      · cases hr'
        rfl
  rw [bufferGetUtf8String] at hr
  cases hst : stringAt bs off with
  | none => simp [hst] at hr
  | some r' =>
    obtain ⟨str, o⟩ := r'
    simp only [hst] at hr
    split at hr
    · cases hr
      exact hs _ hst
    · cases hr

/-- Without its name the hash of a number is not taken for an attribute: its last three bytes begin
the word that is read as a type. -/
theorem unwritable_number {number : UInt32} (hname : ¬ Writable name) (hmod : number.toNat % 256 ^ 3 ≠ 0)
    (h : HasAt bs off (fieldBytes name (some (.number number)))) :
    getAttributesLoop bs hashed (n + 1) off attributes = none := by
  rw [fieldBytes, utf8StringBytes_unwritable hname, nil_append] at h
  have hone : readAt 4 bs off = some 1 := HasAt.readAt h.left (by decide)
  have hbytes : HasAt bs (off + 4) (encode 4 number.toNat) := h.right
  have htail : readAt 3 bs (off + 5) = some (number.toNat % 256 ^ 3) := by
    have ht := HasAt.tail hbytes
    apply HasAt.readAt _ (Nat.mod_lt _ (by decide))
    rw [encode_mod (Nat.le_refl 3)]
    exact ht
  rw [getAttributesLoop]
  cases hstr : bufferGetUtf8String bs off with
  | none => rfl
  | some r =>
    obtain ⟨str, o⟩ := r
    have ho : o = off + 5 := bufferGetUtf8String_one hone hstr
    subst ho
    dsimp only
    cases htype : uint32At bs (off + 5) with
    | none => rfl
    | some t =>
      obtain ⟨type, o⟩ := t
      obtain ⟨v, hv, hto⟩ := Option.map_eq_some_iff.1 htype
      cases hto
      have hlen := (readAt_bounds hv).1
      -- the fourth byte of the type is whatever comes next
      have hlast : ∃ c, readAt 1 bs (off + 5 + 3) = some c := by
        apply Option.isSome_iff_exists.1
        rw [Option.isSome_iff_ne_none, Ne, readAt_eq_none_iff]
        omega
      obtain ⟨c, hc⟩ := hlast
      have hv' := readAt_add htail hc
      rw [hv] at hv'
      have hval : type = number.toNat % 256 ^ 3 * 256 ^ 1 + c := Option.some.inj hv'
      have h0 : ¬ type = 0 := by omega
      have h1 : ¬ type = 1 := by omega
      simp only [if_neg h0, if_neg h1]

/-- Without its name the digest of a value is not taken for an attribute: its length is read as a
type. -/
theorem unwritable_digest {name digest : CString} (hname : ¬ Writable name) (hd : Writable digest)
    (hlen : digest.val.length = 32)
    (h : HasAt bs off (fieldBytes name (some (.text (some digest))))) :
    getAttributesLoop bs hashed (n + 1) off attributes = none := by
  rw [fieldBytes, utf8StringBytes_unwritable hname, nil_append] at h
  have hempty : HasAt bs off (utf8StringBytes (some ⟨[], by simp⟩)) := h.left
  have hstr := utf8String_at hempty (fun s hs => by cases hs; decide)
  have hrest : HasAt bs (off + 4) (utf8StringBytes (some digest)) := h.right
  rw [utf8StringBytes, if_pos hd, byteArrayBytes, hlen] at hrest
  have htype : uint32At bs (off + 4) = some (32, off + 4 + 4) :=
    uint32At_of_hasAt hrest.left (by decide)
  have hbytes : (utf8StringBytes (some ⟨[], by simp⟩)).length = 4 := rfl
  rw [hbytes] at hstr
  rw [getAttributesLoop, hstr]
  simp [htype]

/-- The hash of a value can be written and cannot be taken for a name. -/
theorem hashedValue_canWrite (md5 : Md5) (number : Bool) (value : CString) :
    (hashedValue md5 number value).CanWrite := by
  unfold hashedValue
  split
  · trivial
  · intro s hs
    cases hs
    exact digestText_writable md5 value

theorem unwritable_fails {number : Bool} {name value : CString} (hname : ¬ Writable name)
    (h : HasAt bs off (fieldBytes name (some (hashedValue md5 number value)))) :
    getAttributesLoop bs hashed (n + 1) off attributes = none := by
  rw [hashedValue] at h
  cases hn : (if number then compatHashValueAsUint32 (some value) else none) with
  | none =>
    rw [hn] at h
    exact unwritable_digest hname (digestText_writable md5 value) (digestText_length md5 value) h
  | some v =>
    rw [hn] at h
    have hv : compatHashValueAsUint32 (some value) = some v := by
      cases number with
      | true => exact hn
      | false => cases hn
    exact unwritable_number hname (compatHash_mod hv) h

/-- When the hashed attributes of an ordinary table can be read at all, every name could be written. -/
theorem Ordinary.canWriteAll_of_read (ho : Ordinary fields) {names : List CString} {off : Nat}
    {r : Fields × Nat} (hsub : ∀ name ∈ names, name ∈ gkmSecretFieldsGetNames fields)
    (h : HasAt bs off
      (names.flatMap fun name => fieldBytes name (writtenValue md5 fields true name)))
    (hr : getAttributesLoop bs hashed names.length off attributes = some r) :
    CanWriteAll (writtenValue md5 fields true) names := by
  induction names generalizing off attributes with
  | nil => intro name hname; cases hname
  | cons name names ih =>
    obtain ⟨hc, value, hv⟩ := ho.lookup_of_mem_names (hsub name mem_cons_self)
    have hw := ho.writtenValue_eq md5 hc hv
    have hcan := hashedValue_canWrite md5 (fields.lookup (makeCompatUint32Name name)).isSome value
    rw [flatMap_cons] at h
    have hl := h.left
    have hrest := h.right
    rw [hw] at hl hrest
    by_cases hname : Writable name
    · rw [length_cons, attribute_at hl hname hcan] at hr
      have hnames := ih (forall_mem_cons.1 hsub).2 hrest hr
      intro n hn
      rcases mem_cons.1 hn with rfl | hn
      · exact ⟨hname, _, hw, hcan⟩
      · exact hnames n hn
    · rw [length_cons, unwritable_fails hname hl] at hr
      cases hr

/-! ## The hashed table -/

/-- The table has the value under the name, hashed. -/
def HasHashed (fields : Fields) (name : CString) : FieldValue → Prop
  | .number n =>
    fields.lookup (makeCompatHashedName name) = some (some (formatUint32 n)) ∧
      fields.lookup (makeCompatUint32Name name) = some (some name)
  | .text str =>
    fields.lookup (makeCompatHashedName name) = some str ∧
      fields.lookup (makeCompatUint32Name name) = none

/-- What a table is while hashed attributes are read: it has only compat names, and marks only
numbers. -/
structure HashedOnly (value : CString → Option FieldValue) (fields : Fields) : Prop where
  plain : ∀ name, isCompatName name = false → fields.lookup name = none
  marks : ∀ name str, value name = some (.text str) →
    fields.lookup (makeCompatUint32Name name) = none

theorem addField_hashed_lookup (value : FieldValue) (hc : isCompatName name = false)
    (hh : key ≠ makeCompatHashedName name) (hu : key ≠ makeCompatUint32Name name) :
    (addField true fields name value).lookup key = fields.lookup key := by
  cases value with
  | number n =>
    simp only [addField, if_true, gkmSecretFieldsAddCompatHashedUint32, hc, Bool.false_eq_true,
      if_false]
    rw [AList.lookup_insert_ne hu, AList.lookup_insert_ne hh]
  | text str =>
    simp only [addField, if_true, gkmSecretFieldsAddCompatHashedString, hc, Bool.false_eq_true,
      if_false]
    rw [AList.lookup_insert_ne hh]

section

variable (h : HashedOnly value fields) (hc : isCompatName name = false) (hv : value name = some v)

include h hc hv

theorem HashedOnly.addField : HashedOnly value (addField true fields name v) := by
  constructor
  · intro key hkey
    rw [addField_hashed_lookup v hc (ne_of_not_compat hkey (isCompatName_hashed _))
      (ne_of_not_compat hkey (isCompatName_uint32 _))]
    exact h.plain key hkey
  · intro key str hkey
    by_cases hk : key = name
    · subst hk
      rw [hkey] at hv
      cases hv
      simp only [Secret.addField, if_true, gkmSecretFieldsAddCompatHashedString, hc,
        Bool.false_eq_true, if_false]
      rw [AList.lookup_insert_ne (makeCompatUint32Name_ne_hashed _ _)]
      exact h.marks key str hkey
    · rw [addField_hashed_lookup v hc (makeCompatUint32Name_ne_hashed _ _) (by simpa using hk)]
      exact h.marks key str hkey

theorem HashedOnly.hasHashed : HasHashed (Secret.addField true fields name v) name v := by
  cases v with
  | number n =>
    simp only [Secret.addField, if_true, gkmSecretFieldsAddCompatHashedUint32, hc,
      Bool.false_eq_true, if_false]
    refine ⟨?_, AList.lookup_insert _⟩
    rw [AList.lookup_insert_ne (makeCompatHashedName_ne_uint32 _ _), AList.lookup_insert]
  | text str =>
    have hm := h.marks name str hv
    simp only [Secret.addField, if_true, gkmSecretFieldsAddCompatHashedString, hc,
      Bool.false_eq_true, if_false]
    refine ⟨AList.lookup_insert _, ?_⟩
    rw [AList.lookup_insert_ne (makeCompatUint32Name_ne_hashed _ _), hm]

end

theorem HasHashed.congr {fields fields' : Fields} (h : HasHashed fields name v)
    (hh : fields'.lookup (makeCompatHashedName name) = fields.lookup (makeCompatHashedName name))
    (hu : fields'.lookup (makeCompatUint32Name name) = fields.lookup (makeCompatUint32Name name)) :
    HasHashed fields' name v := by
  cases v with
  | number n => exact ⟨hh.trans h.1, hu.trans h.2⟩
  | text str => exact ⟨hh.trans h.1, hu.trans h.2⟩

/-- After all hashed attributes are read, the table has every one of them. The induction carries what
is there already: either the name is still to come, or the table has it. -/
theorem addFields_hasHashed {names : List CString}
    (hn : ∀ name ∈ names, isCompatName name = false ∧ ∃ v, value name = some v)
    (h : HashedOnly value fields) (hv : value name = some v) (hmem : name ∈ names ∨ HasHashed fields name v) :
    HashedOnly value (addFields true value names fields) ∧
      HasHashed (addFields true value names fields) name v := by
  induction names generalizing fields with
  | nil =>
    refine ⟨h, ?_⟩
    rcases hmem with hmem | hmem
    · cases hmem
    · exact hmem
  | cons n names ih =>
    obtain ⟨hc, w, hw⟩ := hn n mem_cons_self
    have hstep : addFields true value (n :: names) fields =
        addFields true value names (addField true fields n w) := by
      simp [addFields, hw]
    rw [hstep]
    apply ih (forall_mem_cons.1 hn).2 (h.addField hc hw)
    by_cases hnn : n = name
    · subst hnn
      rw [hv] at hw
      cases hw
      exact .inr (h.hasHashed hc hv)
    · rcases hmem with hmem | hmem
      · exact .inl (mem_of_ne_of_mem (Ne.symm hnn) hmem)
      · refine .inr (hmem.congr ?_ ?_)
        · exact addField_hashed_lookup w hc (by simpa using Ne.symm hnn)
            (makeCompatHashedName_ne_uint32 _ _)
        · exact addField_hashed_lookup w hc (makeCompatUint32Name_ne_hashed _ _)
            (by simpa using Ne.symm hnn)

/-! ## Matching -/

/-- A field whose value the hashed table has matches that value. -/
theorem matchesField_of_hasHashed {number : Bool} {name value : CString}
    (hplain : fields.lookup name = none) (h : HasHashed fields name (hashedValue md5 number value)) :
    matchesField md5 fields name value = true := by
  rw [hashedValue] at h
  cases hn : (if number then compatHashValueAsUint32 (some value) else none) with
  | none =>
    rw [hn] at h
    obtain ⟨hh, hu⟩ := h
    simp [matchesField, hplain, hh, hashedNeedle, hu, compatHashValueAsString_some]
  | some v =>
    rw [hn] at h
    obtain ⟨hh, hu⟩ := h
    have hv : compatHashValueAsUint32 (some value) = some v := by
      cases number with
      | true => exact hn
      | false => cases hn
    simp [matchesField, hplain, hh, hashedNeedle, hu, hv]

/-- A field of an ordinary table matches only its own value. -/
theorem Ordinary.lookup_of_matches (h : Ordinary fields) {name value : CString}
    (hm : matchesField md5 fields name value = true) :
    fields.lookup name = some (some value) := by
  rw [matchesField] at hm
  cases hl : fields.lookup name with
  | none => simp [hl, h.unhashed] at hm
  | some hay =>
    rw [hl] at hm
    have : hay = some value := by simpa using hm
    rw [this]

theorem matchLoop_mono {fields fields' : Fields}
    (h : ∀ name value, isCompatName name = false → matchesField md5 fields name value = true →
      matchesField md5 fields' name value = true) {needle : List (Sigma fun _ : CString => Option CString)}
    (hm : matchLoop md5 fields needle = .ok true) : matchLoop md5 fields' needle = .ok true := by
  induction needle with
  | nil => rfl
  | cons e needle ih =>
    obtain ⟨name, value⟩ := e
    cases value with
    | none => cases hm
    | some value =>
      rw [matchLoop] at hm ⊢
      by_cases hc : isCompatName name = true
      · rw [if_pos hc] at hm ⊢
        exact ih hm
      · rw [if_neg hc] at hm ⊢
        by_cases hf : matchesField md5 fields name value = true
        · rw [if_pos hf] at hm
          rw [if_pos (h name value (by simpa using hc) hf)]
          exact ih hm
        · rw [if_neg hf] at hm
          cases hm

theorem length_dropCompatNames (last : Option CString) (names : List CString) :
    (dropCompatNames last names).length ≤ names.length := by
  induction names generalizing last with
  | nil => exact Nat.le_refl _
  | cons n names ih =>
    rw [dropCompatNames]
    split
    · exact Nat.le_succ_of_le (ih last)
    · exact Nat.succ_le_succ (ih (some n))

theorem length_gkmSecretFieldsGetNames (fields : Fields) :
    (gkmSecretFieldsGetNames fields).length ≤ fields.keys.length := by
  refine Nat.le_trans (length_dropCompatNames _ _) (Nat.le_of_eq ?_)
  rw [length_insertionSort, length_map]

/-- A hashed table that was read from the attributes of an ordinary one matches what that matches. -/
theorem Ordinary.match_of_read (ho : Ordinary fields) {off : Nat} {hashed : Fields} {next : Nat}
    {needle : Fields} (hlen : (gkmSecretFieldsGetNames fields).length < 2 ^ 32)
    (h : HasAt bs off (attributesBytes md5 fields true))
    (hr : bufferGetAttributes bs off true = some (hashed, next))
    (hm : gkmSecretFieldsMatch md5 fields needle = .ok true) :
    gkmSecretFieldsMatch md5 hashed needle = .ok true := by
  have hcan : CanWriteAll (writtenValue md5 fields true) (gkmSecretFieldsGetNames fields) := by
    have hcount := uint32At_of_hasAt h.left hlen
    have hloop := h.right
    rw [length_encode] at hloop
    rw [bufferGetAttributes, hcount] at hr
    exact ho.canWriteAll_of_read (fun _ hn => hn) hloop hr
  rw [attributes_at h hlen hcan] at hr
  have heq : hashed = addFields true (writtenValue md5 fields true)
      (gkmSecretFieldsGetNames fields) ∅ := (congrArg Prod.fst (Option.some.inj hr)).symm
  subst heq
  refine matchLoop_mono (fun name value hc hf => ?_) hm
  have hv := ho.lookup_of_matches hf
  have hmem : name ∈ gkmSecretFieldsGetNames fields := by
    refine mem_gkmSecretFieldsGetNames.2 ⟨hc, .inl ?_⟩
    exact AList.lookup_isSome.1 (by rw [hv]; rfl)
  have hnames : ∀ n ∈ gkmSecretFieldsGetNames fields,
      isCompatName n = false ∧ ∃ v, writtenValue md5 fields true n = some v := fun n hn =>
    ⟨(ho.lookup_of_mem_names hn).1, (hcan n hn).2.imp fun _ h => h.1⟩
  have hempty : HashedOnly (writtenValue md5 fields true) ∅ :=
    ⟨fun _ _ => AList.lookup_empty _, fun _ _ _ => AList.lookup_empty _⟩
  obtain ⟨hall, hhas⟩ :=
    addFields_hasHashed hnames hempty (ho.writtenValue_eq md5 hc hv) (.inl hmem)
  exact matchesField_of_hasHashed (hall.plain name hc) hhas

/-- Locked search is complete: whatever needle the fields of an item match, the hashed table that is
read from the attributes written for them matches too. That table can be read whenever the names are
UTF-8 and not too long. A GLib hash table counts its entries with 32 bits. -/
theorem locked_search_complete (md5 : Md5) {fields : Fields} (hb : Built fields)
    (hsize : fields.keys.length < 2 ^ 32) {b b' : EggBuffer}
    (hw : bufferAddAttributes md5 b fields true = .ok (true, b')) (rest : Bytes) :
    (∀ hashed next needle, bufferGetAttributes (b'.buf ++ rest) b.len true = some (hashed, next) →
        gkmSecretFieldsMatch md5 fields needle = .ok true →
        gkmSecretFieldsMatch md5 hashed needle = .ok true) ∧
      ((∀ name ∈ fields, isCompatName name = false → Writable name) →
        ∃ hashed next, bufferGetAttributes (b'.buf ++ rest) b.len true = some (hashed, next)) := by
  have ho := hb.ordinary
  have hlen : (gkmSecretFieldsGetNames fields).length < 2 ^ 32 :=
    Nat.lt_of_le_of_lt (length_gkmSecretFieldsGetNames fields) hsize
  have hat : HasAt (b'.buf ++ rest) b.len (attributesBytes md5 fields true) := by
    obtain ⟨hwrote, herr⟩ := wrote_attributes hw
    have hbuf := hwrote.buf_of_noError (by simpa using herr)
    exact ⟨b.buf, rest, by rw [hbuf, append_assoc], rfl⟩
  refine ⟨fun hashed next needle hr hm => ho.match_of_read hlen hat hr hm, fun hn => ?_⟩
  refine ⟨_, _, attributes_at hat hlen fun name hname => ?_⟩
  obtain ⟨hc, value, hv⟩ := ho.lookup_of_mem_names hname
  have hmem : name ∈ fields := AList.lookup_isSome.1 (by rw [hv]; rfl)
  exact ⟨hn name hmem hc, _, ho.writtenValue_eq md5 hc hv, hashedValue_canWrite _ _ _⟩

/-- `MD5` on the one string that the sample below hashes. -/
def sampleMd5 : Md5 where
  hash data :=
    if data = ascii "carol" then
      [0xa9, 0xa0, 0x19, 0x80, 0x10, 0xa6, 0x07, 0x3d, 0xb9, 0x64, 0x34, 0xf6, 0xcc, 0x5f, 0x22,
        0xa8]
    else replicate 16 0
  length_hash data := by
    by_cases h : data = ascii "carol"
    · rw [if_pos h]
      rfl
    · rw [if_neg h]
      rfl

/-- An account and a port. -/
def sampleFields : Fields :=
  gkmSecretFieldsAddCompatUint32
    (gkmSecretFieldsAdd ∅ (some ⟨ascii "account", by decide⟩) (some ⟨ascii "carol", by decide⟩))
    (some ⟨ascii "port", by decide⟩) 80

/-- A search for that account and port. -/
def sampleNeedle : Fields :=
  gkmSecretFieldsAdd
    (gkmSecretFieldsAdd ∅ (some ⟨ascii "account", by decide⟩) (some ⟨ascii "carol", by decide⟩))
    (some ⟨ascii "port", by decide⟩) (some ⟨ascii "80", by decide⟩)

theorem sampleFields_built : Built sampleFields :=
  Built.addCompatUint32 _ (by decide) (Built.add _ (by decide) Built.new)

theorem locked_search_complete_sample : ∃ b' hashed next,
      bufferAddAttributes sampleMd5 (initBuffer 256 fun _ _ => true) sampleFields true =
          .ok (true, b') ∧
        bufferGetAttributes b'.buf 0 true = some (hashed, next) ∧
        gkmSecretFieldsMatch sampleMd5 hashed sampleNeedle = .ok true := by
  obtain ⟨r, hr, hok⟩ := exists_of_resultOf (f := fun r : Bool × EggBuffer => r.1) (b := true)
    (x := bufferAddAttributes sampleMd5 (initBuffer 256 fun _ _ => true) sampleFields true)
    (by decide +kernel)
  obtain ⟨ok, b'⟩ := r
  cases hok
  obtain ⟨hmatch, hread⟩ := locked_search_complete sampleMd5 sampleFields_built (by decide) hr []
  obtain ⟨hashed, next, hh⟩ := hread (by decide +kernel)
  refine ⟨b', hashed, next, hr, by rw [← hh, append_nil]; rfl, ?_⟩
  exact hmatch hashed next sampleNeedle hh (by decide +kernel)

end MateKeyring.Secret
