import Mathlib.Data.List.AList
import Mathlib.Data.List.Sort
import MateKeyring.Egg.Buffer
import MateKeyring.Egg.Hex

/-!
# The fields of a secret item

`gkm-secret-fields.c`: the names and values by which items are searched. A field whose value is a
number carries a second entry under a name with the prefix `gkr:compat:uint32:`; a field of which only
the hash is known is stored under a name with the prefix `gkr:compat:hashed:`. Names with the prefix
`gkr:compat:` are not names of fields.

A table is an `AList`, whose order stands for the order in which GLib goes through a hash table, and
its values may be null pointers.
-/

set_option autoImplicit false

namespace MateKeyring.Secret

open Lib Egg List

variable {name : CString}

/-- The table of fields of an item. -/
abbrev Fields := AList fun _ : CString => Option CString

/-- `gcry_md_hash_buffer` with `GCRY_MD_MD5`. -/
structure Md5 where
  hash : Bytes → Bytes
  length_hash : ∀ data, (hash data).length = 16

/-! ## Names -/

/-- One string after the other. -/
def concat (s t : CString) : CString := ⟨s.val ++ t.val, by simp [s.property, t.property]⟩

def compatPrefix : CString := ⟨ascii "gkr:compat:", by decide⟩
def hashedPrefix : CString := ⟨ascii "gkr:compat:hashed:", by decide⟩
def uint32Prefix : CString := ⟨ascii "gkr:compat:uint32:", by decide⟩

/-- `begins_with`. -/
def beginsWith (string pre : CString) : Bool := pre.val.isPrefixOf string.val

/-- `is_compat_name`. -/
def isCompatName (name : CString) : Bool := beginsWith name compatPrefix

/-- `make_compat_hashed_name`. -/
def makeCompatHashedName (name : CString) : CString := concat hashedPrefix name

/-- `make_compat_uint32_name`. -/
def makeCompatUint32Name (name : CString) : CString := concat uint32Prefix name

/-! ## Values -/

/-- `parse_uint32`: the number, when the whole string is read. -/
def parseUint32 (value : CString) : Option UInt32 :=
  let number := strtoul 64 value.val
  if number.2 = [] then some (UInt32.ofNat number.1) else none

/-- `format_uint32`. -/
def formatUint32 (value : UInt32) : CString := ⟨decimal value.toNat, zero_not_mem_decimal _⟩

/-- `compat_hash_value_as_uint32`. -/
def compatHashValueAsUint32 (value : Option CString) : Option UInt32 :=
  (value.bind parseUint32).map fun x =>
    (0x18273645 : UInt32) ^^^ x ^^^ ((x <<< (16 : UInt32)) ||| (x >>> (16 : UInt32)))

/-- `compat_hash_value_as_string`. -/
def compatHashValueAsString (md5 : Md5) (value : Option CString) : Option CString :=
  value.map fun v =>
    ⟨eggHexEncodeFull (md5.hash v.val) false 0 0, zero_not_mem_eggHexEncodeFull _ _ _⟩

/-! ## The table -/

/-- `gkm_secret_fields_take`; a null name is refused. -/
def gkmSecretFieldsTake (fields : Fields) (name value : Option CString) : Fields :=
  match name with
  | none => fields
  | some name => fields.insert name (some (value.getD ⟨[], by simp⟩))

/-- `gkm_secret_fields_add`. -/
def gkmSecretFieldsAdd (fields : Fields) (name value : Option CString) : Fields :=
  gkmSecretFieldsTake fields name value

/-- `gkm_secret_fields_get`. -/
def gkmSecretFieldsGet (fields : Fields) (name : CString) : Option CString :=
  if isCompatName name then none else (fields.lookup name).join

/-- The loop of `gkm_secret_fields_get_names` that drops compat names and repeated names; `last` is
the last name that was kept. -/
def dropCompatNames : Option CString → List CString → List CString
  | _, [] => []
  | last, name :: names =>
    if isCompatName name ∨ last = some name then dropCompatNames last names
    else name :: dropCompatNames (some name) names

/-- A hashed field goes by its base name. -/
def baseName (name : CString) : CString :=
  if beginsWith name hashedPrefix then
    ⟨name.val.drop hashedPrefix.val.length, fun h => name.property (mem_of_mem_drop h)⟩
  else name

/-- `strcmp (one, two) <= 0`. -/
def strcmpLe (one two : CString) : Prop := one.val ≤ two.val

instance : DecidableRel strcmpLe := fun one two => inferInstanceAs (Decidable (one.val ≤ two.val))

/-- `gkm_secret_fields_get_names`. -/
def gkmSecretFieldsGetNames (fields : Fields) : List CString :=
  dropCompatNames none ((fields.keys.map baseName).insertionSort strcmpLe)

/-- `gkm_secret_fields_add_compat_uint32`. -/
def gkmSecretFieldsAddCompatUint32 (fields : Fields) (name : Option CString) (value : UInt32) :
    Fields :=
  match name with
  | none => fields
  | some name =>
    if isCompatName name then fields
    else
      (fields.insert name (some (formatUint32 value))).insert (makeCompatUint32Name name)
        (some ⟨[], by simp⟩)

/-- `gkm_secret_fields_get_compat_uint32`; a field that is marked as a number but is not there is an
assertion that fails. -/
def gkmSecretFieldsGetCompatUint32 (fields : Fields) (name : CString) : Checked (Option UInt32) :=
  if isCompatName name then .ok none
  else if (fields.lookup (makeCompatUint32Name name)).join.isNone then .ok none
  else
    match (fields.lookup name).join with
    | none => .error .assertion
    | some value => .ok (parseUint32 value)

/-- `gkm_secret_fields_add_compat_hashed_string`; a null value is stored as it is. -/
def gkmSecretFieldsAddCompatHashedString (fields : Fields) (name value : Option CString) : Fields :=
  match name with
  | none => fields
  | some name =>
    if isCompatName name then fields else fields.insert (makeCompatHashedName name) value

/-- `gkm_secret_fields_get_compat_hashed_string`. -/
def gkmSecretFieldsGetCompatHashedString (md5 : Md5) (fields : Fields) (name : CString) :
    Option (Option CString) :=
  if isCompatName name then none
  else
    match fields.lookup name with
    | some value => some (compatHashValueAsString md5 value)
    -- perhaps it is there hashed already
    | none => fields.lookup (makeCompatHashedName name)

/-- `gkm_secret_fields_add_compat_hashed_uint32`. -/
def gkmSecretFieldsAddCompatHashedUint32 (fields : Fields) (name : Option CString) (value : UInt32) :
    Fields :=
  match name with
  | none => fields
  | some name =>
    if isCompatName name then fields
    else
      (fields.insert (makeCompatHashedName name) (some (formatUint32 value))).insert
        (makeCompatUint32Name name) (some name)

/-- The end of `gkm_secret_fields_get_compat_hashed_uint32`: the number that is there hashed already.
A null value is an assertion that fails. -/
def alreadyHashedUint32 (fields : Fields) (name : CString) : Checked (Option UInt32) :=
  match fields.lookup (makeCompatHashedName name) with
  | none => .ok none
  | some none => .error .assertion
  | some (some value) => .ok (parseUint32 value)

/-- `gkm_secret_fields_get_compat_hashed_uint32`. -/
def gkmSecretFieldsGetCompatHashedUint32 (fields : Fields) (name : CString) :
    Checked (Option UInt32) :=
  if isCompatName name then .ok none
  else if (fields.lookup (makeCompatUint32Name name)).isSome then
    match compatHashValueAsUint32 (fields.lookup name).join with
    | some number => .ok (some number)
    | none => alreadyHashedUint32 fields name
  else alreadyHashedUint32 fields name

/-! ## Matching -/

/-- What `gkm_secret_fields_match` compares a hashed value with: how it hashes depends on whether the
haystack has a number there. -/
def hashedNeedle (md5 : Md5) (haystack : Fields) (key value : CString) : Option CString :=
  if (haystack.lookup (makeCompatUint32Name key)).join.isSome then
    (compatHashValueAsUint32 (some value)).map formatUint32
  else compatHashValueAsString md5 (some value)

/-- One round of the loop of `gkm_secret_fields_match`. -/
def matchesField (md5 : Md5) (haystack : Fields) (key value : CString) : Bool :=
  match haystack.lookup key with
  | some hay => hay == some value
  | none =>
    match haystack.lookup (makeCompatHashedName key) with
    | none => false
    | some hay => hay == hashedNeedle md5 haystack key value

/-- The loop of `gkm_secret_fields_match`. -/
def matchLoop (md5 : Md5) (haystack : Fields) :
    List (Sigma fun _ : CString => Option CString) → Checked Bool
  | [] => .ok true
  | ⟨_, none⟩ :: _ => .error .assertion
  | ⟨key, some value⟩ :: rest =>
    -- compat fields of the needle make no difference
    if isCompatName key then matchLoop md5 haystack rest
    else if matchesField md5 haystack key value then matchLoop md5 haystack rest
    else .ok false

/-- `gkm_secret_fields_match`. -/
def gkmSecretFieldsMatch (md5 : Md5) (haystack needle : Fields) : Checked Bool :=
  matchLoop md5 haystack needle.entries

/-! ## Compat names -/

theorem beginsWith_iff {string pre : CString} :
    beginsWith string pre = true ↔ pre.val <+: string.val :=
  isPrefixOf_iff_prefix

@[simp] theorem isCompatName_hashed (name : CString) :
    isCompatName (makeCompatHashedName name) = true :=
  beginsWith_iff.2 ⟨ascii "hashed:" ++ name.val, rfl⟩

@[simp] theorem isCompatName_uint32 (name : CString) :
    isCompatName (makeCompatUint32Name name) = true :=
  beginsWith_iff.2 ⟨ascii "uint32:" ++ name.val, rfl⟩

theorem concat_injective {s t t' : CString} (h : concat s t = concat s t') : t = t' :=
  Subtype.ext (append_cancel_left (congrArg Subtype.val h))

@[simp] theorem makeCompatHashedName_inj {a b : CString} :
    makeCompatHashedName a = makeCompatHashedName b ↔ a = b :=
  ⟨concat_injective, fun h => by rw [h]⟩

@[simp] theorem makeCompatUint32Name_inj {a b : CString} :
    makeCompatUint32Name a = makeCompatUint32Name b ↔ a = b :=
  ⟨concat_injective, fun h => by rw [h]⟩

/-- The two kinds of compat names differ at their twelfth character. -/
@[simp] theorem makeCompatHashedName_ne_uint32 (a b : CString) :
    makeCompatHashedName a ≠ makeCompatUint32Name b := by
  intro h
  have h' := congrArg (fun s : CString => s.val.getD 11 0) h
  have ha : (makeCompatHashedName a).val.getD 11 0 = 0x68 := rfl
  have hb : (makeCompatUint32Name b).val.getD 11 0 = 0x75 := rfl
  rw [ha, hb] at h'
  exact absurd h' (by decide)

@[simp] theorem makeCompatUint32Name_ne_hashed (a b : CString) :
    makeCompatUint32Name a ≠ makeCompatHashedName b :=
  (makeCompatHashedName_ne_uint32 b a).symm

theorem ne_of_not_compat {a b : CString} (ha : isCompatName a = false) (hb : isCompatName b = true) :
    a ≠ b := by
  rintro rfl
  rw [ha] at hb
  cases hb

theorem beginsWith_hashed_compat (h : beginsWith name hashedPrefix = true) :
    isCompatName name = true := by
  have hpre : compatPrefix.val <+: hashedPrefix.val := ⟨ascii "hashed:", rfl⟩
  exact beginsWith_iff.2 (hpre.trans (beginsWith_iff.1 h))

theorem baseName_of_not_compat (h : isCompatName name = false) : baseName name = name := by
  rw [baseName, if_neg]
  intro hb
  rw [beginsWith_hashed_compat hb] at h
  cases h

@[simp] theorem baseName_hashed (name : CString) : baseName (makeCompatHashedName name) = name := by
  have h : beginsWith (makeCompatHashedName name) hashedPrefix = true :=
    beginsWith_iff.2 ⟨name.val, rfl⟩
  rw [baseName, if_pos h]
  exact Subtype.ext drop_left

/-- A name that goes by another one is the hashed form of it. -/
theorem baseName_cases (key : CString) : baseName key = key ∨ key = makeCompatHashedName (baseName key) := by
  by_cases h : beginsWith key hashedPrefix = true
  · right
    obtain ⟨rest, hrest⟩ := beginsWith_iff.1 h
    apply Subtype.ext
    rw [baseName, if_pos h]
    simp only [makeCompatHashedName, concat, ← hrest, drop_left]
  · left
    rw [baseName, if_neg h]

/-! ## The names of a table -/

theorem mem_dropCompatNames {names : List CString} {last : Option CString} (h : last ≠ some name) :
    name ∈ dropCompatNames last names ↔ name ∈ names ∧ isCompatName name = false := by
  induction names generalizing last with
  | nil => simp [dropCompatNames]
  | cons n names ih =>
    rw [dropCompatNames]
    by_cases hn : n = name
    · subst hn
      by_cases hc : isCompatName n = true
      · rw [if_pos (.inl hc), ih h]
        simp [hc]
      · rw [if_neg (by simp [hc, h])]
        simp [hc]
    · split
      · rw [ih h]
        simp [Ne.symm hn]
      · have hlast : some n ≠ some name := by simpa using hn
        rw [mem_cons, ih hlast]
        simp [Ne.symm hn]

/-- The names are those of the fields that are there, plain or hashed. -/
theorem mem_gkmSecretFieldsGetNames {fields : Fields} :
    name ∈ gkmSecretFieldsGetNames fields ↔
      isCompatName name = false ∧ (name ∈ fields ∨ makeCompatHashedName name ∈ fields) := by
  rw [gkmSecretFieldsGetNames, mem_dropCompatNames (by simp), (perm_insertionSort _ _).mem_iff,
    mem_map, and_comm]
  constructor
  · rintro ⟨hc, key, hkey, rfl⟩
    refine ⟨hc, ?_⟩
    rcases baseName_cases key with h | h
    · exact .inl (by rw [h]; exact hkey)
    · exact .inr (by rw [← h]; exact hkey)
  · rintro ⟨hc, hkey | hkey⟩
    · exact ⟨hc, name, hkey, baseName_of_not_compat hc⟩
    · exact ⟨hc, _, hkey, baseName_hashed name⟩

end MateKeyring.Secret
