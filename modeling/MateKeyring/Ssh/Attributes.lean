import MateKeyring.Lib.BigEndian

/-!
# Attribute sets of the PKCS#11 client

`gck-attributes.c`. A `GckAttributes` is an array of attributes; adding appends, and finding gives
the first attribute of a type. The memory of an attribute is a null pointer or holds exactly
`length` bytes; a null pointer goes with the length zero or with the length `(gulong)-1` that marks
the attribute invalid. `GckValue` has one constructor for each of the three.
-/

set_option autoImplicit false

namespace MateKeyring.Ssh

open Lib BigEndian

/-- The memory of an attribute: `length` bytes, a null pointer, or the mark of an invalid one. -/
inductive GckValue where
  | data (value : Bytes)
  | null
  | invalid
  deriving DecidableEq, Repr

/-- `GckAttribute`. -/
structure GckAttribute where
  type : Nat
  value : GckValue
  deriving DecidableEq, Repr

/-- `GckAttributes`. -/
abbrev GckAttributes := List GckAttribute

/-- `G_MAXULONG`. -/
abbrev gMaxUlong : Nat := 2 ^ 64 - 1

/-- The eight bytes of a `CK_ULONG`, the least significant first. -/
def ulongBytes (value : Nat) : Bytes := (encode 8 value).reverse

/-- `gck_value_to_ulong`. -/
def gckValueToUlong (value : Bytes) : Option Nat :=
  if value.length = 8 then some (decode value.reverse) else none

/-- `gck_attributes_add_data`; `none` is a null pointer. -/
def gckAttributesAddData (attrs : GckAttributes) (type : Nat) (value : Option Bytes) :
    GckAttributes :=
  attrs ++ [⟨type, value.elim .null .data⟩]

/-- `gck_attributes_add_ulong`. -/
def gckAttributesAddUlong (attrs : GckAttributes) (type value : Nat) : GckAttributes :=
  gckAttributesAddData attrs type (some (ulongBytes value))

/-- `gck_attributes_add_boolean`. -/
def gckAttributesAddBoolean (attrs : GckAttributes) (type : Nat) (value : Bool) : GckAttributes :=
  gckAttributesAddData attrs type (some [if value then 1 else 0])

/-- `gck_attributes_add`. -/
def gckAttributesAdd (attrs : GckAttributes) (attr : GckAttribute) : GckAttributes :=
  attrs ++ [attr]

/-- `gck_attributes_find`. -/
def gckAttributesFind (attrs : GckAttributes) (type : Nat) : Option GckAttribute :=
  attrs.find? fun attr => attr.type = type

/-- `gck_attributes_find_ulong`: an attribute of another size counts as found, with the value
`gck_attribute_get_ulong` returns for it. -/
def gckAttributesFindUlong (attrs : GckAttributes) (type : Nat) : Option Nat :=
  match gckAttributesFind attrs type with
  | none => none
  | some ⟨_, .invalid⟩ => none
  | some ⟨_, .null⟩ => some gMaxUlong
  | some ⟨_, .data value⟩ => some ((gckValueToUlong value).getD gMaxUlong)

/-- `gck_attributes_add_string`; `none` is a null pointer. -/
def gckAttributesAddString (attrs : GckAttributes) (type : Nat) (value : Option Bytes) :
    GckAttributes :=
  gckAttributesAddData attrs type value

/-- `gck_attribute_get_string`; `g_strndup` stops at a null character. -/
def gckAttributeGetString (attr : GckAttribute) : Option Bytes :=
  match attr.value with
  | .invalid | .null => none
  | .data value => some (value.takeWhile (· ≠ 0))

/-- `gck_attributes_find_string`: an attribute without memory counts as found, with a null pointer. -/
def gckAttributesFindString (attrs : GckAttributes) (type : Nat) : Option (Option Bytes) :=
  match gckAttributesFind attrs type with
  | none | some ⟨_, .invalid⟩ => none
  | some attr => some (gckAttributeGetString attr)

/-! ## Attribute types and values -/

abbrev ckaClass : Nat := 0x0
abbrev ckaToken : Nat := 0x1
abbrev ckaLabel : Nat := 0x3
abbrev ckaValue : Nat := 0x11
abbrev ckaKeyType : Nat := 0x100
abbrev ckaId : Nat := 0x102
abbrev ckaModulus : Nat := 0x120
abbrev ckaModulusBits : Nat := 0x121
abbrev ckaPublicExponent : Nat := 0x122
abbrev ckaPrivateExponent : Nat := 0x123
abbrev ckaPrime1 : Nat := 0x124
abbrev ckaPrime2 : Nat := 0x125
abbrev ckaCoefficient : Nat := 0x128
abbrev ckaPrime : Nat := 0x130
abbrev ckaSubprime : Nat := 0x131
abbrev ckaBase : Nat := 0x132

abbrev ckoData : Nat := 0x0
abbrev ckoCertificate : Nat := 0x1
abbrev ckoPublicKey : Nat := 0x2
abbrev ckoPrivateKey : Nat := 0x3
abbrev ckoSecretKey : Nat := 0x4

abbrev ckkRsa : Nat := 0x0
abbrev ckkDsa : Nat := 0x1

/-! ## Finding what was added -/

theorem gckValueToUlong_ulongBytes {value : Nat} (h : value < 2 ^ 64) :
    gckValueToUlong (ulongBytes value) = some value := by
  have hlen : (ulongBytes value).length = 8 := by simp [ulongBytes]
  rw [gckValueToUlong, if_pos hlen, ulongBytes, List.reverse_reverse,
    decode_encode_of_lt (by omega)]

theorem gckAttributesFind_append (attrs attrs' : GckAttributes) (type : Nat) :
    gckAttributesFind (attrs ++ attrs') type =
      (gckAttributesFind attrs type).or (gckAttributesFind attrs' type) := by
  simp [gckAttributesFind]

theorem gckAttributesFind_cons (attr : GckAttribute) (attrs : GckAttributes) (type : Nat) :
    gckAttributesFind (attr :: attrs) type =
      if attr.type = type then some attr else gckAttributesFind attrs type := by
  by_cases h : attr.type = type <;> simp [gckAttributesFind, h]

theorem gckAttributesFindUlong_of_find {attrs : GckAttributes} {type value : Nat}
    (h : gckAttributesFind attrs type = some ⟨type, .data (ulongBytes value)⟩)
    (hv : value < 2 ^ 64) : gckAttributesFindUlong attrs type = some value := by
  simp [gckAttributesFindUlong, h, gckValueToUlong_ulongBytes hv]

end MateKeyring.Ssh
