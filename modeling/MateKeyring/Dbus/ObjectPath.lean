import MateKeyring.Egg.Buffer
import MateKeyring.Lib.CStrings

/-!
# The object paths of `gkd-secret-util.c`

The identifiers of a collection and of an item are the last elements of its object path. D-Bus allows
only letters, digits and underscores there: every other byte, the underscore too, is an underscore and
two hexadecimal digits. Text is a list of bytes without its terminator.
-/

set_option autoImplicit false

namespace MateKeyring.Dbus

open Lib Egg List

/-- `SECRET_COLLECTION_PREFIX`. -/
def secretCollectionPrefix : Bytes := ascii "/org/freedesktop/secrets/collection"

/-- `SECRET_ALIAS_PREFIX`. -/
def secretAliasPrefix : Bytes := ascii "/org/freedesktop/secrets/aliases"

/-! ## Building -/

/-- A character that goes right through. -/
def isNormal (ch : UInt8) : Bool := inRange 0x41 0x5a ch || inRange 0x61 0x7a ch || inRange 0x30 0x39 ch

/-- What the loop of `gkd_secret_util_build_path` appends for a character. -/
def encodeByte (ch : UInt8) : Bytes := if isNormal ch then [ch] else 0x5f :: hex02 ch

/-- `gkd_secret_util_build_path`. The identifier is memory; its length may be left to `strlen`. -/
def gkdSecretUtilBuildPath (base identifier : Bytes) (nIdentifier : Int) : Checked Bytes := do
  cAssert (base.head? = some 0x2f)
  let length := if nIdentifier < 0 then strlen identifier else nIdentifier.toNat
  let result := if base.getLast? = some 0x2f then base else base ++ [0x2f]
  pure (result ++ (identifier.take length).flatMap encodeByte)

/-! ## Parsing -/

/-- The loop of `decode_object_identifier`. It looks ahead behind the part that it is given, and may
take the two digits from there. -/
def decodeLoop : Bytes → Nat → Bytes
  | _, 0 => []
  | [], _ + 1 => []
  | ch :: a :: b :: enc, length + 1 =>
    if ch = 0x5f ∧ isXdigit a ∧ isXdigit b then
      UInt8.ofNat (xdigitValue a * 16 + xdigitValue b) :: decodeLoop enc (length - 2)
    else ch :: decodeLoop (a :: b :: enc) length
  | ch :: enc, length + 1 => ch :: decodeLoop enc length

/-- `decode_object_identifier`. -/
def decodeObjectIdentifier (enc : Bytes) (length : Int) : Bytes :=
  decodeLoop enc (if length < 0 then enc.length else length.toNat)

/-- The path after one of the two places it may start with. -/
def skipPlace (path : Bytes) : Option Bytes :=
  if secretCollectionPrefix.isPrefixOf path then some (path.drop secretCollectionPrefix.length)
  else if secretAliasPrefix.isPrefixOf path then some (path.drop secretAliasPrefix.length)
  else none

/-- `gkd_secret_util_parse_path`: the collection, and the item if there is one. -/
def gkdSecretUtilParsePath (path : Bytes) : Option (Bytes × Option Bytes) :=
  match skipPlace path with
  | none | some [] => none
  | some (c :: path) =>
    if c ≠ 0x2f then none
    else if path = [] then none
    else
      match strchr 0x2f path with
      | none => some (decodeObjectIdentifier path (-1), none)
      | some (before, item) =>
        if item = [] ∨ (strchr 0x2f item).isSome then none
        else
          some (decodeObjectIdentifier path before.length, some (decodeObjectIdentifier item (-1)))

/-! ## Round trips -/

/-- The path of a collection, as the service builds it. -/
def collectionPath (collection : Bytes) : Checked Bytes :=
  gkdSecretUtilBuildPath secretCollectionPrefix collection (-1)

/-- The path of an item. -/
def itemPath (collection item : Bytes) : Checked Bytes := do
  let base ← collectionPath collection
  gkdSecretUtilBuildPath base item (-1)

/-- A character that may stand in an element of an object path. -/
def isLegal (c : UInt8) : Bool := isNormal c || c == 0x5f

/-- An object path of D-Bus: a slash before each of its elements, and no element is empty. -/
def IsObjectPath (path : Bytes) : Prop :=
  ∃ elements : List Bytes, elements ≠ [] ∧
    (∀ element ∈ elements, element ≠ [] ∧ ∀ c ∈ element, isLegal c = true) ∧
    path = elements.flatMap fun element => 0x2f :: element

variable {c i c' i' : Bytes}

theorem isNormal_of_isXdigit {a : UInt8} (h : isXdigit a = true) : isNormal a = true := by
  simp only [isXdigit, isNormal, inRange, Bool.or_eq_true, Bool.and_eq_true, decide_eq_true_eq,
    UInt8.le_iff_toNat_le] at h ⊢
  change ((48 ≤ a.toNat ∧ a.toNat ≤ 57) ∨ (65 ≤ a.toNat ∧ a.toNat ≤ 70)) ∨
    (97 ≤ a.toNat ∧ a.toNat ≤ 102) at h
  change ((65 ≤ a.toNat ∧ a.toNat ≤ 90) ∨ (97 ≤ a.toNat ∧ a.toNat ≤ 122)) ∨
    (48 ≤ a.toNat ∧ a.toNat ≤ 57)
  omega

theorem ne_of_isNormal {a : UInt8} (h : isNormal a = true) : a ≠ 0x5f := by
  rintro rfl
  exact absurd h (by decide)

theorem isLegal_of_mem_encodeByte {ch a : UInt8} (h : a ∈ encodeByte ch) : isLegal a = true := by
  unfold encodeByte at h
  split at h
  · next hnormal =>
      rw [mem_singleton.1 h, isLegal, hnormal]
      rfl
  · rcases mem_cons.1 h with rfl | h
    · rfl
    · rw [isLegal, isNormal_of_isXdigit (isXdigit_of_mem_hex02 h)]
      rfl

theorem slash_not_mem_encode (identifier : Bytes) :
    (0x2f : UInt8) ∉ identifier.flatMap encodeByte := by
  intro h
  obtain ⟨ch, -, hmem⟩ := mem_flatMap.1 h
  exact absurd (isLegal_of_mem_encodeByte hmem) (by decide)

theorem encode_ne_nil (h : c ≠ []) : c.flatMap encodeByte ≠ [] := by
  obtain ⟨ch, s, rfl⟩ := exists_cons_of_ne_nil h
  rw [flatMap_cons, encodeByte]
  split
  · exact cons_ne_nil _ _
  · exact cons_ne_nil _ _

/-- A character that is no underscore is taken as it is. -/
theorem decodeLoop_normal {ch : UInt8} (h : ch ≠ 0x5f) (enc : Bytes) (n : Nat) :
    decodeLoop (ch :: enc) (n + 1) = ch :: decodeLoop enc n := by
  rcases enc with - | ⟨a, - | ⟨b, enc⟩⟩
  · rfl
  · rfl
  · exact if_neg fun hand => h hand.1

/-- One encoded character is decoded, whatever follows it. -/
theorem decodeLoop_encodeByte (ch : UInt8) (enc : Bytes) (n : Nat) :
    decodeLoop (encodeByte ch ++ enc) ((encodeByte ch).length + n) = ch :: decodeLoop enc n := by
  unfold encodeByte
  split
  · next hnormal =>
      rw [length_singleton, Nat.add_comm]
      exact decodeLoop_normal (ne_of_isNormal hnormal) enc n
  · have hb := ch.toNat_lt
    have hhi := (hexDigit_spec (by omega : ch.toNat / 16 < 16)).1
    have hlo := (hexDigit_spec (by omega : ch.toNat % 16 < 16)).1
    have hlength : (0x5f :: hex02 ch).length + n = (n + 2) + 1 := by
      rw [hex02, length_cons, length_cons, length_singleton]
      omega
    rw [hlength]
    refine (if_pos ⟨rfl, hhi, hlo⟩).trans ?_
    rw [ofNat_xdigitValue, Nat.add_sub_cancel]
    rfl

theorem decodeLoop_encode (identifier enc : Bytes) :
    decodeLoop (identifier.flatMap encodeByte ++ enc) (identifier.flatMap encodeByte).length =
      identifier := by
  induction identifier with
  | nil => cases enc <;> rfl
  | cons ch s ih =>
    rw [flatMap_cons, append_assoc, length_append, decodeLoop_encodeByte, ih]

theorem decodeObjectIdentifier_whole (identifier : Bytes) :
    decodeObjectIdentifier (identifier.flatMap encodeByte) (-1) = identifier := by
  have h := decodeLoop_encode identifier []
  rwa [append_nil] at h

theorem decodeObjectIdentifier_part (identifier enc : Bytes) :
    decodeObjectIdentifier (identifier.flatMap encodeByte ++ enc)
      (identifier.flatMap encodeByte).length = identifier := by
  unfold decodeObjectIdentifier
  rw [if_neg (by omega), Int.toNat_natCast]
  exact decodeLoop_encode identifier enc

/-- A string is appended to a base that does not end in a slash. -/
theorem buildPath_eq {base : Bytes} (hbase : base.head? = some 0x2f)
    (hlast : base.getLast? ≠ some 0x2f) (hc : (0 : UInt8) ∉ c) :
    gkdSecretUtilBuildPath base c (-1) = .ok (base ++ 0x2f :: c.flatMap encodeByte) := by
  unfold gkdSecretUtilBuildPath
  rw [cAssert_of_true hbase, ok_bind]
  have hlength : (if (-1 : Int) < 0 then strlen c else (-1 : Int).toNat) = c.length :=
    (if_pos (by decide)).trans (strlen_eq hc)
  simp only [hlength, if_neg hlast, take_length, pure_eq_ok, append_assoc, singleton_append]

theorem collectionPath_eq (hc : (0 : UInt8) ∉ c) :
    collectionPath c = .ok (secretCollectionPrefix ++ 0x2f :: c.flatMap encodeByte) :=
  buildPath_eq (by decide) (by decide) hc

theorem itemPath_eq (hne : c ≠ []) (hc : (0 : UInt8) ∉ c) (hi : (0 : UInt8) ∉ i) :
    itemPath c i = .ok (secretCollectionPrefix ++ 0x2f :: c.flatMap encodeByte ++
      0x2f :: i.flatMap encodeByte) := by
  unfold itemPath
  rw [collectionPath_eq hc, ok_bind]
  refine buildPath_eq rfl ?_ hi
  -- the last character is one of the encoded identifier
  rw [getLast?_append, getLast?_cons,
    getLast?_eq_some_getLast (encode_ne_nil hne), Option.some_or]
  intro hlast
  exact slash_not_mem_encode c (Option.some.inj hlast ▸ getLast_mem (encode_ne_nil hne))

theorem skipPlace_collection (path : Bytes) :
    skipPlace (secretCollectionPrefix ++ path) = some path := by
  unfold skipPlace
  rw [if_pos ( isPrefixOf_iff_prefix.2 (prefix_append _ _)), drop_left]

theorem parsePath_collection (hne : c ≠ []) :
    gkdSecretUtilParsePath (secretCollectionPrefix ++ 0x2f :: c.flatMap encodeByte) =
      some (c, none) := by
  unfold gkdSecretUtilParsePath
  rw [skipPlace_collection]
  dsimp only
  rw [if_neg (not_not.2 rfl), if_neg (encode_ne_nil hne), strchr_eq_none (slash_not_mem_encode c)]
  rw [decodeObjectIdentifier_whole]

theorem parsePath_item (hc : c ≠ []) (hi : i ≠ []) :
    gkdSecretUtilParsePath (secretCollectionPrefix ++ 0x2f :: c.flatMap encodeByte ++
      0x2f :: i.flatMap encodeByte) = some (c, some i) := by
  have hne : c.flatMap encodeByte ++ 0x2f :: i.flatMap encodeByte ≠ [] :=
    append_ne_nil_of_left_ne_nil (encode_ne_nil hc) _
  have hone : ¬ (i.flatMap encodeByte = [] ∨ (strchr 0x2f (i.flatMap encodeByte)).isSome) := by
    rw [strchr_eq_none (slash_not_mem_encode i)]
    simp [encode_ne_nil hi]
  unfold gkdSecretUtilParsePath
  rw [append_assoc, cons_append, skipPlace_collection]
  dsimp only
  rw [if_neg (not_not.2 rfl), if_neg hne, strchr_append (slash_not_mem_encode c)]
  dsimp only
  rw [if_neg hone, decodeObjectIdentifier_part, decodeObjectIdentifier_whole]

theorem legal_encode (hne : c ≠ []) :
    c.flatMap encodeByte ≠ [] ∧ ∀ a ∈ c.flatMap encodeByte, isLegal a = true := by
  refine ⟨encode_ne_nil hne, fun a ha => ?_⟩
  obtain ⟨ch, -, hmem⟩ := mem_flatMap.1 ha
  exact isLegal_of_mem_encodeByte hmem

/-- The elements of the path that all of them begin with. -/
def prefixElements : List Bytes :=
  [ascii "org", ascii "freedesktop", ascii "secrets", ascii "collection"]

theorem isObjectPath_append {elements : List Bytes} (hne : elements ≠ [])
    (h : ∀ element ∈ elements, element ≠ [] ∧ ∀ a ∈ element, isLegal a = true) :
    IsObjectPath (secretCollectionPrefix ++ elements.flatMap fun element => 0x2f :: element) := by
  refine ⟨prefixElements ++ elements, append_ne_nil_of_right_ne_nil _ hne, fun element helement => ?_, ?_⟩
  · rcases mem_append.1 helement with hmem | hmem
    · have hall : prefixElements.all (fun element => element ≠ [] && element.all isLegal) = true := by decide
      have helement' := all_eq_true.1 hall element hmem
      rw [Bool.and_eq_true, decide_eq_true_eq, all_eq_true] at helement'
      exact helement'
    · exact h element hmem
  · rw [flatMap_append]
    rfl

theorem isObjectPath_collection (hc : c ≠ []) :
    IsObjectPath (secretCollectionPrefix ++ 0x2f :: c.flatMap encodeByte) := by
  have hpath := isObjectPath_append (cons_ne_nil (c.flatMap encodeByte) []) fun element hmem =>
    mem_singleton.1 hmem ▸ legal_encode hc
  rwa [flatMap_cons, flatMap_nil, append_nil] at hpath

theorem isObjectPath_item (hc : c ≠ []) (hi : i ≠ []) :
    IsObjectPath (secretCollectionPrefix ++ 0x2f :: c.flatMap encodeByte ++
      0x2f :: i.flatMap encodeByte) := by
  have hpath := isObjectPath_append
    (cons_ne_nil (c.flatMap encodeByte) [i.flatMap encodeByte]) fun element hmem => by
      rcases mem_cons.1 hmem with rfl | hmem
      · exact legal_encode hc
      · exact mem_singleton.1 hmem ▸ legal_encode hi
  rwa [flatMap_cons, flatMap_cons, flatMap_nil, append_nil, ← append_assoc] at hpath

/-- The path of a collection and that of an item are legal and are parsed to the identifiers they were
built from; so no two of them are equal. -/
theorem object_path_round_trip (hc : c ≠ []) (hi : i ≠ []) (hc₀ : (0 : UInt8) ∉ c)
    (hi₀ : (0 : UInt8) ∉ i) :
    (∃ path, itemPath c i = .ok path ∧ gkdSecretUtilParsePath path = some (c, some i) ∧
      IsObjectPath path) ∧
    (∃ path, collectionPath c = .ok path ∧ gkdSecretUtilParsePath path = some (c, none) ∧
      IsObjectPath path) ∧
    ∀ c' i' : Bytes, c' ≠ [] → i' ≠ [] → (0 : UInt8) ∉ c' → (0 : UInt8) ∉ i' →
      (itemPath c i = itemPath c' i' → c = c' ∧ i = i') ∧
      (collectionPath c = collectionPath c' → c = c') ∧ itemPath c i ≠ collectionPath c' := by
  refine ⟨⟨_, itemPath_eq hc hc₀ hi₀, parsePath_item hc hi, isObjectPath_item hc hi⟩,
    ⟨_, collectionPath_eq hc₀, parsePath_collection hc, isObjectPath_collection hc⟩,
    fun c' i' hc' hi' hc₀' hi₀' => ⟨?_, ?_, ?_⟩⟩
  · intro heq
    rw [itemPath_eq hc hc₀ hi₀, itemPath_eq hc' hc₀' hi₀'] at heq
    have hparse := congrArg gkdSecretUtilParsePath (Except.ok.inj heq)
    rw [parsePath_item hc hi, parsePath_item hc' hi'] at hparse
    cases hparse
    exact ⟨rfl, rfl⟩
  · intro heq
    rw [collectionPath_eq hc₀, collectionPath_eq hc₀'] at heq
    have hparse := congrArg gkdSecretUtilParsePath (Except.ok.inj heq)
    rw [parsePath_collection hc, parsePath_collection hc'] at hparse
    cases hparse
    rfl
  · intro heq
    rw [itemPath_eq hc hc₀ hi₀, collectionPath_eq hc₀'] at heq
    have hparse := congrArg gkdSecretUtilParsePath (Except.ok.inj heq)
    rw [parsePath_item hc hi, parsePath_collection hc'] at hparse
    cases hparse

theorem object_path_round_trip_underscore :
    ∃ path, itemPath (ascii "_5f") (ascii "a/b") = .ok path ∧
      gkdSecretUtilParsePath path = some (ascii "_5f", some (ascii "a/b")) ∧ IsObjectPath path :=
  (object_path_round_trip (by decide) (by decide) (by decide) (by decide)).1

end MateKeyring.Dbus
