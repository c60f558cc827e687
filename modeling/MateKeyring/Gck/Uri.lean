import Mathlib.Data.List.ReduceOption
import MateKeyring.Egg.Buffer
import MateKeyring.Egg.Hex
import MateKeyring.Lib.CStrings
import MateKeyring.Ssh.Attributes

/-!
# The PKCS#11 URIs of `gck-uri.c`

A URI is the scheme and fields `key=value`, with a semicolon between them. Strings are escaped by GLib,
which is a parameter: `UriEscaping` is what its documentation says. Text is a list of bytes without its
terminator. Of `GckModuleInfo` and `GckTokenInfo` there are the strings that a URI has.
-/

set_option autoImplicit false

namespace MateKeyring.Gck

open Lib Egg Ssh List

/-- A character that a URI may have anywhere: a letter, a digit, a dash, a dot, an underscore or a
tilde. -/
def isUnreserved (c : UInt8) : Bool :=
  inRange 0x41 0x5a c || inRange 0x61 0x7a c || inRange 0x30 0x39 c || c == 0x2d || c == 0x2e ||
    c == 0x5f || c == 0x7e

/-- `g_uri_escape_string (s, "", FALSE)` and `g_uri_unescape_segment (start, end, "")`: only unreserved
characters are left as they are, all others begin with a percent sign, and what was escaped is read
back. -/
structure UriEscaping where
  escape : Bytes → Bytes
  unescape : Bytes → Option Bytes
  escaped : ∀ s, ∀ c ∈ escape s, isUnreserved c = true ∨ c = 0x25
  unescape_escape : ∀ s, (0 : UInt8) ∉ s → unescape (escape s) = some s

/-- `GckModuleInfo`. -/
structure GckModuleInfo where
  manufacturerId : Option Bytes
  libraryDescription : Option Bytes

/-- `GckTokenInfo`. -/
structure GckTokenInfo where
  label : Option Bytes
  manufacturerId : Option Bytes
  model : Option Bytes
  serialNumber : Option Bytes

/-- `GckUriInfo`. -/
structure GckUriInfo where
  anyUnrecognized : Bool
  moduleInfo : Option GckModuleInfo
  tokenInfo : Option GckTokenInfo
  attributes : Option GckAttributes

/-- The codes of `GCK_URI_ERROR`; an encoding is bad in the value of a field. -/
inductive GckUriError where
  | badPrefix
  | badSyntax
  | badEncoding (name : Bytes)
  deriving DecidableEq

variable (u : UriEscaping)

/-! ## Parsing -/

/-- The object types that have a name, with their names. -/
def objectTypes : List (Bytes × Nat) :=
  [(ascii "cert", ckoCertificate), (ascii "public", ckoPublicKey), (ascii "private", ckoPrivateKey),
    (ascii "secretkey", ckoSecretKey), (ascii "data", ckoData)]

/-- `parse_string_attribute`; `none` is the result zero. -/
def parseStringAttribute (name value : Bytes) (attrs : GckAttributes) :
    Except GckUriError (Option GckAttributes) :=
  if name ≠ ascii "object" ∧ name ≠ ascii "objecttype" then .ok none
  else
    match u.unescape value with
    | none => .error (.badEncoding name)
    | some value =>
      if name = ascii "object" then .ok (some (gckAttributesAddString attrs ckaLabel (some value)))
      else .ok ((objectTypes.lookup value).map fun klass => gckAttributesAddUlong attrs ckaClass klass)

/-- `parse_binary_attribute`. -/
def parseBinaryAttribute (name value : Bytes) (attrs : GckAttributes) :
    Except GckUriError (Option GckAttributes) :=
  if name ≠ ascii "id" then .ok none
  else
    match hexDecoded value 0x3a 1 with
    | none => .error (.badEncoding name)
    | some data => .ok (some (gckAttributesAddData attrs ckaId (some data)))

/-- `parse_token_attribute`. -/
def parseTokenAttribute (name value : Bytes) (token : GckTokenInfo) :
    Except GckUriError (Option GckTokenInfo) :=
  let set : Option (Bytes → GckTokenInfo) :=
    if name = ascii "model" then some fun string => { token with model := some string }
    else if name = ascii "manufacturer" then some fun string => { token with manufacturerId := some string }
    else if name = ascii "serial" then some fun string => { token with serialNumber := some string }
    else if name = ascii "token" then some fun string => { token with label := some string }
    else none
  match set with
  | none => .ok none
  | some set =>
    match u.unescape value with
    | none => .error (.badEncoding name)
    | some string => .ok (some (set string))

/-- `parse_library_attribute`. -/
def parseLibraryAttribute (name value : Bytes) (library : GckModuleInfo) :
    Except GckUriError (Option GckModuleInfo) :=
  let set : Option (Bytes → GckModuleInfo) :=
    if name = ascii "library-description" then
      some fun string => { library with libraryDescription := some string }
    else if name = ascii "library-manufacturer" then
      some fun string => { library with manufacturerId := some string }
    else none
  match set with
  | none => .ok none
  | some set =>
    match u.unescape value with
    | none => .error (.badEncoding name)
    | some string => .ok (some (set string))

/-- One of the four functions, on its part of the info if that is wanted. -/
def tryPart {α : Type} (parse : α → Except GckUriError (Option α)) (part : Option α) :
    Except GckUriError (Option α) :=
  match part with
  | none => .ok none
  | some part => parse part

/-- The functions on one field, in turn, until one knows it. -/
def parseField (key value : Bytes) (info : GckUriInfo) : Except GckUriError GckUriInfo := do
  match ← tryPart (parseStringAttribute u key value) info.attributes with
  | some attrs => pure { info with attributes := some attrs }
  | none =>
    match ← tryPart (parseBinaryAttribute key value) info.attributes with
    | some attrs => pure { info with attributes := some attrs }
    | none =>
      match ← tryPart (parseTokenAttribute u key value) info.tokenInfo with
      | some token => pure { info with tokenInfo := some token }
      | none =>
        match ← tryPart (parseLibraryAttribute u key value) info.moduleInfo with
        | some library => pure { info with moduleInfo := some library }
        | none => pure { info with anyUnrecognized := true }

/-- The field that ends before `spos`; the equal sign is looked for in all of the text that is left. -/
def parseComponent (uri component : Bytes) (info : GckUriInfo) : Except GckUriError GckUriInfo :=
  match strchr 0x3d uri with
  | none => .error .badSyntax
  | some (key, _) =>
    if component = [] ∨ key = [] ∨ component.length ≤ key.length then .error .badSyntax
    else parseField u key (component.drop (key.length + 1)) info

theorem length_lt_of_strchr {c : UInt8} {s before after : Bytes}
    (h : strchr c s = some (before, after)) : after.length < s.length := by
  induction s generalizing before with
  | nil => cases h
  | cons a s ih =>
    rw [strchr] at h
    split at h
    · cases h
      exact Nat.lt_succ_self _
    · obtain ⟨⟨b, r⟩, hs, heq⟩ := Option.map_eq_some_iff.1 h
      cases heq
      exact (ih hs).trans (Nat.lt_succ_self _)

/-- The loop of `gck_uri_parse`. -/
def parseFields (uri : Bytes) (info : GckUriInfo) : Except GckUriError GckUriInfo :=
  match h : strchr 0x3b uri with
  | none => if uri = [] then .ok info else parseComponent u uri uri info
  | some (component, rest) => do
      let info ← parseComponent u uri component info
      have : rest.length < uri.length := length_lt_of_strchr h
      parseFields rest info
termination_by uri.length

/-- `URI_PREFIX`. -/
def uriPrefix : Bytes := ascii "pkcs11:"

abbrev gckUriParseModule : UInt32 := 0x2
abbrev gckUriParseToken : UInt32 := 0x4 ||| gckUriParseModule
abbrev gckUriParseObject : UInt32 := 0x8 ||| gckUriParseToken
abbrev gckUriParseAny : UInt32 := 0xffffffff

/-- The info that the parser begins with. -/
def newInfo (flags : UInt32) : GckUriInfo where
  anyUnrecognized := false
  moduleInfo := if flags &&& gckUriParseModule = gckUriParseModule then some ⟨none, none⟩ else none
  tokenInfo := if flags &&& gckUriParseToken = gckUriParseToken then some ⟨none, none, none, none⟩ else none
  attributes := if flags &&& gckUriParseObject = gckUriParseObject then some [] else none

/-- `gck_uri_parse`. -/
def gckUriParse (uri : Bytes) (flags : UInt32) : Except GckUriError GckUriInfo :=
  if uriPrefix.isPrefixOf uri then parseFields u (uri.drop uriPrefix.length) (newInfo flags)
  else .error .badPrefix

/-! ## Building -/

/-- The text of a URI, and whether no field was appended yet. -/
structure UriText where
  result : Bytes
  first : Bool

/-- A field is appended. -/
def UriText.append (text : UriText) (name segment : Bytes) : UriText :=
  { result := text.result ++ (if text.first then [] else [0x3b]) ++ name ++ 0x3d :: segment
    first := false }

/-- `build_string_attribute`. -/
def buildStringAttribute (name : Bytes) (value : Option Bytes) (text : UriText) : UriText :=
  match value with
  | none => text
  | some value => text.append name (u.escape value)

/-- `build_binary_attribute`. An invalid attribute has a length, but no memory. -/
def buildBinaryAttribute (name : Bytes) (value : GckValue) (text : UriText) : Checked UriText :=
  match value with
  | .invalid => .error .assertion
  | .null => .ok (text.append name (eggHexEncodeFull [] false 0x3a 1))
  | .data data => .ok (text.append name (eggHexEncodeFull data false 0x3a 1))

/-- The name of an object type, if it has one. -/
def objectTypeName (klass : Nat) : Option Bytes :=
  if klass = ckoCertificate then some (ascii "cert")
  else if klass = ckoPublicKey then some (ascii "public")
  else if klass = ckoPrivateKey then some (ascii "private")
  else if klass = ckoSecretKey then some (ascii "secretkey")
  else if klass = ckoData then some (ascii "data")
  else none

/-- The fields of the module. -/
def buildModule (info : GckModuleInfo) (text : UriText) : UriText :=
  let text := buildStringAttribute u (ascii "library-description") info.libraryDescription text
  buildStringAttribute u (ascii "library-manufacturer") info.manufacturerId text

/-- The fields of the token. -/
def buildToken (info : GckTokenInfo) (text : UriText) : UriText :=
  let text := buildStringAttribute u (ascii "model") info.model text
  let text := buildStringAttribute u (ascii "manufacturer") info.manufacturerId text
  let text := buildStringAttribute u (ascii "serial") info.serialNumber text
  buildStringAttribute u (ascii "token") info.label text

/-- The fields of the object. -/
def buildObject (attrs : GckAttributes) (text : UriText) : Checked UriText :=
  let label := (gckAttributesFindString attrs ckaLabel).join
  let text := buildStringAttribute u (ascii "object") label text
  let klass := (gckAttributesFindUlong attrs ckaClass).bind objectTypeName
  let text := buildStringAttribute u (ascii "objecttype") klass text
  match gckAttributesFind attrs ckaId with
  | none => .ok text
  | some attr => buildBinaryAttribute (ascii "id") attr.value text

/-- `gck_uri_build`. -/
def gckUriBuild (info : GckUriInfo) : Checked Bytes := do
  let text : UriText := { result := uriPrefix, first := true }
  let text := info.moduleInfo.elim text fun library => buildModule u library text
  let text := info.tokenInfo.elim text fun token => buildToken u token text
  let text ← info.attributes.elim (.ok text) fun attrs => buildObject u attrs text
  pure text.result

/-! ## The fields of a text -/

/-- The text of fields, with semicolons between them. -/
def joinFields : List (Bytes × Bytes) → Bytes
  | [] => []
  | [f] => f.1 ++ 0x3d :: f.2
  | f :: g :: fs => f.1 ++ 0x3d :: f.2 ++ 0x3b :: joinFields (g :: fs)

theorem joinFields_concat (fs : List (Bytes × Bytes)) (name segment : Bytes) :
    joinFields (fs ++ [(name, segment)]) =
      joinFields fs ++ (if fs.isEmpty then [] else [0x3b]) ++ name ++ 0x3d :: segment := by
  induction fs with
  | nil => rfl
  | cons f fs ih =>
    cases fs with
    | nil =>
      change f.1 ++ 0x3d :: f.2 ++ 0x3b :: (name ++ 0x3d :: segment) =
        f.1 ++ 0x3d :: f.2 ++ [0x3b] ++ name ++ 0x3d :: segment
      simp only [append_assoc, cons_append, nil_append]
    | cons g fs =>
      change f.1 ++ 0x3d :: f.2 ++ 0x3b :: joinFields (g :: fs ++ [(name, segment)]) =
        f.1 ++ 0x3d :: f.2 ++ 0x3b :: joinFields (g :: fs) ++ [0x3b] ++ name ++ 0x3d :: segment
      have hsemi : (if (g :: fs).isEmpty then [] else [0x3b]) = [(0x3b : UInt8)] := rfl
      rw [ih, hsemi]
      simp only [append_assoc, cons_append, nil_append]

/-- The text has these fields. -/
structure UriText.Has (text : UriText) (fs : List (Bytes × Bytes)) : Prop where
  result : text.result = uriPrefix ++ joinFields fs
  first : text.first = fs.isEmpty

/-- The field of a string, if there is one. -/
def stringField (name : Bytes) (value : Option Bytes) : List (Bytes × Bytes) :=
  value.toList.map fun value => (name, u.escape value)

/-- The field of an identifier. -/
def idField (id : Option Bytes) : List (Bytes × Bytes) :=
  id.toList.map fun data => (ascii "id", eggHexEncodeFull data false 0x3a 1)

variable {u} {text : UriText} {fs : List (Bytes × Bytes)}

theorem UriText.Has.append (h : text.Has fs) (name segment : Bytes) :
    (text.append name segment).Has (fs ++ [(name, segment)]) := by
  refine ⟨?_, ?_⟩
  · rw [UriText.append, joinFields_concat, h.result, h.first]
    simp only [append_assoc]
  · cases fs with
    | nil => rfl
    | cons f fs => rfl

theorem UriText.Has.string (h : text.Has fs) (name : Bytes) (value : Option Bytes) :
    (buildStringAttribute u name value text).Has (fs ++ stringField u name value) := by
  cases value with
  | none => rwa [stringField, Option.toList_none, map_nil, append_nil]
  | some value => exact h.append name (u.escape value)

/-- The name of a field. -/
def IsKey (key : Bytes) : Prop :=
  key ≠ [] ∧ (0x3d : UInt8) ∉ key ∧ (0x3b : UInt8) ∉ key ∧ (0 : UInt8) ∉ key

instance (key : Bytes) : Decidable (IsKey key) := inferInstanceAs (Decidable (_ ∧ _))

/-- A field that is found again in the text. -/
structure IsField (f : Bytes × Bytes) : Prop where
  key : IsKey f.1
  value : (0x3b : UInt8) ∉ f.2
  zero : (0 : UInt8) ∉ f.2

theorem parseComponent_field {f : Bytes × Bytes} (hf : IsField f) (rest : Bytes)
    (info : GckUriInfo) :
    parseComponent u (f.1 ++ 0x3d :: f.2 ++ rest) (f.1 ++ 0x3d :: f.2) info =
      parseField u f.1 f.2 info := by
  have hlength : (f.1 ++ 0x3d :: f.2).length = f.1.length + (f.2.length + 1) := by
    rw [length_append, length_cons]
  have hcheck : ¬ (f.1 ++ 0x3d :: f.2 = [] ∨ f.1 = [] ∨ (f.1 ++ 0x3d :: f.2).length ≤ f.1.length) := by
    rintro (hnil | hnil | hle)
    · exact append_ne_nil_of_left_ne_nil hf.key.1 _ hnil
    · exact hf.key.1 hnil
    · omega
  unfold parseComponent
  rw [append_assoc, cons_append, strchr_append hf.key.2.1]
  dsimp only
  rw [if_neg hcheck, ← drop_drop, drop_left]
  rfl

/-- The loop takes the fields one after another. -/
theorem parseFields_join (hfs : ∀ f ∈ fs, IsField f) (info : GckUriInfo) :
    parseFields u (joinFields fs) info = fs.foldlM (fun info f => parseField u f.1 f.2 info) info := by
  induction fs generalizing info with
  | nil =>
    rw [parseFields]
    rfl
  | cons f fs ih =>
    have hf := hfs f mem_cons_self
    have hsemi : (0x3b : UInt8) ∉ f.1 ++ 0x3d :: f.2 := by
      intro hmem
      rcases mem_append.1 hmem with hmem | hmem
      · exact hf.key.2.2.1 hmem
      · exact hf.value ((mem_cons.1 hmem).resolve_left (by decide))
    cases fs with
    | nil =>
      have hne : joinFields [f] ≠ [] := append_ne_nil_of_left_ne_nil hf.key.1 _
      have hone := parseComponent_field (u := u) hf [] info
      rw [append_nil] at hone
      rw [parseFields]
      split
      · rw [if_neg hne, foldlM_cons]
        exact hone.trans (bind_pure (parseField u f.1 f.2 info)).symm
      · next hsome =>
          rw [joinFields, strchr_eq_none hsemi] at hsome
          cases hsome
    | cons g fs =>
      have hsplit : strchr 0x3b (joinFields (f :: g :: fs)) =
          some (f.1 ++ 0x3d :: f.2, joinFields (g :: fs)) := strchr_append hsemi
      rw [parseFields]
      split
      · next hnone =>
          rw [hsplit] at hnone
          cases hnone
      · next component rest hsome =>
          rw [hsplit] at hsome
          cases hsome
          have hfirst : parseComponent u (joinFields (f :: g :: fs)) (f.1 ++ 0x3d :: f.2) info =
              parseField u f.1 f.2 info := parseComponent_field hf _ info
          rw [hfirst, foldlM_cons]
          exact congrArg _ (funext fun info => ih (forall_mem_cons.1 hfs).2 info)

/-! ## One field -/

variable {key value v : Bytes} {b : Bool} {m m' : GckModuleInfo} {t t' : GckTokenInfo}
  {a a' : GckAttributes}

theorem parseField_string (h : parseStringAttribute u key value a = .ok (some a')) :
    parseField u key value ⟨b, some m, some t, some a⟩ = .ok ⟨b, some m, some t, some a'⟩ := by
  unfold parseField tryPart
  dsimp only
  rw [h]
  rfl

theorem parseStringAttribute_other (h : key ≠ ascii "object" ∧ key ≠ ascii "objecttype") :
    parseStringAttribute u key value a = .ok none := if_pos h

theorem parseField_binary (h : key ≠ ascii "object" ∧ key ≠ ascii "objecttype")
    (hbinary : parseBinaryAttribute key value a = .ok (some a')) :
    parseField u key value ⟨b, some m, some t, some a⟩ = .ok ⟨b, some m, some t, some a'⟩ := by
  unfold parseField tryPart
  dsimp only
  rw [parseStringAttribute_other h, hbinary]
  rfl

section

variable (h : (key ≠ ascii "object" ∧ key ≠ ascii "objecttype") ∧ key ≠ ascii "id")

include h

theorem parseField_token (htoken : parseTokenAttribute u key value t = .ok (some t')) :
    parseField u key value ⟨b, some m, some t, some a⟩ = .ok ⟨b, some m, some t', some a⟩ := by
  have hbinary : parseBinaryAttribute key value a = .ok none := if_pos h.2
  unfold parseField tryPart
  dsimp only
  rw [parseStringAttribute_other h.1, hbinary, htoken]
  rfl

theorem parseField_library (htoken : parseTokenAttribute u key value t = .ok none)
    (hlibrary : parseLibraryAttribute u key value m = .ok (some m')) :
    parseField u key value ⟨b, some m, some t, some a⟩ = .ok ⟨b, some m', some t, some a⟩ := by
  have hbinary : parseBinaryAttribute key value a = .ok none := if_pos h.2
  unfold parseField tryPart
  dsimp only
  rw [parseStringAttribute_other h.1, hbinary, htoken, hlibrary]
  rfl

end

/-- The fields of the strings of a token. -/
theorem parseTokenAttribute_eq (hv : (0 : UInt8) ∉ v) (t : GckTokenInfo) :
    parseTokenAttribute u (ascii "model") (u.escape v) t = .ok (some { t with model := some v }) ∧
    parseTokenAttribute u (ascii "manufacturer") (u.escape v) t =
      .ok (some { t with manufacturerId := some v }) ∧
    parseTokenAttribute u (ascii "serial") (u.escape v) t =
      .ok (some { t with serialNumber := some v }) ∧
    parseTokenAttribute u (ascii "token") (u.escape v) t = .ok (some { t with label := some v }) := by
  have hmodel : ascii "manufacturer" ≠ ascii "model" := by decide
  have hserial : ascii "serial" ≠ ascii "model" ∧ ascii "serial" ≠ ascii "manufacturer" := by decide
  have htoken : ascii "token" ≠ ascii "model" ∧ ascii "token" ≠ ascii "manufacturer" ∧
      ascii "token" ≠ ascii "serial" := by decide
  unfold parseTokenAttribute
  refine ⟨?_, ?_, ?_, ?_⟩
  · rw [if_pos rfl, u.unescape_escape v hv]
  · rw [if_neg hmodel, if_pos rfl, u.unescape_escape v hv]
  · rw [if_neg hserial.1, if_neg hserial.2, if_pos rfl, u.unescape_escape v hv]
  · rw [if_neg htoken.1, if_neg htoken.2.1, if_neg htoken.2.2, if_pos rfl, u.unescape_escape v hv]

/-- The fields of the strings of a module are no fields of a token. -/
theorem parseLibraryAttribute_eq (hv : (0 : UInt8) ∉ v) (t : GckTokenInfo) (m : GckModuleInfo) :
    (parseTokenAttribute u (ascii "library-description") (u.escape v) t = .ok none ∧
      parseLibraryAttribute u (ascii "library-description") (u.escape v) m =
        .ok (some { m with libraryDescription := some v })) ∧
    parseTokenAttribute u (ascii "library-manufacturer") (u.escape v) t = .ok none ∧
      parseLibraryAttribute u (ascii "library-manufacturer") (u.escape v) m =
        .ok (some { m with manufacturerId := some v }) := by
  have hother : ∀ key ∈ [ascii "library-description", ascii "library-manufacturer"],
      key ≠ ascii "model" ∧ key ≠ ascii "manufacturer" ∧ key ≠ ascii "serial" ∧ key ≠ ascii "token" := by
    decide
  have hnone : ∀ key ∈ [ascii "library-description", ascii "library-manufacturer"],
      parseTokenAttribute u key (u.escape v) t = .ok none := by
    intro key hkey
    obtain ⟨h₁, h₂, h₃, h₄⟩ := hother key hkey
    unfold parseTokenAttribute
    rw [if_neg h₁, if_neg h₂, if_neg h₃, if_neg h₄]
  have hne : ascii "library-manufacturer" ≠ ascii "library-description" := by decide
  refine ⟨⟨hnone _ mem_cons_self, ?_⟩, hnone _ (mem_cons_of_mem _ mem_cons_self), ?_⟩
  · unfold parseLibraryAttribute
    rw [if_pos rfl, u.unescape_escape v hv]
  · unfold parseLibraryAttribute
    rw [if_neg hne, if_pos rfl, u.unescape_escape v hv]

/-- The fields of the strings of an object. -/
theorem parseStringAttribute_label (hv : (0 : UInt8) ∉ v) (a : GckAttributes) :
    parseStringAttribute u (ascii "object") (u.escape v) a =
      .ok (some (a ++ [⟨ckaLabel, .data v⟩])) := by
  have hknown : ¬ (ascii "object" ≠ ascii "object" ∧ ascii "object" ≠ ascii "objecttype") :=
    fun hand => hand.1 rfl
  unfold parseStringAttribute
  rw [if_neg hknown, u.unescape_escape v hv]
  exact if_pos rfl

/-- The object types that a URI has a name for. -/
def IsNamed (klass : Nat) : Prop :=
  klass ∈ [ckoCertificate, ckoPublicKey, ckoPrivateKey, ckoSecretKey, ckoData]

/-- The name of an object type is read as the type. -/
theorem parseStringAttribute_class {klass : Nat} (hklass : IsNamed klass) (a : GckAttributes) :
    ∃ name, objectTypeName klass = some name ∧
      parseStringAttribute u (ascii "objecttype") (u.escape name) a =
        .ok (some (a ++ [⟨ckaClass, .data (ulongBytes klass)⟩])) := by
  have hnames : ∀ klass ∈ [ckoCertificate, ckoPublicKey, ckoPrivateKey, ckoSecretKey, ckoData],
      ∃ name ∈ objectTypes.map Prod.fst, objectTypeName klass = some name ∧ (0 : UInt8) ∉ name ∧
        objectTypes.lookup name = some klass := by
    decide
  obtain ⟨name, -, hname, hzero, hlookup⟩ := hnames klass hklass
  have hknown : ¬ (ascii "objecttype" ≠ ascii "object" ∧ ascii "objecttype" ≠ ascii "objecttype") :=
    fun hand => hand.2 rfl
  have hother : ascii "objecttype" ≠ ascii "object" := by decide
  refine ⟨name, hname, ?_⟩
  unfold parseStringAttribute
  rw [if_neg hknown, u.unescape_escape name hzero]
  dsimp only
  rw [if_neg hother, hlookup]
  rfl

theorem parseBinaryAttribute_id (data : Bytes) (a : GckAttributes) :
    parseBinaryAttribute (ascii "id") (eggHexEncodeFull data false 0x3a 1) a =
      .ok (some (a ++ [⟨ckaId, .data data⟩])) := by
  unfold parseBinaryAttribute
  rw [if_neg (not_not.2 rfl), hexDecoded_encode (by decide)]
  rfl

/-- The field of a string is parsed, or there is none. -/
theorem foldlM_stringField {name : Bytes} {value : Option Bytes} {info info' : GckUriInfo}
    (hnone : value = none → info' = info)
    (hsome : ∀ v, value = some v → parseField u name (u.escape v) info = .ok info') :
    (stringField u name value).foldlM (fun info f => parseField u f.1 f.2 info) info = .ok info' := by
  cases value with
  | none => exact congrArg Except.ok (hnone rfl).symm
  | some v => exact (bind_pure (parseField u name (u.escape v) info)).trans (hsome v rfl)

theorem foldlM_append_eq {xs ys : List (Bytes × Bytes)} {i j k : GckUriInfo}
    (hxs : xs.foldlM (fun info f => parseField u f.1 f.2 info) i = .ok j)
    (hys : ys.foldlM (fun info f => parseField u f.1 f.2 info) j = .ok k) :
    (xs ++ ys).foldlM (fun info f => parseField u f.1 f.2 info) i = .ok k := by
  rw [foldlM_append, hxs]
  exact hys

/-! ## The parts of the info -/

/-- The strings of the module and of the token. -/
def GckUriInfo.libraryDescription (info : GckUriInfo) : Option Bytes :=
  info.moduleInfo.bind GckModuleInfo.libraryDescription

def GckUriInfo.libraryManufacturer (info : GckUriInfo) : Option Bytes :=
  info.moduleInfo.bind GckModuleInfo.manufacturerId

def GckUriInfo.model (info : GckUriInfo) : Option Bytes := info.tokenInfo.bind GckTokenInfo.model

def GckUriInfo.manufacturer (info : GckUriInfo) : Option Bytes :=
  info.tokenInfo.bind GckTokenInfo.manufacturerId

def GckUriInfo.serial (info : GckUriInfo) : Option Bytes :=
  info.tokenInfo.bind GckTokenInfo.serialNumber

def GckUriInfo.token (info : GckUriInfo) : Option Bytes := info.tokenInfo.bind GckTokenInfo.label

/-- `CKA_LABEL` as a string; a null pointer is none. -/
def GckUriInfo.label (info : GckUriInfo) : Option Bytes :=
  (info.attributes.bind fun attrs => gckAttributesFindString attrs ckaLabel).join

/-- `CKA_CLASS`. -/
def GckUriInfo.klass (info : GckUriInfo) : Option Nat :=
  info.attributes.bind fun attrs => gckAttributesFindUlong attrs ckaClass

/-- The bytes of an attribute; it may have no memory when there are none. -/
def bytesOf (attr : GckAttribute) : Option Bytes :=
  match attr.value with
  | .invalid => none
  | .null => some []
  | .data data => some data

/-- `CKA_ID`. -/
def GckUriInfo.id (info : GckUriInfo) : Option Bytes :=
  info.attributes.bind fun attrs => (gckAttributesFind attrs ckaId).bind bytesOf

/-- The strings of the module and of the token that are set. -/
def GckUriInfo.strings (info : GckUriInfo) : List Bytes :=
  [info.libraryDescription, info.libraryManufacturer, info.model, info.manufacturer, info.serial,
    info.token].reduceOption

/-- `CKA_ID`, if there is one, holds bytes. -/
def GckUriInfo.HasBytes (info : GckUriInfo) : Prop :=
  ∀ attrs attr, info.attributes = some attrs → gckAttributesFind attrs ckaId = some attr →
    attr.value ≠ .invalid

/-- All fields of a URI. -/
def moduleFields (u : UriEscaping) (info : GckUriInfo) : List (Bytes × Bytes) :=
  stringField u (ascii "library-description") info.libraryDescription ++
    stringField u (ascii "library-manufacturer") info.libraryManufacturer

def tokenFields (u : UriEscaping) (info : GckUriInfo) : List (Bytes × Bytes) :=
  stringField u (ascii "model") info.model ++ stringField u (ascii "manufacturer") info.manufacturer ++
    stringField u (ascii "serial") info.serial ++ stringField u (ascii "token") info.token

def objectFields (u : UriEscaping) (info : GckUriInfo) : List (Bytes × Bytes) :=
  stringField u (ascii "object") info.label ++
    stringField u (ascii "objecttype") (info.klass.bind objectTypeName) ++ idField info.id

def uriFields (u : UriEscaping) (info : GckUriInfo) : List (Bytes × Bytes) :=
  moduleFields u info ++ tokenFields u info ++ objectFields u info

variable {info : GckUriInfo}

theorem build_module (h : text.Has fs) :
    (info.moduleInfo.elim text fun library => buildModule u library text).Has
      (fs ++ moduleFields u info) := by
  obtain ⟨-, module, -, -⟩ := info
  cases module with
  | none => simpa only [moduleFields, GckUriInfo.libraryDescription, GckUriInfo.libraryManufacturer,
      Option.bind_none, stringField, Option.toList_none, map_nil, append_nil,
      Option.elim_none] using h
  | some library =>
    have hboth := (h.string (u := u) (ascii "library-description") library.libraryDescription).string
      (u := u) (ascii "library-manufacturer") library.manufacturerId
    rwa [append_assoc] at hboth

theorem build_token (h : text.Has fs) :
    (info.tokenInfo.elim text fun token => buildToken u token text).Has (fs ++ tokenFields u info) := by
  obtain ⟨-, -, token, -⟩ := info
  cases token with
  | none => simpa only [tokenFields, GckUriInfo.model, GckUriInfo.manufacturer, GckUriInfo.serial,
      GckUriInfo.token, Option.bind_none, stringField, Option.toList_none, map_nil,
      append_nil, Option.elim_none] using h
  | some token =>
    have hall := (((h.string (u := u) (ascii "model") token.model).string (u := u)
      (ascii "manufacturer") token.manufacturerId).string (u := u) (ascii "serial")
      token.serialNumber).string (u := u) (ascii "token") token.label
    rw [append_assoc, append_assoc, append_assoc] at hall
    rw [tokenFields, append_assoc, append_assoc]
    exact hall

theorem build_object (h : text.Has fs) (hid : info.HasBytes) :
    ∃ text', (info.attributes.elim (.ok text) fun attrs => buildObject u attrs text) = .ok text' ∧
      text'.Has (fs ++ objectFields u info) := by
  obtain ⟨anyUnrecognized, module, token, attributes⟩ := info
  cases attributes with
  | none =>
    refine ⟨text, rfl, ?_⟩
    simpa only [objectFields, GckUriInfo.label, GckUriInfo.klass, GckUriInfo.id, Option.bind_none,
      Option.join_none, stringField, idField, Option.toList_none, map_nil,
      append_nil] using h
  | some attrs =>
    have hstrings := (h.string (u := u) (ascii "object")
      (gckAttributesFindString attrs ckaLabel).join).string (u := u) (ascii "objecttype")
      ((gckAttributesFindUlong attrs ckaClass).bind objectTypeName)
    rw [append_assoc] at hstrings
    rw [objectFields, ← append_assoc]
    change ∃ text', buildObject u attrs text = _ ∧ _
    unfold buildObject
    dsimp only
    cases hfind : gckAttributesFind attrs ckaId with
    | none =>
      refine ⟨_, rfl, ?_⟩
      have hnone : GckUriInfo.id ⟨anyUnrecognized, module, token, some attrs⟩ = none := by
        rw [GckUriInfo.id, Option.bind_some, hfind]
        rfl
      rw [hnone, idField, Option.toList_none, map_nil, append_nil]
      exact hstrings
    | some attr =>
      have hsome : GckUriInfo.id ⟨anyUnrecognized, module, token, some attrs⟩ = bytesOf attr := by
        rw [GckUriInfo.id, Option.bind_some, hfind]
        rfl
      have hvalid := hid attrs attr rfl hfind
      rw [hsome]
      obtain ⟨type, value⟩ := attr
      cases value with
      | invalid => exact absurd rfl hvalid
      | null => exact ⟨_, rfl, hstrings.append (ascii "id") (eggHexEncodeFull [] false 0x3a 1)⟩
      | data data => exact ⟨_, rfl, hstrings.append (ascii "id") (eggHexEncodeFull data false 0x3a 1)⟩

/-- What is built is the scheme and the fields. -/
theorem gckUriBuild_eq (hid : info.HasBytes) :
    gckUriBuild u info = .ok (uriPrefix ++ joinFields (uriFields u info)) := by
  have hstart : UriText.Has ⟨uriPrefix, true⟩ [] := ⟨(append_nil _).symm, rfl⟩
  obtain ⟨text', hobject, htext⟩ := build_object (build_token (build_module hstart)) hid (u := u)
  unfold gckUriBuild
  dsimp only
  rw [hobject, ok_bind, htext.result, nil_append]
  rfl

/-! ## The round trip -/

theorem isField_string {name : Bytes} (hname : IsKey name) (value : Option Bytes) :
    ∀ f ∈ stringField u name value, IsField f := by
  intro f hf
  obtain ⟨s, -, rfl⟩ := mem_map.1 hf
  have hchar : ∀ c, ¬ (isUnreserved c = true ∨ c = 0x25) → c ∉ u.escape s := fun c hc hmem =>
    hc (u.escaped s c hmem)
  exact ⟨hname, hchar _ (by decide), hchar _ (by decide)⟩

theorem isField_id (id : Option Bytes) : ∀ f ∈ idField id, IsField f := by
  intro f hf
  obtain ⟨data, -, rfl⟩ := mem_map.1 hf
  have hkey : IsKey (ascii "id") := by decide
  have hchar : ∀ c, ¬ (c = 0x3a ∨ isXdigit c = true) → c ∉ eggHexEncodeFull data false 0x3a 1 :=
    fun c hc hmem => hc (mem_hexEncode_delim hmem)
  exact ⟨hkey, hchar _ (by decide), hchar _ (by decide)⟩

theorem isField_uriFields : ∀ f ∈ uriFields u info, IsField f := by
  intro f hf
  simp only [uriFields, moduleFields, tokenFields, objectFields, mem_append] at hf
  rcases hf with ((hf | hf) | ((hf | hf) | hf) | hf) | (hf | hf) | hf
  on_goal 9 => exact isField_id _ f hf
  all_goals exact isField_string (by decide) _ f hf

theorem zero_not_mem_joinFields (hfs : ∀ f ∈ fs, IsField f) : (0 : UInt8) ∉ joinFields fs := by
  have hone : ∀ f, IsField f → (0 : UInt8) ∉ f.1 ++ 0x3d :: f.2 := by
    intro f hf hmem
    rcases mem_append.1 hmem with hmem | hmem
    · exact hf.key.2.2.2 hmem
    · exact hf.zero ((mem_cons.1 hmem).resolve_left (by decide))
  induction fs with
  | nil => exact not_mem_nil
  | cons f fs ih =>
    have hf := hone f (hfs f mem_cons_self)
    cases fs with
    | nil => exact hf
    | cons g fs =>
      intro hmem
      rcases mem_append.1 hmem with hmem | hmem
      · exact hf hmem
      · exact ih (forall_mem_cons.1 hfs).2
          ((mem_cons.1 hmem).resolve_left (by decide))

/-- The attributes that are parsed. -/
def parsedAttributes (info : GckUriInfo) : GckAttributes :=
  (info.label.toList.map fun label => ⟨ckaLabel, .data label⟩) ++
    (info.klass.toList.map fun klass => ⟨ckaClass, .data (ulongBytes klass)⟩) ++
    info.id.toList.map fun id => ⟨ckaId, .data id⟩

theorem label_zero_not_mem {label : Bytes} (h : info.label = some label) : (0 : UInt8) ∉ label := by
  obtain ⟨attrs, -, hfind⟩ := Option.bind_eq_some_iff.1 (Option.join_eq_some_iff.1 h)
  unfold gckAttributesFindString at hfind
  split at hfind
  · cases hfind
  · cases hfind
  · next attr _ _ =>
      have hget := Option.some.inj hfind
      obtain ⟨type, value⟩ := attr
      cases value with
      | invalid => cases hget
      | null => cases hget
      | data data =>
        cases hget
        intro hmem
        have hne := mem_takeWhile_imp hmem
        exact of_decide_eq_true hne rfl

theorem parse_module (hstrings : ∀ s ∈ info.strings, (0 : UInt8) ∉ s) (t : GckTokenInfo)
    (a : GckAttributes) :
    (moduleFields u info).foldlM (fun info f => parseField u f.1 f.2 info)
        ⟨false, some ⟨none, none⟩, some t, some a⟩ =
      .ok ⟨false, some ⟨info.libraryManufacturer, info.libraryDescription⟩, some t, some a⟩ := by
  have hzero : ∀ o ∈ [info.libraryDescription, info.libraryManufacturer, info.model, info.manufacturer,
      info.serial, info.token], ∀ v, o = some v → (0 : UInt8) ∉ v :=
    fun o ho v hv => hstrings v (reduceOption_mem_iff.2 (hv ▸ ho))
  have hdescription : (stringField u (ascii "library-description") info.libraryDescription).foldlM
      (fun info f => parseField u f.1 f.2 info) ⟨false, some ⟨none, none⟩, some t, some a⟩ =
        .ok ⟨false, some ⟨none, info.libraryDescription⟩, some t, some a⟩ := by
    apply foldlM_stringField
    · intro hnone
      rw [hnone]
    · intro v hv
      obtain ⟨htoken, hlibrary⟩ := (parseLibraryAttribute_eq (hzero _ (by simp) v hv) t ⟨none, none⟩).1
      rw [hv]
      exact parseField_library (by decide) htoken hlibrary
  refine foldlM_append_eq hdescription ?_
  apply foldlM_stringField
  · intro hnone
    rw [hnone]
  · intro v hv
    obtain ⟨htoken, hlibrary⟩ := (parseLibraryAttribute_eq (hzero _ (by simp) v hv) t
      ⟨none, info.libraryDescription⟩).2
    rw [hv]
    exact parseField_library (by decide) htoken hlibrary

theorem parse_token (hstrings : ∀ s ∈ info.strings, (0 : UInt8) ∉ s) (m : GckModuleInfo)
    (a : GckAttributes) :
    (tokenFields u info).foldlM (fun info f => parseField u f.1 f.2 info)
        ⟨false, some m, some ⟨none, none, none, none⟩, some a⟩ =
      .ok ⟨false, some m, some ⟨info.token, info.manufacturer, info.model, info.serial⟩, some a⟩ := by
  have hzero : ∀ o ∈ [info.libraryDescription, info.libraryManufacturer, info.model, info.manufacturer,
      info.serial, info.token], ∀ v, o = some v → (0 : UInt8) ∉ v :=
    fun o ho v hv => hstrings v (reduceOption_mem_iff.2 (hv ▸ ho))
  have hone : ∀ (name : Bytes) (value : Option Bytes) (t t' : GckTokenInfo),
      (name ≠ ascii "object" ∧ name ≠ ascii "objecttype") ∧ name ≠ ascii "id" →
      (value = none → t' = t) →
      (∀ v, value = some v → parseTokenAttribute u name (u.escape v) t = .ok (some t')) →
      (stringField u name value).foldlM (fun info f => parseField u f.1 f.2 info)
        ⟨false, some m, some t, some a⟩ = .ok ⟨false, some m, some t', some a⟩ := by
    intro name value t t' hname hnone hsome
    apply foldlM_stringField
    · intro hv
      rw [hnone hv]
    · exact fun v hv => parseField_token hname (hsome v hv)
  refine foldlM_append_eq (foldlM_append_eq (foldlM_append_eq
    (hone (ascii "model") info.model _ ⟨none, none, info.model, none⟩ (by decide) ?_ ?_)
    (hone (ascii "manufacturer") info.manufacturer _ ⟨none, info.manufacturer, info.model, none⟩
      (by decide) ?_ ?_))
    (hone (ascii "serial") info.serial _ ⟨none, info.manufacturer, info.model, info.serial⟩
      (by decide) ?_ ?_))
    (hone (ascii "token") info.token _ ⟨info.token, info.manufacturer, info.model, info.serial⟩
      (by decide) ?_ ?_)
  · exact fun hnone => by rw [hnone]
  · intro v hv
    rw [hv]
    exact (parseTokenAttribute_eq (hzero _ (by simp) v hv) _).1
  · exact fun hnone => by rw [hnone]
  · intro v hv
    rw [hv]
    exact (parseTokenAttribute_eq (hzero _ (by simp) v hv) _).2.1
  · exact fun hnone => by rw [hnone]
  · intro v hv
    rw [hv]
    exact (parseTokenAttribute_eq (hzero _ (by simp) v hv) _).2.2.1
  · exact fun hnone => by rw [hnone]
  · intro v hv
    rw [hv]
    exact (parseTokenAttribute_eq (hzero _ (by simp) v hv) _).2.2.2

theorem parse_object (hclass : ∀ klass, info.klass = some klass → IsNamed klass) (m : GckModuleInfo)
    (t : GckTokenInfo) :
    (objectFields u info).foldlM (fun info f => parseField u f.1 f.2 info)
        ⟨false, some m, some t, some []⟩ =
      .ok ⟨false, some m, some t, some (parsedAttributes info)⟩ := by
  have hlabel : (stringField u (ascii "object") info.label).foldlM
      (fun info f => parseField u f.1 f.2 info) ⟨false, some m, some t, some []⟩ =
        .ok ⟨false, some m, some t,
          some (info.label.toList.map fun label => ⟨ckaLabel, .data label⟩)⟩ := by
    apply foldlM_stringField
    · intro hnone
      rw [hnone]
      rfl
    · intro v hv
      rw [hv]
      exact parseField_string (parseStringAttribute_label (label_zero_not_mem hv) [])
  have hklass : ∀ a : GckAttributes,
      (stringField u (ascii "objecttype") (info.klass.bind objectTypeName)).foldlM
        (fun info f => parseField u f.1 f.2 info) ⟨false, some m, some t, some a⟩ =
          .ok ⟨false, some m, some t,
            some (a ++ info.klass.toList.map fun klass => ⟨ckaClass, .data (ulongBytes klass)⟩)⟩ := by
    intro a
    cases hk : info.klass with
    | none =>
      rw [Option.toList_none, map_nil, append_nil]
      rfl
    | some klass =>
      obtain ⟨name, hname, hparse⟩ := parseStringAttribute_class (u := u) (hclass klass hk) a
      rw [Option.bind_some, hname]
      exact (bind_pure _).trans (parseField_string hparse)
  have hid : ∀ a : GckAttributes, (idField info.id).foldlM
      (fun info f => parseField u f.1 f.2 info) ⟨false, some m, some t, some a⟩ =
        .ok ⟨false, some m, some t, some (a ++ info.id.toList.map fun id => ⟨ckaId, .data id⟩)⟩ := by
    intro a
    cases info.id with
    | none =>
      rw [Option.toList_none, map_nil, append_nil]
      rfl
    | some data =>
      have hkey : ascii "id" ≠ ascii "object" ∧ ascii "id" ≠ ascii "objecttype" := by decide
      exact (bind_pure _).trans (parseField_binary hkey (parseBinaryAttribute_id data a))
  exact foldlM_append_eq (foldlM_append_eq hlabel (hklass _)) (hid _)

/-- The info that the parser gives back. -/
def parsedInfo (info : GckUriInfo) : GckUriInfo where
  anyUnrecognized := false
  moduleInfo := some ⟨info.libraryManufacturer, info.libraryDescription⟩
  tokenInfo := some ⟨info.token, info.manufacturer, info.model, info.serial⟩
  attributes := some (parsedAttributes info)

theorem parse_uriFields (hstrings : ∀ s ∈ info.strings, (0 : UInt8) ∉ s)
    (hclass : ∀ klass, info.klass = some klass → IsNamed klass) :
    gckUriParse u (uriPrefix ++ joinFields (uriFields u info)) gckUriParseAny =
      .ok (parsedInfo info) := by
  have hnew : newInfo gckUriParseAny =
      ⟨false, some ⟨none, none⟩, some ⟨none, none, none, none⟩, some []⟩ := by
    unfold newInfo
    rw [if_pos (by decide), if_pos (by decide), if_pos (by decide)]
  unfold gckUriParse
  rw [if_pos ( isPrefixOf_iff_prefix.2 (prefix_append _ _)), drop_left,
    parseFields_join isField_uriFields, hnew]
  exact foldlM_append_eq (foldlM_append_eq (parse_module hstrings _ _) (parse_token hstrings _ _))
    (parse_object hclass _ _)

/-- What is found in the attributes that are parsed. -/
theorem parsedInfo_object (hclass : ∀ klass, info.klass = some klass → IsNamed klass) :
    (parsedInfo info).label = info.label ∧ (parsedInfo info).klass = info.klass ∧
      (parsedInfo info).id = info.id := by
  have hsmall : ∀ klass, IsNamed klass → klass < 2 ^ 64 := by
    intro klass hnamed
    have hall : ∀ klass ∈ [ckoCertificate, ckoPublicKey, ckoPrivateKey, ckoSecretKey, ckoData],
        klass < 2 ^ 64 := by decide
    exact hall klass hnamed
  have hzero : ∀ label, info.label = some label → label.takeWhile (· ≠ 0) = label := fun label h =>
    takeWhile_of_zero_not_mem (label_zero_not_mem h)
  have hulong : ∀ klass, info.klass = some klass → gckValueToUlong (ulongBytes klass) = some klass :=
    fun klass h => gckValueToUlong_ulongBytes (hsmall klass (hclass klass h))
  unfold GckUriInfo.label GckUriInfo.klass GckUriInfo.id parsedInfo
  dsimp only
  rw [Option.bind_some, Option.bind_some, Option.bind_some]
  change (gckAttributesFindString (parsedAttributes info) ckaLabel).join = info.label ∧
    gckAttributesFindUlong (parsedAttributes info) ckaClass = info.klass ∧
    (gckAttributesFind (parsedAttributes info) ckaId).bind bytesOf = info.id
  unfold parsedAttributes gckAttributesFindString gckAttributesFindUlong gckAttributesFind
  cases hlabel : info.label <;> cases hklass : info.klass <;> cases info.id
  all_goals simp_all [gckAttributeGetString, bytesOf]

/-- A URI that is built is a string, and parsed for any context it gives back the strings of the module
and of the token, the label, the class and the identifier. -/
theorem uri_round_trip (u : UriEscaping) (info : GckUriInfo)
    (hstrings : ∀ s ∈ info.strings, (0 : UInt8) ∉ s)
    (hclass : ∀ klass, info.klass = some klass → IsNamed klass) (hid : info.HasBytes) :
    ∃ uri info', gckUriBuild u info = .ok uri ∧ (0 : UInt8) ∉ uri ∧
      gckUriParse u uri gckUriParseAny = .ok info' ∧ info'.anyUnrecognized = false ∧
      (info'.libraryDescription = info.libraryDescription ∧
        info'.libraryManufacturer = info.libraryManufacturer) ∧
      (info'.model = info.model ∧ info'.manufacturer = info.manufacturer ∧
        info'.serial = info.serial ∧ info'.token = info.token) ∧
      info'.label = info.label ∧ info'.klass = info.klass ∧ info'.id = info.id := by
  refine ⟨_, parsedInfo info, gckUriBuild_eq hid, fun hmem => ?_, parse_uriFields hstrings hclass, rfl,
    ⟨rfl, rfl⟩, ⟨rfl, rfl, rfl, rfl⟩, parsedInfo_object hclass⟩
  rcases mem_append.1 hmem with hmem | hmem
  · have hprefix : (0 : UInt8) ∉ uriPrefix := by decide
    exact hprefix hmem
  · exact zero_not_mem_joinFields isField_uriFields hmem

/-! ## GLib -/

/-- `g_uri_escape_string (s, "", FALSE)`. -/
def gUriEscapeString (s : Bytes) : Bytes :=
  s.flatMap fun c => if isUnreserved c then [c] else 0x25 :: hexByte hexcUpper c

/-- `g_uri_unescape_segment (start, end, "")`. -/
def gUriUnescapeSegment : Bytes → Option Bytes
  | [] => some []
  | 0x25 :: a :: b :: s =>
    let c := UInt8.ofNat (xdigitValue a * 16 + xdigitValue b)
    if isXdigit a ∧ isXdigit b ∧ c ≠ 0 then (gUriUnescapeSegment s).map (c :: ·) else none
  | c :: s => if c = 0x25 then none else (gUriUnescapeSegment s).map (c :: ·)

theorem hexcUpper_spec {n : Nat} (h : n < 16) :
    isXdigit (hexcUpper.getD n 0) = true ∧ isUnreserved (hexcUpper.getD n 0) = true ∧
      xdigitValue (hexcUpper.getD n 0) = n := by
  have hall : ∀ n < 16, isXdigit (hexcUpper.getD n 0) = true ∧
      isUnreserved (hexcUpper.getD n 0) = true ∧ xdigitValue (hexcUpper.getD n 0) = n := by decide
  exact hall n h

theorem gUriEscapeString_chars (s : Bytes) :
    ∀ c ∈ gUriEscapeString s, isUnreserved c = true ∨ c = 0x25 := by
  intro c hc
  obtain ⟨a, -, hmem⟩ := mem_flatMap.1 hc
  have ha := a.toNat_lt
  split at hmem
  · next hunreserved => exact .inl (mem_singleton.1 hmem ▸ hunreserved)
  · rcases mem_cons.1 hmem with rfl | hmem
    · exact .inr rfl
    · rcases mem_cons.1 hmem with rfl | hmem
      · exact .inl (hexcUpper_spec (by omega)).2.1
      · rw [mem_singleton.1 hmem]
        exact .inl (hexcUpper_spec (by omega)).2.1

theorem gUriUnescapeSegment_escape {s : Bytes} (hs : (0 : UInt8) ∉ s) :
    gUriUnescapeSegment (gUriEscapeString s) = some s := by
  induction s with
  | nil => rfl
  | cons c s ih =>
    rw [mem_cons, not_or] at hs
    have hc := c.toNat_lt
    rw [gUriEscapeString, flatMap_cons]
    change gUriUnescapeSegment (_ ++ gUriEscapeString s) = _
    split
    · next hunreserved =>
        have hne : c ≠ 0x25 := by
          rintro rfl
          exact absurd hunreserved (by decide)
        rw [singleton_append, gUriUnescapeSegment, if_neg hne, ih hs.2]
        · rfl
        · exact fun _ _ _ heq => absurd heq hne
    · obtain ⟨hhi, -, hhi'⟩ := hexcUpper_spec (by omega : c.toNat / 16 < 16)
      obtain ⟨hlo, -, hlo'⟩ := hexcUpper_spec (by omega : c.toNat % 16 < 16)
      have hvalue : UInt8.ofNat (xdigitValue (hexcUpper.getD (c.toNat / 16) 0) * 16 +
          xdigitValue (hexcUpper.getD (c.toNat % 16) 0)) = c := by
        rw [hhi', hlo', Nat.mul_comm, Nat.div_add_mod, UInt8.ofNat_toNat]
      rw [hexByte, cons_append, cons_append, cons_append, nil_append, gUriUnescapeSegment]
      rw [hvalue, if_pos ⟨hhi, hlo, Ne.symm hs.1⟩, ih hs.2]
      rfl

/-- The functions as GLib has them. -/
def glib : UriEscaping where
  escape := gUriEscapeString
  unescape := gUriUnescapeSegment
  escaped := gUriEscapeString_chars
  unescape_escape _ hs := gUriUnescapeSegment_escape hs

/-- A description that is empty, one with separators, a label and an identifier. -/
def sampleInfo : GckUriInfo where
  anyUnrecognized := false
  moduleInfo := some ⟨some [], some (ascii "a;b=c%")⟩
  tokenInfo := none
  attributes := some [⟨ckaLabel, .data (ascii "id=00")⟩, ⟨ckaClass, .data (ulongBytes ckoSecretKey)⟩,
    ⟨ckaId, .data [0, 0xff]⟩]

theorem uri_round_trip_sample : ∃ uri info', gckUriBuild glib sampleInfo = .ok uri ∧
    gckUriParse glib uri gckUriParseAny = .ok info' ∧ info'.libraryManufacturer = some [] ∧
      info'.libraryDescription = some (ascii "a;b=c%") ∧ info'.id = some [0, 0xff] := by
  have hstrings : ∀ s ∈ sampleInfo.strings, (0 : UInt8) ∉ s := by
    change ∀ s ∈ [ascii "a;b=c%", []], (0 : UInt8) ∉ s
    decide
  have hclass : ∀ klass, sampleInfo.klass = some klass → IsNamed klass := by
    intro klass hklass
    have hsecret : sampleInfo.klass = some ckoSecretKey := by decide
    rw [hsecret] at hklass
    cases hklass
    exact mem_cons_of_mem _ (mem_cons_of_mem _ (mem_cons_of_mem _ mem_cons_self))
  have hid : sampleInfo.HasBytes := by
    intro attrs attr hattrs hfind
    cases hattrs
    have hdata : attr = ⟨ckaId, .data [0, 0xff]⟩ := Option.some.inj (hfind.symm.trans rfl)
    rw [hdata]
    exact GckValue.noConfusion
  obtain ⟨uri, info', hbuild, -, hparse, -, hmodule, -, -, -, hid'⟩ :=
    uri_round_trip glib sampleInfo hstrings hclass hid
  exact ⟨uri, info', hbuild, hparse, hmodule.2, hmodule.1, hid'⟩

end MateKeyring.Gck
