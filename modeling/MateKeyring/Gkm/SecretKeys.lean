import Mathlib.Data.List.Sort
import MateKeyring.Egg.OpensslCipher
import MateKeyring.Rpc.Message
import MateKeyring.Ssh.Attributes

/-!
# Secret keys and their creation

The objects of `gkm-aes-key.c`, `gkm-generic-key.c` and `gkm-null-key.c`, and how a session creates one from a
template. The factory is found by the attributes that it asks for, among those of a module, which also make other
objects. It takes the value out of the template, and what it leaves there has to be what the key has anyway, or
something that can be set. A null key takes no value, but as it has an empty one no other value passes: a key that is
created has the value of its template (`create_total`).
-/

set_option autoImplicit false

namespace MateKeyring.Gkm.SecretKeys

open List
open Egg (gcryCipherAes128 gcryCipherAes192 gcryCipherAes256)
open Rpc (CkRv ckrOk ckrAttributeTypeInvalid ckUnavailable)
open Ssh (ulongBytes ckaClass ckaToken ckaValue ckaKeyType ckaId ckoCertificate ckoPublicKey ckoPrivateKey
  ckoSecretKey)

/-! ## Keys -/

/-- The most that `egg_secure_alloc` gives. -/
abbrev secureMost : Nat := 0xFFFFFFFF / 2

/-- `algorithm_for_length` -/
def algorithmForLength (length : Nat) : Nat :=
  if length = 16 then gcryCipherAes128
  else if length = 24 then gcryCipherAes192
  else if length = 32 then gcryCipherAes256
  else 0

theorem algorithmForLength_ne_zero_iff {n : Nat} : algorithmForLength n ≠ 0 ↔ n = 16 ∨ n = 24 ∨ n = 32 := by
  rw [algorithmForLength]
  split
  · rename_i h
    exact iff_of_true (by decide) (.inl h)
  · split
    · rename_i h
      exact iff_of_true (by decide) (.inr (.inl h))
    · split
      · rename_i h
        exact iff_of_true (by decide) (.inr (.inr h))
      · exact iff_of_false (fun h => h rfl) (by omega)

/-- A `GkmAesKey`. -/
structure AesKey where
  value : Bytes
  known : algorithmForLength value.length ≠ 0

theorem AesKey.length_cases (key : AesKey) :
    key.value.length = 16 ∨ key.value.length = 24 ∨ key.value.length = 32 :=
  algorithmForLength_ne_zero_iff.1 key.known

/-- A secret key object. The value of a `GkmGenericKey` is in secure memory. -/
inductive SecretKey where
  | aes (key : AesKey)
  | generic (value : Bytes) (room : value.length ≤ secureMost)
  | null

/-- The `CKA_VALUE` of a key. -/
def SecretKey.value : SecretKey → Bytes
  | .aes key => key.value
  | .generic value _ => value
  | .null => []

theorem SecretKey.length_value_le (key : SecretKey) : key.value.length ≤ secureMost := by
  cases key with
  | aes key =>
    have hmost : 32 ≤ secureMost := by decide
    have hlength := key.length_cases
    have hle : key.value.length ≤ 32 := by omega
    exact hle.trans hmost
  | generic value room => exact room
  | null => exact Nat.zero_le _

/-! ## Factories -/

/-- An attribute of a template, with its value. -/
structure TemplateAttribute where
  type : Nat
  value : Bytes
  deriving DecidableEq, Repr

abbrev ckaCertificateType : Nat := 0x80
abbrev ckaValueLen : Nat := 0x161

abbrev ckoGCredential : Nat := (0x80000000 ||| 0x474e4d45) + 100

abbrev ckcX509 : Nat := 0x0

abbrev ckkDh : Nat := 0x2
abbrev ckkGenericSecret : Nat := 0x10
abbrev ckkAes : Nat := 0x1f
abbrev ckkGNull : Nat := (0x80000000 ||| 0x474e4d45) + 100

abbrev ckrAttributeReadOnly : CkRv := 0x10
abbrev ckrSessionReadOnly : CkRv := 0xb5
abbrev ckrTemplateIncomplete : CkRv := 0xd0
abbrev ckrTemplateInconsistent : CkRv := 0xd1
abbrev ckrTokenWriteProtected : CkRv := 0xe2

/-- `gkm_attributes_find` -/
def attributesFind (attrs : List TemplateAttribute) (type : Nat) : Option TemplateAttribute :=
  attrs.find? fun attr => attr.type == type

/-- `gkm_attributes_find_boolean` finds the value `CK_TRUE`. -/
def attributesFindTrue (attrs : List TemplateAttribute) (type : Nat) : Bool :=
  (attributesFind attrs type).any fun attr => attr.value == [1]

/-- `gkm_attribute_consume` -/
def TemplateAttribute.consume (attr : TemplateAttribute) : TemplateAttribute := { attr with type := ckUnavailable }

/-- `gkm_attribute_consume` for what `gkm_attributes_find` gives. -/
def consumeFirst (type : Nat) : List TemplateAttribute → List TemplateAttribute
  | [] => []
  | attr :: attrs => if attr.type = type then attr.consume :: attrs else attr :: consumeFirst type attrs

/-- `gkm_attributes_consume` -/
def attributesConsume (type : Nat) (attrs : List TemplateAttribute) : List TemplateAttribute :=
  attrs.map fun attr => if attr.type = type then attr.consume else attr

/-- The factories of other objects. -/
inductive OtherFactory where
  | certificate
  | credential
  | dhPrivateKey
  | privateXsaKey
  | dhPublicKey
  | publicXsaKey
  /-- One that a kind of module registers besides, with its attributes. -/
  | own (attrs : List TemplateAttribute)

/-- A `GkmFactory`. -/
inductive Factory where
  | aes
  | generic
  | null
  | other (factory : OtherFactory)

/-- The attribute of a class. -/
abbrev ofClass (klass : Nat) : TemplateAttribute := ⟨ckaClass, ulongBytes klass⟩

/-- The attribute of a type of keys. -/
abbrev ofKeyType (type : Nat) : TemplateAttribute := ⟨ckaKeyType, ulongBytes type⟩

/-- The attributes that a template for a factory has. -/
def Factory.attrs : Factory → List TemplateAttribute
  | .aes => [ofClass ckoSecretKey, ofKeyType ckkAes]
  | .generic => [ofClass ckoSecretKey, ofKeyType ckkGenericSecret]
  | .null => [ofClass ckoSecretKey, ofKeyType ckkGNull]
  | .other .certificate => [ofClass ckoCertificate, ⟨ckaCertificateType, ulongBytes ckcX509⟩]
  | .other .credential => [ofClass ckoGCredential]
  | .other .dhPrivateKey => [ofClass ckoPrivateKey, ofKeyType ckkDh]
  | .other .privateXsaKey => [ofClass ckoPrivateKey]
  | .other .dhPublicKey => [ofClass ckoPublicKey, ofKeyType ckkDh]
  | .other .publicXsaKey => [ofClass ckoPublicKey]
  | .other (.own attrs) => attrs

/-- What `gkm_module_init` registers. -/
def initFactories : List Factory :=
  [.aes, .other .certificate, .other .credential, .generic, .null, .other .dhPrivateKey, .other .privateXsaKey,
    .other .dhPublicKey, .other .publicXsaKey]

/-- The factories of a module. -/
def factories (own : List (List TemplateAttribute)) : List Factory :=
  initFactories ++ own.map fun attrs => .other (.own attrs)

/-- `sort_factory_by_n_attrs`: those with more attributes come first. -/
abbrev SortsBefore (a b : Factory) : Prop := b.attrs.length ≤ a.attrs.length

/-- `gkm_module_find_factory` of a module with its own factories. -/
def gkmModuleFindFactory (own : List (List TemplateAttribute)) (attrs : List TemplateAttribute) : Option Factory :=
  ((factories own).insertionSort SortsBefore).find? fun factory => factory.attrs.all attrs.contains

/-- What a factory makes, and what is left of the template, or why it fails. -/
abbrev Made := Except CkRv (SecretKey × List TemplateAttribute)

/-- `factory_create_aes_key`, up to the completion. -/
def factoryCreateAesKey (attrs : List TemplateAttribute) : Made :=
  match attributesFind attrs ckaValue with
  | none => .error ckrTemplateIncomplete
  | some attr =>
    if known : algorithmForLength attr.value.length ≠ 0 then
      .ok (.aes ⟨attr.value, known⟩, consumeFirst ckaValue attrs)
    else .error ckrTemplateInconsistent

/-- `factory_create_generic_key`, up to the completion. -/
def factoryCreateGenericKey (attrs : List TemplateAttribute) : Checked Made :=
  match attributesFind attrs ckaValue with
  | none => .ok (.error ckrTemplateIncomplete)
  | some attr =>
    if (attributesFind attrs ckaValueLen).isSome then .ok (.error ckrTemplateInconsistent)
    else if room : attr.value.length ≤ secureMost then
      .ok (.ok (.generic attr.value room, consumeFirst ckaValue attrs))
    -- the value is copied to what `egg_secure_alloc` gives
    else .error .nullPointer

/-! ## Completion -/

/-- What is created: a secret key, or another object. -/
inductive Object where
  | secret (key : SecretKey)
  | other

/-- A session, with what the creation of an object asks of it, of its module and of the store. -/
structure Session where
  /-- The attributes of the factories that its kind of module registers besides. -/
  own : List (List TemplateAttribute)
  own_le : ∀ attrs ∈ own, attrs.length ≤ 2
  /-- What comes of the factory of another object. -/
  createOther : OtherFactory → List TemplateAttribute → Checked (CkRv × Option Object)
  readOnly : Bool
  /-- `gkm_module_get_write_protected` -/
  writeProtected : Bool
  /-- What setting an attribute fails with, if it is not the class, the key type or the value. -/
  setOther : SecretKey → TemplateAttribute → Option CkRv
  /-- What `gkm_module_add_token_object` fails with. -/
  addTokenObject : SecretKey → Option CkRv
  /-- What `gkm_module_store_token_object` fails with. -/
  storeTokenObject : SecretKey → Option CkRv
  /-- What `gkm_transaction_complete_and_unref` returns, if nothing failed before. -/
  complete : SecretKey → CkRv
  /-- No transaction fails with `CKR_OK`. -/
  setOther_ne : ∀ key attr, setOther key attr ≠ some ckrOk
  addTokenObject_ne : ∀ key, addTokenObject key ≠ some ckrOk
  storeTokenObject_ne : ∀ key, storeTokenObject key ≠ some ckrOk

/-- `gkm_object_get_attribute` for the class, the key type and the value. -/
def SecretKey.attribute (key : SecretKey) (type : Nat) : Option Bytes :=
  if type = ckaClass then some (ulongBytes ckoSecretKey)
  else if type = ckaKeyType then
    some (ulongBytes (match key with
      | .aes _ => ckkAes
      | .generic _ _ => ckkGenericSecret
      | .null => ckkGNull))
  else if type = ckaValue then some key.value
  else none

/-- `gkm_object_set_attribute`: what it fails with. The store of a session has no schema for the key type or the
value, and an object of the token has no store. -/
def gkmObjectSetAttribute (s : Session) (isToken : Bool) (key : SecretKey) (attr : TemplateAttribute) :
    Option CkRv :=
  match key.attribute attr.type with
  | none => s.setOther key attr
  | some value =>
    if value = attr.value then none
    else if attr.type = ckaClass ∨ isToken then some ckrAttributeReadOnly
    else some ckrAttributeTypeInvalid

/-- The loop that sets what was not consumed: what it fails with. -/
def setRemaining (s : Session) (isToken : Bool) (key : SecretKey) : List TemplateAttribute → Option CkRv
  | [] => none
  | attr :: attrs =>
    if attr.type = ckUnavailable then setRemaining s isToken key attrs
    else
      match gkmObjectSetAttribute s isToken key attr with
      | some rv => some rv
      | none => setRemaining s isToken key attrs

/-- `gkm_session_complete_object_creation`: what it fails with. A secret key is not transient, and not private. -/
def gkmSessionCompleteObjectCreation (s : Session) (isToken : Bool) (key : SecretKey)
    (attrs : List TemplateAttribute) : Option CkRv :=
  if isToken ∧ s.writeProtected then some ckrTokenWriteProtected
  else if isToken ∧ s.readOnly then some ckrSessionReadOnly
  else
    match (if isToken then s.addTokenObject key else none) with
    | some rv => some rv
    | none =>
      -- the id was consumed by `gkm_secret_key_real_create_attributes`
      match setRemaining s isToken key (attributesConsume ckaToken (consumeFirst ckaId attrs)) with
      | some rv => some rv
      | none => if isToken then s.storeTokenObject key else none

/-- A key that a factory makes of a template, in a transaction, and the result of the transaction. -/
def createSecretKey (s : Session) (attrs : List TemplateAttribute) : Made → CkRv × Option Object
  | .error rv => (rv, none)
  | .ok (key, left) =>
    match gkmSessionCompleteObjectCreation s (attributesFindTrue attrs ckaToken) key left with
    | some rv => (rv, none)
    | none => (s.complete key, some (.secret key))

/-- `gkm_session_create_object_for_attributes` in a transaction, and the result of the transaction. -/
def gkmSessionCreateObjectForAttributes (s : Session) (attrs : List TemplateAttribute) :
    Checked (CkRv × Option Object) :=
  match gkmModuleFindFactory s.own attrs with
  | none => .ok (ckrTemplateIncomplete, none)
  | some .aes => .ok (createSecretKey s attrs (factoryCreateAesKey attrs))
  | some .generic => (factoryCreateGenericKey attrs).map (createSecretKey s attrs)
  -- `factory_create_null_key`
  | some .null => .ok (createSecretKey s attrs (.ok (.null, attrs)))
  | some (.other factory) => s.createOther factory attrs

/-! ## What is created -/

variable {s : Session} {attrs : List TemplateAttribute} {value : Bytes}

/-- The template for a value. -/
abbrev withValue (value : Bytes) (attrs : List TemplateAttribute) : List TemplateAttribute :=
  ⟨ckaValue, value⟩ :: attrs

theorem attributesFind_withValue : attributesFind (withValue value attrs) ckaValue = some ⟨ckaValue, value⟩ :=
  find?_cons_of_pos rfl

/-- The value of a null key is checked when what is left of the template is set. -/
theorem setRemaining_withValue {isToken : Bool} {key : SecretKey}
    (h : setRemaining s isToken key (attributesConsume ckaToken (consumeFirst ckaId (withValue value attrs))) = none) :
    key.value = value := by
  have hattrs : attributesConsume ckaToken (consumeFirst ckaId (withValue value attrs)) =
      ⟨ckaValue, value⟩ :: attributesConsume ckaToken (consumeFirst ckaId attrs) := rfl
  have hkey : key.attribute ckaValue = some key.value := rfl
  rw [hattrs, setRemaining, if_neg (show ckaValue ≠ ckUnavailable by decide), gkmObjectSetAttribute, hkey] at h
  by_contra hne
  simp only [if_neg hne] at h
  split at h
  · exact nomatch h
  · rename_i hset
    split at hset
    · exact nomatch hset
    · exact nomatch hset

theorem setRemaining_of_complete {isToken : Bool} {key : SecretKey}
    (h : gkmSessionCompleteObjectCreation s isToken key attrs = none) :
    setRemaining s isToken key (attributesConsume ckaToken (consumeFirst ckaId attrs)) = none := by
  rw [gkmSessionCompleteObjectCreation] at h
  split at h
  · exact nomatch h
  · split at h
    · exact nomatch h
    · split at h
      · exact nomatch h
      · split at h
        · exact nomatch h
        · rename_i hset
          exact hset

/-- What a factory makes has the value, or leaves it in the template, and no factory fails with `CKR_OK`. -/
def KeepsValue (value : Bytes) (attrs : List TemplateAttribute) : Made → Prop
  | .error rv => rv ≠ ckrOk
  | .ok (key, left) => key.value = value ∨ left = withValue value attrs

theorem keepsValue_aes : KeepsValue value attrs (factoryCreateAesKey (withValue value attrs)) := by
  rw [factoryCreateAesKey, attributesFind_withValue]
  dsimp only
  split
  · exact .inl rfl
  · show ckrTemplateInconsistent ≠ ckrOk
    decide

theorem keepsValue_generic (hroom : value.length ≤ secureMost) :
    ∃ made, factoryCreateGenericKey (withValue value attrs) = .ok made ∧ KeepsValue value attrs made := by
  rw [factoryCreateGenericKey, attributesFind_withValue]
  dsimp only
  split
  · refine ⟨_, rfl, ?_⟩
    show ckrTemplateInconsistent ≠ ckrOk
    decide
  · exact ⟨_, rfl, .inl rfl⟩

theorem gkmObjectSetAttribute_ne (isToken : Bool) (key : SecretKey) (attr : TemplateAttribute) :
    gkmObjectSetAttribute s isToken key attr ≠ some ckrOk := by
  rw [gkmObjectSetAttribute]
  split
  · exact s.setOther_ne key attr
  · split
    · exact (Option.some_ne_none _).symm
    · split
      · decide
      · decide

theorem setRemaining_ne (isToken : Bool) (key : SecretKey) (attrs : List TemplateAttribute) :
    setRemaining s isToken key attrs ≠ some ckrOk := by
  induction attrs with
  | nil => exact nofun
  | cons attr attrs ih =>
    rw [setRemaining]
    split
    · exact ih
    · have hset := gkmObjectSetAttribute_ne (s := s) isToken key attr
      split
      · rename_i rv hrv
        rwa [← hrv]
      · exact ih

theorem complete_ne (isToken : Bool) (key : SecretKey) (attrs : List TemplateAttribute) :
    gkmSessionCompleteObjectCreation s isToken key attrs ≠ some ckrOk := by
  have hadd : (if isToken then s.addTokenObject key else none) ≠ some ckrOk := by
    split
    · exact s.addTokenObject_ne key
    · exact nofun
  have hset := setRemaining_ne (s := s) isToken key (attributesConsume ckaToken (consumeFirst ckaId attrs))
  rw [gkmSessionCompleteObjectCreation]
  split
  · decide
  · split
    · decide
    · split
      · rename_i rv hrv
        rwa [← hrv]
      · split
        · rename_i rv hrv
          rwa [← hrv]
        · split
          · exact s.storeTokenObject_ne key
          · exact nofun

/-- A key that is created has the value. -/
theorem createSecretKey_value {made : Made} (hmade : KeepsValue value attrs made)
    (h : (createSecretKey s (withValue value attrs) made).1 = ckrOk) :
    ∃ key, (createSecretKey s (withValue value attrs) made).2 = some (.secret key) ∧ key.value = value := by
  rcases made with rv | ⟨key, left⟩
  · exact absurd h hmade
  · rw [createSecretKey] at h ⊢
    have hne := complete_ne (s := s) (attributesFindTrue (withValue value attrs) ckaToken) key left
    split at h
    · rename_i rv hcomplete
      have hrv : rv = ckrOk := h
      rw [hrv] at hcomplete
      exact absurd hcomplete hne
    · rename_i hcomplete
      refine ⟨key, rfl, ?_⟩
      rcases hmade with hvalue | rfl
      · exact hvalue
      · exact setRemaining_withValue (setRemaining_of_complete hcomplete)

/-- Where there is secure memory for the value, there is a key with it or a failure, if the template is not that of
another object. -/
theorem create_total (s : Session) (attrs : List TemplateAttribute) (value : Bytes) (hroom : value.length ≤ secureMost) :
    (∃ rv made, gkmSessionCreateObjectForAttributes s (withValue value attrs) = .ok (rv, made) ∧
        (rv = ckrOk → ∃ key, made = some (.secret key) ∧ key.value = value)) ∨
      ∃ factory, gkmModuleFindFactory s.own (withValue value attrs) = some (.other factory) ∧
        gkmSessionCreateObjectForAttributes s (withValue value attrs) = s.createOther factory (withValue value attrs) := by
  rw [gkmSessionCreateObjectForAttributes]
  cases gkmModuleFindFactory s.own (withValue value attrs) with
  | none => exact .inl ⟨_, _, rfl, fun h => absurd h (by decide)⟩
  | some factory =>
    cases factory with
    | aes => exact .inl ⟨_, _, rfl, createSecretKey_value keepsValue_aes⟩
    | generic =>
      obtain ⟨made, hmade, hkeeps⟩ := @keepsValue_generic attrs value hroom
      rw [hmade]
      exact .inl ⟨_, _, rfl, createSecretKey_value hkeeps⟩
    | null => exact .inl ⟨_, _, rfl, @createSecretKey_value _ _ _ (.ok (.null, withValue value attrs)) (.inr rfl)⟩
    | other factory => exact .inr ⟨factory, rfl, rfl⟩

/-- The template of a generic key. -/
def genericTemplate : List TemplateAttribute := [ofClass ckoSecretKey, ofKeyType ckkGenericSecret]

theorem contains_withValue {attr : TemplateAttribute} (h : attr.type ≠ ckaValue) :
    (withValue value attrs).contains attr = attrs.contains attr := by
  have hne : attr ≠ ⟨ckaValue, value⟩ := fun heq => h (congrArg TemplateAttribute.type heq)
  rw [contains_cons, beq_false_of_ne hne, Bool.false_or]

/-- What the key has anyway is not set. -/
theorem setAttribute_same (s : Session) (isToken : Bool) (key : SecretKey) (attr : TemplateAttribute)
    (h : key.attribute attr.type = some attr.value) : gkmObjectSetAttribute s isToken key attr = none := by
  rw [gkmObjectSetAttribute, h]
  exact if_pos rfl

/-- The factory of generic keys comes after those of AES keys and of certificates. -/
theorem find_generic {own : List (List TemplateAttribute)} (hown : ∀ attrs ∈ own, attrs.length ≤ 2) :
    gkmModuleFindFactory own (withValue value genericTemplate) = some .generic := by
  have hinit : ∀ factory ∈ initFactories, factory.attrs.length ≤ 2 := by decide
  have hle : ∀ factory ∈ factories own, factory.attrs.length ≤ 2 := by
    intro factory hmem
    rcases mem_append.1 hmem with hmem | hmem
    · exact hinit factory hmem
    · obtain ⟨attrs, hattrs, rfl⟩ := mem_map.1 hmem
      exact hown attrs hattrs
  have hsort : ∀ (factory : Factory) rest, factory.attrs.length = 2 → rest <:+ factories own →
      (factory :: rest).insertionSort SortsBefore = factory :: rest.insertionSort SortsBefore :=
    fun factory rest htwo hrest => insertionSort_cons_of_forall_rel SortsBefore fun f hf =>
      (hle f (hrest.subset hf)).trans_eq htwo.symm
  have hcontains : ∀ factory : Factory, (∀ attr ∈ factory.attrs, attr.type ≠ ckaValue) →
      factory.attrs.all (withValue value genericTemplate).contains = factory.attrs.all genericTemplate.contains := by
    intro factory hne
    rw [Bool.eq_iff_iff, all_eq_true, all_eq_true]
    exact forall₂_congr fun attr hattr => by rw [contains_withValue (hne attr hattr)]
  obtain ⟨rest, hrest⟩ : ∃ rest, factories own =
      .aes :: .other .certificate :: .other .credential :: .generic :: rest := ⟨_, rfl⟩
  rw [hrest] at hsort
  rw [gkmModuleFindFactory, hrest, hsort _ _ rfl ⟨[.aes], rfl⟩, hsort _ _ rfl ⟨[.aes, .other .certificate], rfl⟩,
    insertionSort_cons, hsort _ _ rfl ⟨[.aes, .other .certificate, .other .credential, .generic], rfl⟩,
    orderedInsert_of_not_le, find?_cons_of_neg, find?_cons_of_neg, find?_cons_of_pos]
  · rw [hcontains _ (by decide)]
    decide
  · rw [hcontains _ (by decide)]
    decide
  · rw [hcontains _ (by decide)]
    decide
  · decide

/-- Nothing stands in the way of a generic key. -/
theorem create_generic (s : Session) (hroom : value.length ≤ secureMost) :
    gkmSessionCreateObjectForAttributes s (withValue value genericTemplate) =
      .ok (s.complete (.generic value hroom), some (.secret (.generic value hroom))) := by
  have hmake : factoryCreateGenericKey (withValue value genericTemplate) =
      .ok (.ok (.generic value hroom, (⟨ckaValue, value⟩ : TemplateAttribute).consume :: genericTemplate)) := by
    rw [factoryCreateGenericKey, attributesFind_withValue]
    exact dif_pos hroom
  have htoken : attributesFindTrue (withValue value genericTemplate) ckaToken = false := rfl
  have hclass := setAttribute_same s false (SecretKey.generic value hroom) (ofClass ckoSecretKey) rfl
  have htype := setAttribute_same s false (SecretKey.generic value hroom) (ofKeyType ckkGenericSecret) rfl
  have hset : setRemaining s false (.generic value hroom)
      ((⟨ckaValue, value⟩ : TemplateAttribute).consume :: genericTemplate) = none := by
    have hconsumed : (⟨ckaValue, value⟩ : TemplateAttribute).consume.type = ckUnavailable := rfl
    rw [setRemaining, if_pos hconsumed, genericTemplate, setRemaining, if_neg (by decide), hclass]
    dsimp only
    rw [setRemaining, if_neg (by decide), htype]
    rfl
  have hcomplete : gkmSessionCompleteObjectCreation s false (.generic value hroom)
      ((⟨ckaValue, value⟩ : TemplateAttribute).consume :: genericTemplate) = none := by
    have hleft : attributesConsume ckaToken (consumeFirst ckaId
        ((⟨ckaValue, value⟩ : TemplateAttribute).consume :: genericTemplate)) =
          (⟨ckaValue, value⟩ : TemplateAttribute).consume :: genericTemplate := rfl
    rw [gkmSessionCompleteObjectCreation, if_neg (fun h => Bool.false_ne_true h.1),
      if_neg (fun h => Bool.false_ne_true h.1), hleft, hset]
    rfl
  rw [gkmSessionCreateObjectForAttributes, find_generic s.own_le]
  show (factoryCreateGenericKey _).map _ = _
  rw [hmake]
  show Except.ok (createSecretKey s _ (.ok _)) = _
  rw [createSecretKey, htoken, hcomplete]

end MateKeyring.Gkm.SecretKeys
