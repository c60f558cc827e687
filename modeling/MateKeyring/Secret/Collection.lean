import MateKeyring.Gkm.Templates
import MateKeyring.Mate2.File
import MateKeyring.Secret.Fields
import MateKeyring.Ssh.Attributes

/-!
# Collections of secret items

The objects of the secret store that a keyring file is read into and written from: the label and times
of `gkm-secret-object.c`, the items of `gkm-secret-collection.c`, the secrets of `gkm-secret-data.c`
and the item types of `gkm-secret-compat.c`. A `glong` has 64 bits and a `gint` 32.
-/

set_option autoImplicit false

namespace MateKeyring.Secret

open Lib Egg
open Ssh (ckaToken ulongBytes gckValueToUlong gckValueToUlong_ulongBytes)

/-! ## Secrets -/

/-- `GkmSecret`; the memory may be a null pointer. -/
structure GkmSecret where
  memory : Option Bytes
  deriving DecidableEq, Repr

/-- `GkmSecretData`. -/
structure GkmSecretData where
  secrets : AList fun _ : CString => GkmSecret
  master : Option GkmSecret

/-- `gkm_secret_data_get_secret`. -/
def gkmSecretDataGetSecret (self : GkmSecretData) (identifier : CString) : Option GkmSecret :=
  self.secrets.lookup identifier

/-- `gkm_secret_data_set_secret`. -/
def gkmSecretDataSetSecret (self : GkmSecretData) (identifier : CString) (secret : GkmSecret) :
    GkmSecretData :=
  { self with secrets := self.secrets.insert identifier secret }

/-- `gkm_secret_data_remove_secret`. -/
def gkmSecretDataRemoveSecret (self : GkmSecretData) (identifier : CString) : GkmSecretData :=
  { self with secrets := self.secrets.erase identifier }

/-! ## Items -/

/-- `GkmSecretAccess`. -/
structure GkmSecretAccess where
  displayName : Option CString
  pathname : Option CString
  typesAllowed : UInt32
  deriving DecidableEq

/-- `GkmSecretItem`, with what it has as a `GkmSecretObject` and its `compat-acl`. -/
structure GkmSecretItem where
  label : Option CString
  created : BitVec 64
  modified : BitVec 64
  schema : Option CString
  fields : Fields
  compatAcl : List GkmSecretAccess

theorem empty_noNul : (0 : UInt8) ∉ ([] : Bytes) := List.not_mem_nil

/-- What the constructor makes. -/
def gkmSecretItemNew : GkmSecretItem :=
  { label := some ⟨[], empty_noNul⟩, created := 0, modified := 0, schema := none, fields := ∅,
    compatAcl := [] }

/-- The item types that have a name. -/
def itemTypes : List (Nat × CString) :=
  [(0, ⟨ascii "org.freedesktop.Secret.Generic", by decide⟩),
    (1, ⟨ascii "org.mate.keyring.NetworkPassword", by decide⟩),
    (2, ⟨ascii "org.mate.keyring.Note", by decide⟩),
    (3, ⟨ascii "org.mate.keyring.ChainedKeyring", by decide⟩),
    (4, ⟨ascii "org.mate.keyring.EncryptionKey", by decide⟩),
    (0x100, ⟨ascii "org.mate.keyring.PkStorage", by decide⟩)]

/-- `gkm_secret_compat_parse_item_type`; what is not known is the generic type. -/
def gkmSecretCompatParseItemType (value : Option CString) : Nat :=
  match value with
  | none => 0
  | some value => ((itemTypes.find? fun t => t.2 == value).map Prod.fst).getD 0

/-- `gkm_secret_compat_format_item_type`. -/
def gkmSecretCompatFormatItemType (value : Nat) : Option CString :=
  (itemTypes.find? fun t => t.1 == value % 0x10000).map Prod.snd

/-! ## The collection -/

abbrev ckaMateTransient : Nat := (0x80000000 ||| 0x474e4d45) + 201
abbrev ckaGDestructIdle : Nat := (0x80000000 ||| 0x474e4d45) + 190
abbrev ckaGDestructAfter : Nat := (0x80000000 ||| 0x474e4d45) + 191

/-- An attribute of a template; `none` is the length `(CK_ULONG)-1`. -/
structure TemplateAttribute where
  type : Nat
  value : Option Bytes
  deriving DecidableEq

/-- `GkmSecretCollection`, with what it has as a `GkmSecretObject`. -/
structure GkmSecretCollection where
  label : Option CString
  created : BitVec 64
  modified : BitVec 64
  items : AList fun _ : CString => GkmSecretItem
  watermark : UInt32
  template : List TemplateAttribute

/-- The template that `gkm_secret_collection_init` makes. -/
def initTemplate : List TemplateAttribute :=
  [⟨ckaToken, some [1]⟩, ⟨ckaMateTransient, some [1]⟩, ⟨ckaGDestructIdle, some (ulongBytes 0)⟩,
    ⟨ckaGDestructAfter, some (ulongBytes 0)⟩]

/-- `gkm_secret_collection_get_items`: the table, last entry first. -/
def gkmSecretCollectionGetItems (self : GkmSecretCollection) : List (CString × GkmSecretItem) :=
  (self.items.entries.map fun e => (e.1, e.2)).reverse

/-- `gkm_secret_collection_get_item`. -/
def gkmSecretCollectionGetItem (self : GkmSecretCollection) (identifier : CString) :
    Option GkmSecretItem :=
  self.items.lookup identifier

/-- `add_item`: the highest numeric identifier is noted. -/
def addItem (self : GkmSecretCollection) (identifier : CString) (item : GkmSecretItem) :
    GkmSecretCollection :=
  let number := UInt32.ofNat (strtoul 64 identifier.val).1
  { self with
    watermark := if number > self.watermark then number else self.watermark
    items := self.items.insert identifier item }

/-- `gkm_secret_collection_new_item`. -/
def gkmSecretCollectionNewItem (self : GkmSecretCollection) (identifier : CString) :
    GkmSecretCollection :=
  addItem self identifier gkmSecretItemNew

/-- `gkm_secret_collection_remove_item`. -/
def gkmSecretCollectionRemoveItem (self : GkmSecretCollection) (identifier : CString) :
    GkmSecretCollection :=
  { self with items := self.items.erase identifier }

/-- An item of the collection is replaced by what the setters made of it. -/
def GkmSecretCollection.setItem (self : GkmSecretCollection) (identifier : CString)
    (item : GkmSecretItem) : GkmSecretCollection :=
  { self with items := self.items.insert identifier item }

/-- The first attribute of a type that has a length. -/
def isFound (type : Nat) (attr : TemplateAttribute) : Bool := attr.type == type && attr.value.isSome

/-- `gkm_template_find_ulong` -/
def gkmTemplateFindUlong (template : List TemplateAttribute) (type : Nat) : Option (BitVec 64) :=
  ((template.find? (isFound type)).bind TemplateAttribute.value).bind fun value =>
    (gckValueToUlong value).map (BitVec.ofNat 64)

/-- The loop of `gkm_template_set`: the first attribute of the type is removed, with the last one in its place. -/
def removePrevious (template : List TemplateAttribute) (type : Nat) : List TemplateAttribute :=
  match template.findIdx? fun attr => attr.type == type with
  | none => template
  | some i => Gkm.removeIndexFast template i

/-- `gkm_template_set` of a `CK_ULONG`. -/
def gkmTemplateSetUlong (template : List TemplateAttribute) (type : Nat) (value : BitVec 64) :
    List TemplateAttribute :=
  removePrevious template type ++ [⟨type, some (ulongBytes value.toNat)⟩]

/-- The timeout that a template has, as a `gint`. -/
def getTimeout (template : List TemplateAttribute) (type : Nat) : BitVec 32 :=
  ((gkmTemplateFindUlong template type).getD 0).truncate 32

/-- A timeout is set in a template: negative ones become zero. -/
def setTimeout (template : List TemplateAttribute) (type : Nat) (lockTimeout : BitVec 32) : List TemplateAttribute :=
  gkmTemplateSetUlong template type (if lockTimeout.slt 0 then 0 else lockTimeout.zeroExtend 64)

/-- `gkm_secret_collection_get_lock_idle`. -/
def gkmSecretCollectionGetLockIdle (self : GkmSecretCollection) : BitVec 32 := getTimeout self.template ckaGDestructIdle

/-- `gkm_secret_collection_set_lock_idle`. -/
def gkmSecretCollectionSetLockIdle (self : GkmSecretCollection) (lockTimeout : BitVec 32) :
    GkmSecretCollection :=
  { self with template := setTimeout self.template ckaGDestructIdle lockTimeout }

/-- `gkm_secret_collection_get_lock_after`. -/
def gkmSecretCollectionGetLockAfter (self : GkmSecretCollection) : BitVec 32 :=
  getTimeout self.template ckaGDestructAfter

/-- `gkm_secret_collection_set_lock_after`. -/
def gkmSecretCollectionSetLockAfter (self : GkmSecretCollection) (lockTimeout : BitVec 32) :
    GkmSecretCollection :=
  { self with template := setTimeout self.template ckaGDestructAfter lockTimeout }

variable {template : List TemplateAttribute} {type : Nat}

/-- Another timeout is what the attributes that stay say. -/
theorem getTimeout_other {other : Nat} (h : other ≠ type) (v : BitVec 32) :
    getTimeout (setTimeout template type v) other = getTimeout (removePrevious template type) other := by
  have hlast : isFound other ⟨type, some (ulongBytes (if v.slt 0 then 0 else v.zeroExtend 64 : BitVec 64).toNat)⟩ = false := by
    rw [isFound, beq_false_of_ne h.symm, Bool.false_and]
  rw [getTimeout, getTimeout, setTimeout, gkmTemplateSetUlong, gkmTemplateFindUlong, gkmTemplateFindUlong,
    List.find?_append, List.find?_singleton, hlast]
  simp

/-- The timeout is what another attribute of the type says that stays, or else what was set. -/
theorem getTimeout_same (v : BitVec 32) :
    getTimeout (setTimeout template type v) type =
      if (removePrevious template type).any (isFound type) then getTimeout (removePrevious template type) type
      else if v.slt 0 then 0 else v := by
  rw [getTimeout, getTimeout, setTimeout, gkmTemplateSetUlong, gkmTemplateFindUlong, gkmTemplateFindUlong,
    List.find?_append]
  cases hleft : (removePrevious template type).find? (isFound type) with
  | some attr =>
    have hany : (removePrevious template type).any (isFound type) = true :=
      List.any_eq_true.2 ⟨attr, List.mem_of_find?_eq_some hleft, List.find?_some hleft⟩
    rw [hany, if_pos rfl]
    rfl
  | none =>
    have hany : (removePrevious template type).any (isFound type) = false :=
      List.any_eq_false.2 (List.find?_eq_none.1 hleft)
    have hfound : ∀ value, isFound type ⟨type, some value⟩ = true := fun value => by
      rw [isFound, beq_self_eq_true]
      rfl
    rw [hany, if_neg Bool.false_ne_true, Option.none_or, List.find?_singleton, if_pos (hfound _)]
    simp only [Option.bind_some, gckValueToUlong_ulongBytes (BitVec.isLt _), Option.map_some, Option.getD_some,
      BitVec.ofNat_toNat, BitVec.setWidth_eq]
    split
    · rfl
    · simp

end MateKeyring.Secret
