import MateKeyring.Secret.Binary

/-!
# The bytes of a keyring file

What each part of `gkm_secret_binary_write` puts into its buffer, as a list of bytes, and what the
reader makes of such bytes wherever they stand. A string that is not UTF-8, or is too long, puts
nothing there.
-/

set_option autoImplicit false

namespace MateKeyring.Secret

open Lib Egg BigEndian List

variable {attributes : Fields} {bs : Bytes} {b b' : EggBuffer} {md5 : Md5}
  {items : List (CString × GkmSecretItem)} {f : EggBuffer → Bool × EggBuffer}
  {collection : GkmSecretCollection} {off : Nat} {r : Bool × EggBuffer} {hashed : Bool}
  {acl : List GkmSecretAccess} {names : List CString} {key : CString} {nonce : Nonce}

/-! ## Strings and times -/

/-- A string that can be written. -/
def Writable (s : CString) : Prop := utf8Validate s.val = true ∧ s.val.length < 0x7fffffff

instance (s : CString) : Decidable (Writable s) := inferInstanceAs (Decidable (_ ∧ _))

/-- What `buffer_add_utf8_string` puts there. -/
def utf8StringBytes : Option CString → Bytes
  | none => byteArrayBytes none
  | some s => if Writable s then byteArrayBytes (some s.val) else []

theorem wrote_utf8String (b : EggBuffer) (str : Option CString) :
    Wrote b (bufferAddUtf8String b str).2 (utf8StringBytes str) := by
  cases str with
  | none => exact (eggBufferAddUint32_writes b _).wrote
  | some s =>
    by_cases hv : utf8Validate s.val = true
    · by_cases hl : s.val.length < 0x7fffffff
      · have hw := eggBufferAddString_writes b s.val hl
        simp only [bufferAddUtf8String, Option.all_some, hv, if_true, Option.map_some,
          utf8StringBytes, Writable, hl, and_self]
        exact hw.wrote
      · have hle : 0x7fffffff ≤ s.val.length := by omega
        simp only [bufferAddUtf8String, Option.all_some, hv, if_true, Option.map_some,
          utf8StringBytes, Writable, hl, and_false, if_false, eggBufferAddString, if_pos hle]
        exact Wrote.refl b
    · simp only [bufferAddUtf8String, Option.all_some, hv, utf8StringBytes, Writable]
      exact Wrote.refl b

theorem utf8String_at {str : Option CString} (h : HasAt bs off (utf8StringBytes str))
    (hs : ∀ s ∈ str, Writable s) :
    bufferGetUtf8String bs off = some (str, off + (utf8StringBytes str).length) := by
  cases str with
  | none =>
    have hr : readAt 4 bs off = some 0xffffffff := by
      have h' : HasAt bs off (encode 4 0xffffffff) := h
      exact h'.readAt (by omega)
    simp [bufferGetUtf8String, stringAt, hr, utf8StringBytes, byteArrayBytes]
  | some s =>
    have hw : Writable s := hs s rfl
    rw [utf8StringBytes, if_pos hw] at h ⊢
    have hat := stringAt_of_hasAt h hw.2
    simp [bufferGetUtf8String, hat, hw.1]

/-- What `buffer_add_time` puts there. -/
def timeBytes (time : BitVec 64) : Bytes :=
  encode 4 (time.toNat / 2 ^ 32) ++ encode 4 (time.toNat % 2 ^ 32)

theorem wrote_time (b : EggBuffer) (time : BitVec 64) :
    Wrote b (bufferAddTime b time).2 (timeBytes time) :=
  ((eggBufferAddUint32_writes b _).andThen _ fun b' => eggBufferAddUint32_writes b' _).wrote

theorem time_at {time : BitVec 64} (h : HasAt bs off (timeBytes time)) :
    bufferGetTime bs off = some (time, off + 8) := by
  have hlt : time.toNat < 2 ^ 64 := time.isLt
  have ha : uint32At bs off = some (time.toNat / 2 ^ 32, off + 4) :=
    uint32At_of_hasAt h.left (by omega)
  have hb : uint32At bs (off + 4) = some (time.toNat % 2 ^ 32, off + 4 + 4) := by
    have hr := h.right
    rw [length_encode] at hr
    exact uint32At_of_hasAt hr (by omega)
  have hsum : time.toNat / 2 ^ 32 * 2 ^ 32 + time.toNat % 2 ^ 32 = time.toNat := by omega
  simp only [bufferGetTime, ha, hb, hsum, BitVec.ofNat_toNat, BitVec.setWidth_eq]

/-! ## Attributes -/

/-- How an attribute is written: as a number or as a string. -/
inductive FieldValue where
  | number (n : UInt32)
  | text (str : Option CString)
  deriving DecidableEq

/-- The value that is written for a name; for a hashed attribute there may be none. -/
def fieldValue (md5 : Md5) (attributes : Fields) (hashed : Bool) (key : CString) :
    Checked (Option FieldValue) :=
  if hashed then do
    match ← gkmSecretFieldsGetCompatHashedUint32 attributes key with
    | some number => pure (some (.number number))
    | none => pure ((gkmSecretFieldsGetCompatHashedString md5 attributes key).map .text)
  else do
    match ← gkmSecretFieldsGetCompatUint32 attributes key with
    | some number => pure (some (.number number))
    | none => pure (some (.text (gkmSecretFieldsGet attributes key)))

/-- The value that is written, once nothing faults. -/
def writtenValue (md5 : Md5) (attributes : Fields) (hashed : Bool) (key : CString) :
    Option FieldValue :=
  (resultOf (fieldValue md5 attributes hashed key)).join

/-- The bytes of a value. -/
def FieldValue.bytes : FieldValue → Bytes
  | .number n => encode 4 1 ++ encode 4 n.toNat
  | .text str => encode 4 0 ++ utf8StringBytes str

/-- The bytes of an attribute. -/
def fieldBytes (name : CString) (value : Option FieldValue) : Bytes :=
  utf8StringBytes (some name) ++ (value.map FieldValue.bytes).getD []

/-- The bytes of the attributes of an item. -/
def attributesBytes (md5 : Md5) (attributes : Fields) (hashed : Bool) : Bytes :=
  encode 4 (gkmSecretFieldsGetNames attributes).length ++
    (gkmSecretFieldsGetNames attributes).flatMap fun name =>
      fieldBytes name (writtenValue md5 attributes hashed name)

theorem wrote_uint32 (b : EggBuffer) (v : Nat) : Wrote b (eggBufferAddUint32 b v).2 (encode 4 v) :=
  (eggBufferAddUint32_writes b v).wrote

theorem wrote_hashedAttribute (h : bufferAddHashedAttribute md5 b attributes key = .ok b') :
    Wrote b b' (fieldBytes key (writtenValue md5 attributes true key)) := by
  have hkey := wrote_utf8String b (some key)
  simp only [bufferAddHashedAttribute] at h
  obtain ⟨number, hn, h⟩ := bind_eq_ok.1 h
  cases number with
  | some number =>
    cases h
    have hv : writtenValue md5 attributes true key = some (.number number) := by
      simp [writtenValue, fieldValue, hn, resultOf]
    rw [hv]
    exact hkey.trans ((wrote_uint32 _ 1).trans (wrote_uint32 _ number.toNat))
  | none =>
    have hv : writtenValue md5 attributes true key =
        (gkmSecretFieldsGetCompatHashedString md5 attributes key).map .text := by
      simp [writtenValue, fieldValue, hn, resultOf]
    rw [hv]
    dsimp only at h
    cases hs : gkmSecretFieldsGetCompatHashedString md5 attributes key with
    | none =>
      rw [hs] at h
      cases h
      exact hkey.trans (Wrote.refl _)
    | some value =>
      rw [hs] at h
      cases h
      exact hkey.trans ((wrote_uint32 _ 0).trans (wrote_utf8String _ value))

theorem wrote_attribute (h : bufferAddAttribute b attributes key = .ok b') :
    Wrote b b' (fieldBytes key (writtenValue md5 attributes false key)) := by
  have hkey := wrote_utf8String b (some key)
  simp only [bufferAddAttribute] at h
  obtain ⟨number, hn, h⟩ := bind_eq_ok.1 h
  cases number with
  | some number =>
    cases h
    have hv : writtenValue md5 attributes false key = some (.number number) := by
      simp [writtenValue, fieldValue, hn, resultOf]
    rw [hv]
    exact hkey.trans ((wrote_uint32 _ 1).trans (wrote_uint32 _ number.toNat))
  | none =>
    cases h
    have hv : writtenValue md5 attributes false key =
        some (.text (gkmSecretFieldsGet attributes key)) := by
      simp [writtenValue, fieldValue, hn, resultOf]
    rw [hv]
    exact hkey.trans ((wrote_uint32 _ 0).trans (wrote_utf8String _ _))

theorem wrote_attributesLoop (h : addAttributesLoop md5 attributes hashed names b = .ok b') :
    Wrote b b' (names.flatMap fun name =>
      fieldBytes name (writtenValue md5 attributes hashed name)) := by
  induction names generalizing b with
  | nil =>
    cases h
    exact Wrote.refl _
  | cons name names ih =>
    rw [addAttributesLoop] at h
    obtain ⟨b₁, h₁, h⟩ := bind_eq_ok.1 h
    rw [flatMap_cons]
    refine Wrote.trans ?_ (ih h)
    cases hashed with
    | true => exact wrote_hashedAttribute h₁
    | false => exact wrote_attribute h₁

theorem wrote_attributes {b : EggBuffer} (h : bufferAddAttributes md5 b attributes hashed = .ok r) :
    Wrote b r.2 (attributesBytes md5 attributes hashed) ∧ r.1 = !eggBufferHasError r.2 := by
  rw [bufferAddAttributes] at h
  obtain ⟨b', h', h⟩ := bind_eq_ok.1 h
  cases h
  exact ⟨(wrote_uint32 b _).trans (wrote_attributesLoop h'), rfl⟩

/-- A value that can be written. -/
def FieldValue.CanWrite : FieldValue → Prop
  | .number _ => True
  | .text str => ∀ s ∈ str, Writable s

/-- What the reader does with an attribute. -/
def addField (hashed : Bool) (attributes : Fields) (name : CString) : FieldValue → Fields
  | .number n =>
    if hashed then gkmSecretFieldsAddCompatHashedUint32 attributes (some name) n
    else gkmSecretFieldsAddCompatUint32 attributes (some name) n
  | .text str =>
    if hashed then gkmSecretFieldsAddCompatHashedString attributes (some name) str
    else gkmSecretFieldsTake attributes (some name) str

theorem attribute_at {off n : Nat} {name : CString} {value : FieldValue}
    (h : HasAt bs off (fieldBytes name (some value))) (hn : Writable name) (hv : value.CanWrite) :
    getAttributesLoop bs hashed (n + 1) off attributes =
      getAttributesLoop bs hashed n (off + (fieldBytes name (some value)).length)
        (addField hashed attributes name value) := by
  have hname := utf8String_at h.left (fun s hs => by cases hs; exact hn)
  have hval := h.right
  cases value with
  | number v =>
    have htype := uint32At_of_hasAt (HasAt.left hval) (by omega)
    have hnum := HasAt.right hval
    rw [length_encode] at hnum
    have hnum := uint32At_of_hasAt hnum v.toNat_lt
    rw [getAttributesLoop, hname]
    simp only [htype, if_neg (by decide : ¬ (1 : Nat) = 0), if_true, hnum, UInt32.ofNat_toNat]
    simp only [addField, fieldBytes, Option.map_some, Option.getD_some, FieldValue.bytes,
      length_append, length_encode, Nat.add_assoc]
  | text str =>
    have htype := uint32At_of_hasAt (HasAt.left hval) (by omega)
    have hstr := HasAt.right hval
    rw [length_encode] at hstr
    have hstr := utf8String_at hstr hv
    rw [getAttributesLoop, hname]
    simp only [htype, if_true, hstr]
    simp only [addField, fieldBytes, Option.map_some, Option.getD_some, FieldValue.bytes,
      length_append, length_encode, Nat.add_assoc]

/-- What the reader does with the attributes of an item. -/
def addFields (hashed : Bool) (value : CString → Option FieldValue) (names : List CString)
    (attributes : Fields) : Fields :=
  names.foldl (fun attributes name => ((value name).map (addField hashed attributes name)).getD
    attributes) attributes

/-- The names and the values that are written for them can be written. -/
def CanWriteAll (value : CString → Option FieldValue) (names : List CString) : Prop :=
  ∀ name ∈ names, Writable name ∧ ∃ v, value name = some v ∧ v.CanWrite

theorem attributesLoop_at {value : CString → Option FieldValue}
    (h : HasAt bs off (names.flatMap fun name => fieldBytes name (value name)))
    (hw : CanWriteAll value names) :
    getAttributesLoop bs hashed names.length off attributes =
      some (addFields hashed value names attributes,
        off + (names.flatMap fun name => fieldBytes name (value name)).length) := by
  induction names generalizing off attributes with
  | nil => rfl
  | cons name names ih =>
    obtain ⟨hn, v, hv, hcan⟩ := hw name mem_cons_self
    rw [flatMap_cons] at h
    have hl := h.left
    have hr := h.right
    rw [hv] at hl hr
    rw [length_cons, attribute_at hl hn hcan, ih hr (forall_mem_cons.1 hw).2]
    simp only [addFields, foldl_cons, hv, Option.map_some, Option.getD_some,
      flatMap_cons, length_append, Nat.add_assoc]

/-- The attributes of an item are read back, wherever they stand. -/
theorem attributes_at (h : HasAt bs off (attributesBytes md5 attributes hashed))
    (hlen : (gkmSecretFieldsGetNames attributes).length < 2 ^ 32)
    (hw : CanWriteAll (writtenValue md5 attributes hashed) (gkmSecretFieldsGetNames attributes)) :
    bufferGetAttributes bs off hashed =
      some (addFields hashed (writtenValue md5 attributes hashed)
          (gkmSecretFieldsGetNames attributes) ∅,
        off + (attributesBytes md5 attributes hashed).length) := by
  have hcount := uint32At_of_hasAt h.left hlen
  have hloop := h.right
  rw [length_encode] at hloop
  rw [bufferGetAttributes, hcount]
  dsimp only
  rw [attributesLoop_at hloop hw]
  simp only [attributesBytes, length_append, length_encode, Nat.add_assoc]

/-! ## Access control lists -/

/-- The bytes of an access control entry. -/
def accessBytes (ac : GkmSecretAccess) : Bytes :=
  encode 4 ac.typesAllowed.toNat ++ (utf8StringBytes ac.displayName ++
    (utf8StringBytes ac.pathname ++ (utf8StringBytes none ++ encode 4 0)))

/-- The bytes of an access control list. -/
def aclBytes (acl : List GkmSecretAccess) : Bytes :=
  encode 4 acl.length ++ acl.flatMap accessBytes

/-- A write that succeeds puts `out` there. -/
def Puts (b : EggBuffer) (r : Bool × EggBuffer) (out : Bytes) : Prop :=
  r.1 = true → Wrote b r.2 out

theorem andThen_fst (h : (Egg.andThen r f).1 = true) : r.1 = true ∧ Egg.andThen r f = f r.2 := by
  unfold Egg.andThen at h ⊢
  cases hr : r.1 with
  | true => exact ⟨rfl, if_pos rfl⟩
  | false => simp [hr] at h

theorem Puts.andThen {b : EggBuffer} {x y : Bytes} (h : Puts b r x) (hf : ∀ b', Puts b' (f b') y) :
    Puts b (Egg.andThen r f) (x ++ y) := by
  intro hok
  obtain ⟨hr, heq⟩ := andThen_fst hok
  rw [heq] at hok ⊢
  exact (h hr).trans (hf r.2 hok)

theorem puts_time (b : EggBuffer) (time : BitVec 64) :
    Puts b (bufferAddTime b time) (timeBytes time) :=
  fun _ => wrote_time b time

theorem puts_utf8String (b : EggBuffer) (str : Option CString) :
    Puts b (bufferAddUtf8String b str) (utf8StringBytes str) :=
  fun _ => wrote_utf8String b str

theorem writable_of_added {b : EggBuffer} {str : Option CString}
    (h : (bufferAddUtf8String b str).1 = true) : ∀ s ∈ str, Writable s := by
  rintro s rfl
  simp only [bufferAddUtf8String, Option.all_some] at h
  split at h
  · rename_i hv
    refine ⟨hv, ?_⟩
    by_contra hle
    have hle' : 0x7fffffff ≤ s.val.length := by omega
    simp [eggBufferAddString, hle'] at h
  · cases h

/-- The strings of an access control entry can be written. -/
def GkmSecretAccess.CanWrite (ac : GkmSecretAccess) : Prop :=
  (∀ s ∈ ac.displayName, Writable s) ∧ ∀ s ∈ ac.pathname, Writable s

theorem puts_aclLoop (acl : List GkmSecretAccess) (b : EggBuffer) :
    Puts b (generateAclLoop acl b) (acl.flatMap accessBytes) := by
  induction acl generalizing b with
  | nil => exact fun _ => Wrote.refl b
  | cons ac acl ih =>
    intro hok
    have hstrings := ((puts_utf8String (eggBufferAddUint32 b ac.typesAllowed.toNat).2
      ac.displayName).andThen fun b => puts_utf8String b ac.pathname).andThen fun b =>
        puts_utf8String b none
    have hrest : Wrote b (generateAclLoop (ac :: acl) b).2 _ :=
      (wrote_uint32 b ac.typesAllowed.toNat).trans
        (hstrings.andThen (fun b h => (wrote_uint32 b 0).trans (ih _ h)) hok)
    simpa [accessBytes, flatMap_cons, append_assoc] using hrest

theorem aclLoop_canWrite {b : EggBuffer} (h : (generateAclLoop acl b).1 = true) : ∀ ac ∈ acl, ac.CanWrite := by
  induction acl generalizing b with
  | nil => exact fun _ hac => by cases hac
  | cons ac acl ih =>
    obtain ⟨h₁, heq⟩ := andThen_fst h
    obtain ⟨h₂, -⟩ := andThen_fst h₁
    obtain ⟨hname, heq₂⟩ := andThen_fst h₂
    rw [heq₂] at h₂
    intro a ha
    rcases mem_cons.1 ha with rfl | ha
    · exact ⟨writable_of_added hname, writable_of_added h₂⟩
    · have hrest := h
      rw [generateAclLoop] at hrest
      rw [heq] at hrest
      exact ih hrest a ha

theorem puts_acl (acl : List GkmSecretAccess) (b : EggBuffer) :
    Puts b (generateAclData b acl) (aclBytes acl) :=
  fun h => (wrote_uint32 b _).trans (puts_aclLoop acl _ h)

theorem access_at {off n : Nat} {ac : GkmSecretAccess} (h : HasAt bs off (accessBytes ac))
    (hw : ac.CanWrite) :
    decodeAclLoop bs (n + 1) off acl =
      decodeAclLoop bs n (off + (accessBytes ac).length) (ac :: acl) := by
  have htypes := uint32At_of_hasAt h.left ac.typesAllowed.toNat_lt
  have h₁ := h.right
  rw [length_encode] at h₁
  have hname := utf8String_at h₁.left hw.1
  have hpath := utf8String_at h₁.right.left hw.2
  have hres := utf8String_at h₁.right.right.left (fun s hs => by cases hs)
  have hlast := uint32At_of_hasAt h₁.right.right.right (by decide)
  rw [decodeAclLoop, htypes]
  simp only [hname, hpath, hres, hlast, UInt32.ofNat_toNat]
  simp only [accessBytes, length_append, length_encode, Nat.add_assoc]

theorem aclLoop_at {acl seen : List GkmSecretAccess} (h : HasAt bs off (acl.flatMap accessBytes))
    (hw : ∀ ac ∈ acl, ac.CanWrite) :
    decodeAclLoop bs acl.length off seen =
      some (seen.reverse ++ acl, off + (acl.flatMap accessBytes).length) := by
  induction acl generalizing off seen with
  | nil => simp [decodeAclLoop]
  | cons ac acl ih =>
    rw [flatMap_cons] at h
    rw [length_cons, access_at h.left (hw ac mem_cons_self),
      ih h.right (forall_mem_cons.1 hw).2]
    simp only [reverse_cons, append_assoc, cons_append, nil_append,
      flatMap_cons, length_append, Nat.add_assoc]

theorem acl_at (h : HasAt bs off (aclBytes acl)) (hlen : acl.length < 2 ^ 32)
    (hw : ∀ ac ∈ acl, ac.CanWrite) :
    decodeAcl bs off = some (acl, off + (aclBytes acl).length) := by
  have hcount := uint32At_of_hasAt h.left hlen
  have hloop := h.right
  rw [length_encode] at hloop
  rw [decodeAcl, hcount]
  dsimp only
  rw [aclLoop_at hloop hw]
  simp only [aclBytes, reverse_nil, nil_append, length_append, length_encode, Nat.add_assoc]

/-! ## Items -/

/-- The four reserved words. -/
def reservedBytes : Bytes :=
  encode 4 0 ++ (encode 4 0 ++ (encode 4 0 ++ encode 4 0))

theorem wrote_reserved (b : EggBuffer) : Wrote b (addReserved b) reservedBytes :=
  (wrote_uint32 b 0).trans ((wrote_uint32 _ 0).trans ((wrote_uint32 _ 0).trans (wrote_uint32 _ 0)))

theorem reserved_at (h : HasAt bs off reservedBytes) :
    skipReserved bs off = some (off + reservedBytes.length) := by
  have h₁ := uint32At_of_hasAt h.left (by decide)
  have h₂ := uint32At_of_hasAt h.right.left (by decide)
  have h₃ := uint32At_of_hasAt h.right.right.left (by decide)
  have h₄ := uint32At_of_hasAt h.right.right.right (by decide)
  simp only [length_encode] at h₂ h₃ h₄
  simp only [skipReserved, h₁, h₂, h₃, h₄, Option.map_some, reservedBytes, length_append,
    length_encode, Nat.add_assoc]

theorem puts_reserved (b : EggBuffer) : Puts b (true, addReserved b) reservedBytes :=
  fun _ => wrote_reserved b

/-- The bytes of an item before its attributes. -/
def itemDataBytes (item : GkmSecretItem) (secret : Option Bytes) : Bytes :=
  utf8StringBytes item.label ++ (byteArrayBytes secret ++ (timeBytes item.created ++
    (timeBytes item.modified ++ (utf8StringBytes none ++ reservedBytes))))

/-- The bytes of an item in the encrypted part. -/
def itemBytes (md5 : Md5) (item : GkmSecretItem) (secret : Option Bytes) : Bytes :=
  itemDataBytes item secret ++ (attributesBytes md5 item.fields false ++ aclBytes item.compatAcl)

theorem puts_itemData (b : EggBuffer) (item : GkmSecretItem) (secret : Option GkmSecret) :
    Puts b (generateItemData b item secret) (itemDataBytes item (secret.bind (·.memory))) := by
  intro hok
  have hlabel := wrote_utf8String b item.label
  have hsecret := (eggBufferAddByteArray_writes (bufferAddUtf8String b item.label).2
    (secret.bind (·.memory))).wrote
  have hrest := ((puts_time _ item.created).andThen fun b => puts_time b item.modified).andThen
    (fun b => (puts_utf8String b none).andThen fun b => puts_reserved b) hok
  have h : Wrote b (generateItemData b item secret).2 _ := hlabel.trans (hsecret.trans hrest)
  simpa [itemDataBytes, append_assoc] using h

/-- The secret of an item, as it is written. -/
def itemSecret (data : GkmSecretData) (identifier : CString) : Option Bytes :=
  (gkmSecretDataGetSecret data identifier).bind (·.memory)

/-- The bytes of the encrypted part. -/
def encryptedBytes (md5 : Md5) (data : GkmSecretData) (items : List (CString × GkmSecretItem)) :
    Bytes :=
  items.flatMap fun e => itemBytes md5 e.2 (itemSecret data e.1)

theorem wrote_encryptedLoop {data : GkmSecretData}
    (h : generateEncryptedLoop md5 data items b = .ok (true, b')) :
    Wrote b b' (encryptedBytes md5 data items) ∧
      ∀ e ∈ items, (∀ ac ∈ e.2.compatAcl, ac.CanWrite) ∧
        ∃ b₀ r, bufferAddAttributes md5 b₀ e.2.fields false = .ok r := by
  induction items generalizing b with
  | nil =>
    cases h
    exact ⟨Wrote.refl _, fun _ he => by cases he⟩
  | cons e items ih =>
    obtain ⟨identifier, item⟩ := e
    rw [generateEncryptedLoop] at h
    split at h
    · cases h
    · cases hd : generateItemData b item (gkmSecretDataGetSecret data identifier) with
      | mk ok b₁ =>
        rw [hd] at h
        cases ok with
        | false => cases h
        | true =>
          obtain ⟨r, ha, h⟩ := bind_eq_ok.1 h
          obtain ⟨ok, b₂⟩ := r
          cases ok with
          | false => cases h
          | true =>
            dsimp only at h
            cases hacl : generateAclData b₂ item.compatAcl with
            | mk ok b₃ =>
              rw [hacl] at h
              cases ok with
              | false => cases h
              | true =>
                obtain ⟨hrest, hcan⟩ := ih h
                have h₁ := puts_itemData b item
                  (gkmSecretDataGetSecret data identifier) (by rw [hd])
                rw [hd] at h₁
                have h₃ := puts_acl item.compatAcl b₂ (by rw [hacl])
                rw [hacl] at h₃
                have hall := (h₁.trans ((wrote_attributes ha).1.trans h₃)).trans hrest
                refine ⟨hall, fun e he => ?_⟩
                rcases mem_cons.1 he with rfl | he
                · have hok : (generateAclData b₂ item.compatAcl).1 = true := by
                    rw [hacl]
                  exact ⟨aclLoop_canWrite hok, _, _, ha⟩
                · exact hcan e he

/-- The bytes of an item in the table of hashed items; an item whose identifier is not a number has
none. -/
def hashedItemBytes (md5 : Md5) (e : CString × GkmSecretItem) : Bytes :=
  match convertToInteger e.1 with
  | none => []
  | some id =>
    encode 4 id.toNat ++ (encode 4 (gkmSecretCompatParseItemType e.2.schema) ++
      attributesBytes md5 e.2.fields true)

/-- The bytes of the table of hashed items. -/
def hashedItemsBytes (md5 : Md5) (items : List (CString × GkmSecretItem)) : Bytes :=
  encode 4 items.length ++ items.flatMap (hashedItemBytes md5)

theorem wrote_hashedLoop (h : generateHashedLoop md5 items b = .ok b') :
    Wrote b b' (items.flatMap (hashedItemBytes md5)) ∧
      ∀ e ∈ items, (convertToInteger e.1).isSome →
        ∃ b₀ r, bufferAddAttributes md5 b₀ e.2.fields true = .ok r := by
  induction items generalizing b with
  | nil =>
    cases h
    exact ⟨Wrote.refl _, fun _ he => by cases he⟩
  | cons e items ih =>
    obtain ⟨identifier, item⟩ := e
    rw [generateHashedLoop] at h
    cases hid : convertToInteger identifier with
    | none =>
      rw [hid] at h
      obtain ⟨hrest, hok⟩ := ih h
      refine ⟨?_, fun e he hs => ?_⟩
      · have hnil : hashedItemBytes md5 (identifier, item) = [] := by simp [hashedItemBytes, hid]
        rw [flatMap_cons, hnil]
        exact hrest
      · rcases mem_cons.1 he with rfl | he
        · rw [hid] at hs
          cases hs
        · exact hok e he hs
    | some id =>
      rw [hid] at h
      obtain ⟨r, ha, h⟩ := bind_eq_ok.1 h
      obtain ⟨hrest, hok⟩ := ih h
      have hbytes : hashedItemBytes md5 (identifier, item) =
          encode 4 id.toNat ++
            (encode 4 (gkmSecretCompatParseItemType item.schema) ++
              attributesBytes md5 item.fields true) := by simp [hashedItemBytes, hid]
      refine ⟨?_, fun e he hs => ?_⟩
      · rw [flatMap_cons, hbytes]
        exact ((wrote_uint32 b _).trans ((wrote_uint32 _ _).trans (wrote_attributes ha).1)).trans
          hrest
      · rcases mem_cons.1 he with rfl | he
        · exact ⟨_, _, ha⟩
        · exact hok e he hs

/-! ## The file -/

/-- The bytes of the header. -/
def headerBytes (collection : GkmSecretCollection) (nonce : Nonce) : Bytes :=
  utf8StringBytes collection.label ++ (timeBytes collection.modified ++
    (timeBytes collection.created ++ (encode 4 (lockFlags collection).1 ++
      (encode 4 (lockFlags collection).2.toNat ++
        (encode 4 nonce.hashIterations ++ (nonce.salt ++ reservedBytes))))))

/-- What stands before the header: the magic bytes and the versions. -/
def magicBytes : Bytes := keyringFileHeader ++ [0, 0, 0, 0]

theorem wrote_header (b : EggBuffer) (collection : GkmSecretCollection) (nonce : Nonce) :
    Wrote b (generateHeader b collection nonce) (magicBytes ++ headerBytes collection nonce) := by
  have hmagic := (eggBufferAppend_writes b keyringFileHeader).wrote.trans
    ((eggBufferAddByte_writes _ 0).wrote.trans ((eggBufferAddByte_writes _ 0).wrote.trans
      ((eggBufferAddByte_writes _ 0).wrote.trans (eggBufferAddByte_writes _ 0).wrote)))
  exact hmagic.trans ((wrote_utf8String _ _).trans ((wrote_time _ _).trans ((wrote_time _ _).trans
    ((wrote_uint32 _ _).trans ((wrote_uint32 _ _).trans ((wrote_uint32 _ _).trans
      ((eggBufferAppend_writes _ _).wrote.trans (wrote_reserved _))))))))

/-! ## A buffer keeps its allocator -/

@[simp] theorem eggBufferAppend_allocator (b : EggBuffer) (val : Bytes) :
    (eggBufferAppend b val).2.allocator = b.allocator := by
  unfold eggBufferAppend Egg.andThen eggBufferReserve
  by_cases hlt : b.len + val.length < b.allocatedLen
  · simp [hlt]
  · cases ha : b.allocator with
    | none => simp [hlt, ha, EggBuffer.fail]
    | some alloc =>
      by_cases hg : alloc b.attempts (newlen b.allocatedLen (b.len + val.length)) = true
      · simp [hlt, hg]
      · simp [hlt, hg]

@[simp] theorem eggBufferAddUint32_allocator (b : EggBuffer) (v : Nat) :
    (eggBufferAddUint32 b v).2.allocator = b.allocator :=
  eggBufferAppend_allocator b _

@[simp] theorem eggBufferAddByte_allocator (b : EggBuffer) (v : UInt8) :
    (eggBufferAddByte b v).2.allocator = b.allocator :=
  eggBufferAppend_allocator b _

theorem andThen_allocator (h : (f r.2).2.allocator = r.2.allocator) :
    (Egg.andThen r f).2.allocator = r.2.allocator := by
  unfold Egg.andThen
  split
  · exact h
  · rfl

@[simp] theorem bufferAddTime_allocator (b : EggBuffer) (time : BitVec 64) :
    (bufferAddTime b time).2.allocator = b.allocator := by
  rw [bufferAddTime, andThen_allocator (eggBufferAddUint32_allocator _ _),
    eggBufferAddUint32_allocator]

@[simp] theorem bufferAddUtf8String_allocator (b : EggBuffer) (str : Option CString) :
    (bufferAddUtf8String b str).2.allocator = b.allocator := by
  unfold bufferAddUtf8String
  split
  · cases str with
    | none => exact eggBufferAddUint32_allocator b _
    | some s =>
      simp only [Option.map_some, eggBufferAddString]
      split
      · rfl
      · rw [andThen_allocator (eggBufferAppend_allocator _ _), eggBufferAddUint32_allocator]
  · rfl

theorem bufferAddHashedAttribute_allocator (h : bufferAddHashedAttribute md5 b attributes key = .ok b') :
    b'.allocator = b.allocator := by
  simp only [bufferAddHashedAttribute] at h
  obtain ⟨number, -, h⟩ := bind_eq_ok.1 h
  cases number with
  | some number =>
    cases h
    simp
  | none =>
    dsimp only at h
    split at h
    · cases h
      simp
    · cases h
      simp

theorem addAttributesLoop_allocator (h : addAttributesLoop md5 attributes true names b = .ok b') :
    b'.allocator = b.allocator := by
  induction names generalizing b with
  | nil =>
    cases h
    rfl
  | cons name names ih =>
    rw [addAttributesLoop] at h
    obtain ⟨b₁, h₁, h⟩ := bind_eq_ok.1 h
    exact (ih h).trans (bufferAddHashedAttribute_allocator h₁)

theorem generateHashedLoop_allocator (h : generateHashedLoop md5 items b = .ok b') :
    b'.allocator = b.allocator := by
  induction items generalizing b with
  | nil =>
    cases h
    rfl
  | cons e items ih =>
    obtain ⟨identifier, item⟩ := e
    rw [generateHashedLoop] at h
    split at h
    · exact ih h
    · obtain ⟨r, ha, h⟩ := bind_eq_ok.1 h
      rw [bufferAddAttributes] at ha
      obtain ⟨b₁, h₁, ha⟩ := bind_eq_ok.1 ha
      cases ha
      refine (ih h).trans ((addAttributesLoop_allocator h₁).trans ?_)
      simp

theorem generateHeader_allocator (b : EggBuffer) (collection : GkmSecretCollection)
    (nonce : Nonce) : (generateHeader b collection nonce).allocator = b.allocator := by
  simp [generateHeader, addReserved]

/-! ## The whole file -/

/-- The items of a collection, in the order in which they are written. -/
abbrev writtenItems (collection : GkmSecretCollection) : List (CString × GkmSecretItem) :=
  gkmSecretCollectionGetItems collection

/-- The encrypted part without its digest. -/
def bodyBytes (md5 : Md5) (collection : GkmSecretCollection) (sdata : GkmSecretData)
    (padding : Nat) : Bytes :=
  encryptedBytes md5 sdata (writtenItems collection) ++ replicate padding 0

/-- What a file is that was written for a collection. -/
structure Written (g : Gcrypt) (collection : GkmSecretCollection) (sdata : GkmSecretData)
    (nonce : Nonce) (data : Bytes) (master : GkmSecret) (cipher : Bytes × Bytes)
    (padding : Nat) (encrypted : Bytes) : Prop where
  master_eq : sdata.master = some master
  cipher_eq : g.symkeyGenerateSimple master.memory nonce.salt nonce.hashIterations = some cipher
  padding_le : padding ≤ 16
  blocks : (16 + (bodyBytes g.md5 collection sdata padding).length) % 16 = 0
  encrypt_eq : g.cipherEncrypt cipher (g.md5.hash (bodyBytes g.md5 collection sdata padding) ++
    bodyBytes g.md5 collection sdata padding) = some encrypted
  data_eq : data = magicBytes ++ (headerBytes collection nonce ++
    (hashedItemsBytes g.md5 (writtenItems collection) ++ (encode 4 encrypted.length ++ encrypted)))
  acls : ∀ e ∈ writtenItems collection, ∀ ac ∈ e.2.compatAcl, ac.CanWrite
  full : ∀ e ∈ writtenItems collection, ∃ b r, bufferAddAttributes g.md5 b e.2.fields false = .ok r
  hashed : ∀ e ∈ writtenItems collection, (convertToInteger e.1).isSome →
    ∃ b r, bufferAddAttributes g.md5 b e.2.fields true = .ok r

theorem wrote_padding (fuel : Nat) (b : EggBuffer) :
    ∃ k ≤ fuel, Wrote b (padToBlock fuel b) (replicate k 0) := by
  induction fuel generalizing b with
  | zero => exact ⟨0, Nat.le_refl _, Wrote.refl b⟩
  | succ fuel ih =>
    rw [padToBlock]
    split
    · exact ⟨0, Nat.zero_le _, Wrote.refl b⟩
    · obtain ⟨k, hk, hw⟩ := ih (eggBufferAddByte b 0).2
      exact ⟨k + 1, Nat.succ_le_succ hk, (eggBufferAddByte_writes b 0).wrote.trans hw⟩

theorem initBuffer_buf (reserve : Nat) (allocator : EggBufferAllocator) :
    (initBuffer reserve allocator).buf = [] := by
  unfold initBuffer
  split <;> rfl

/-- The digest, the items and the padding, encrypted. -/
theorem encrypted_eq {g : Gcrypt} {sdata : GkmSecretData} {alloc : EggBufferAllocator}
    {toEncrypt digested crypted : EggBuffer} {master : GkmSecret}
    (he : generateEncryptedData g.md5 (eggBufferAppend (initBuffer 4096 alloc) nonce.digest).2
      collection sdata = .ok (true, toEncrypt))
    (hdig : putDigest g.md5 (padToBlock 16 toEncrypt) = .ok digested)
    (henc : encryptBuffer g digested master nonce = .ok (some crypted))
    (herr : eggBufferHasError crypted = false) :
    ∃ cipher padding,
      g.symkeyGenerateSimple master.memory nonce.salt nonce.hashIterations = some cipher ∧
        padding ≤ 16 ∧ (16 + (bodyBytes g.md5 collection sdata padding).length) % 16 = 0 ∧
        g.cipherEncrypt cipher (g.md5.hash (bodyBytes g.md5 collection sdata padding) ++
          bodyBytes g.md5 collection sdata padding) = some crypted.buf := by
  rw [encryptBuffer] at henc
  obtain ⟨_, hassert, henc⟩ := bind_eq_ok.1 henc
  have hblock : digested.len % 16 = 0 := by
    by_contra hne
    simp [cAssert, hne] at hassert
  cases hkey : g.symkeyGenerateSimple master.memory nonce.salt nonce.hashIterations with
  | none =>
    rw [hkey] at henc
    cases henc
  | some cipher =>
    rw [hkey] at henc
    obtain ⟨out, hout, hcr⟩ := Option.map_eq_some_iff.1 (Except.ok.inj henc)
    subst hcr
    rw [putDigest] at hdig
    split at hdig
    · cases hdig
    · cases hdig
      -- no byte was refused, as the failures are counted to the end
      have hnoerr : eggBufferHasError (padToBlock 16 toEncrypt) = false := herr
      obtain ⟨k, hk, hpad⟩ := wrote_padding 16 toEncrypt
      have hbody := ((eggBufferAppend_writes (initBuffer 4096 alloc) nonce.digest).wrote.trans
        ((wrote_encryptedLoop he).1.trans hpad)).buf_of_noError hnoerr
      rw [initBuffer_buf, nil_append] at hbody
      have hdrop : (padToBlock 16 toEncrypt).buf.drop 16 = bodyBytes g.md5 collection sdata k := by
        rw [hbody, ← nonce.digest_length, drop_left]
        rfl
      rw [hdrop] at hout hblock
      refine ⟨cipher, k, rfl, hk, ?_, hout⟩
      rw [EggBuffer.len, length_append, g.md5.length_hash] at hblock
      exact hblock

/-- The buffer of the file grows whenever it has to, so that the encrypted part is appended too. -/
theorem fileBytes_eq {buffer : EggBuffer} {n : Nat} {bytes : Bytes}
    (hb : generateHashedItems md5 collection
      (generateHeader (initBuffer 256 fun _ _ => true) collection nonce) = .ok buffer)
    (herr : eggBufferHasError buffer = false) :
    (eggBufferAppend (eggBufferAddUint32 buffer n).2 bytes).2.buf =
      magicBytes ++ (headerBytes collection nonce ++
        (hashedItemsBytes md5 (writtenItems collection) ++ (encode 4 n ++ bytes))) := by
  have hbuf := ((wrote_header (initBuffer 256 fun _ _ => true) collection nonce).trans
    ((wrote_uint32 _ (writtenItems collection).length).trans
      (wrote_hashedLoop hb).1)).buf_of_noError herr
  have halloc : buffer.allocator = some fun _ _ => true := by
    rw [generateHashedLoop_allocator hb, eggBufferAddUint32_allocator, generateHeader_allocator]
    rfl
  have hplenty : buffer.Plenty := ⟨_, halloc, fun _ _ => rfl⟩
  have h₁ := appended_addUint32 hplenty n
  have h₂ := (eggBufferAppend_granted h₁.plenty bytes).appended (eggBufferAppend_writes _ bytes)
  rw [h₂.buf_eq, h₁.buf_eq, hbuf, initBuffer_buf]
  simp only [hashedItemsBytes, nil_append, append_assoc]

/-- A file that was written is made of its parts. -/
theorem gkmSecretBinaryWrite_written {g : Gcrypt} {sdata : GkmSecretData} {alloc : EggBufferAllocator}
    {data : Bytes} (h : gkmSecretBinaryWrite g collection sdata nonce alloc = .ok (.success, data)) :
    ∃ master cipher padding encrypted,
      Written g collection sdata nonce data master cipher padding encrypted := by
  rw [gkmSecretBinaryWrite] at h
  obtain ⟨buffer, hb, h⟩ := bind_eq_ok.1 h
  obtain ⟨r, he, h⟩ := bind_eq_ok.1 h
  obtain ⟨ok, toEncrypt⟩ := r
  cases ok with
  | false => cases h
  | true =>
    obtain ⟨digested, hdig, h⟩ := bind_eq_ok.1 h
    cases hm : sdata.master with
    | none =>
      rw [hm] at h
      cases h
    | some master =>
      rw [hm] at h
      obtain ⟨out, henc, h⟩ := bind_eq_ok.1 h
      cases out with
      | none => cases h
      | some crypted =>
        dsimp only at h
        split at h
        · cases h
        · rename_i herr
          rw [not_or, Bool.not_eq_true, Bool.not_eq_true] at herr
          cases h
          obtain ⟨cipher, padding, hc, hp, hbl, hout⟩ := encrypted_eq he hdig henc herr.1
          have hloop := (wrote_encryptedLoop he).2
          exact ⟨master, cipher, padding, crypted.buf, hm, hc, hp, hbl, hout,
            fileBytes_eq hb herr.2, fun e hmem => (hloop e hmem).1,
            fun e hmem => (hloop e hmem).2, (wrote_hashedLoop hb).2⟩

end MateKeyring.Secret
