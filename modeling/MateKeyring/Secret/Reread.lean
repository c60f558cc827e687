import MateKeyring.Secret.Written

/-!
# Reading a keyring file back

What `gkm_secret_binary_read` makes of a file that `gkm_secret_binary_write` wrote, when the strings of
the collection are UTF-8, nothing is too large and every identifier is a number: it succeeds, and the
header and the items it has read are known (`gkmSecretBinaryRead_written`).
-/

set_option autoImplicit false

namespace MateKeyring.Secret

open Lib Egg BigEndian List

variable {collection : GkmSecretCollection} {cipher : Bytes × Bytes}
  {sdata : GkmSecretData} {encrypted : Bytes} {master : GkmSecret} {data : Bytes}
  {nonce : Nonce} {padding : Nat} {g : Gcrypt} {off : Nat} {md5 : Md5} {bs : Bytes}

/-! ## What fits into a file -/

/-- Fields whose names and values are UTF-8 and not too long. -/
structure FieldsFit (fields : Fields) : Prop where
  count : (gkmSecretFieldsGetNames fields).length < 2 ^ 32
  names : ∀ name ∈ gkmSecretFieldsGetNames fields, Writable name
  values : ∀ name value, fields.lookup name = some (some value) → Writable value

/-- An item whose parts fit into the file. -/
structure ItemFits (item : GkmSecretItem) (secret : Option Bytes) : Prop where
  label : ∀ s ∈ item.label, Writable s
  secret : ∀ d, secret = some d → d.length < 0x7fffffff
  fields : FieldsFit item.fields
  acl : item.compatAcl.length < 2 ^ 32

/-- A collection that fits into the file: every number of the format has room for its value. -/
structure CollectionFits (md5 : Md5) (collection : GkmSecretCollection) (sdata : GkmSecretData) :
    Prop where
  label : ∀ s ∈ collection.label, Writable s
  count : (writtenItems collection).length + 1 < 2 ^ 32
  items : ∀ e ∈ writtenItems collection, ItemFits e.2 (itemSecret sdata e.1)
  size : (encryptedBytes md5 sdata (writtenItems collection)).length + 32 < 2 ^ 32

theorem addAttributesLoop_ok {attributes : Fields} {hashed : Bool} {names : List CString} {b b' : EggBuffer}
    (h : addAttributesLoop md5 attributes hashed names b = .ok b') :
    ∀ name ∈ names, ∃ value, fieldValue md5 attributes hashed name = .ok value := by
  induction names generalizing b with
  | nil => exact fun _ hn => by cases hn
  | cons n names ih =>
    rw [addAttributesLoop] at h
    obtain ⟨b₁, h₁, h⟩ := bind_eq_ok.1 h
    intro name hname
    rcases mem_cons.1 hname with rfl | hname
    · cases hashed with
      | true =>
        obtain ⟨number, hn, -⟩ := bind_eq_ok.1 h₁
        cases number with
        | some v => exact ⟨some (.number v), by simp [fieldValue, hn]⟩
        | none => exact ⟨_, by simp [fieldValue, hn]; rfl⟩
      | false =>
        obtain ⟨number, hn, -⟩ := bind_eq_ok.1 h₁
        cases number with
        | some v => exact ⟨some (.number v), by simp [fieldValue, hn]⟩
        | none => exact ⟨_, by simp [fieldValue, hn]; rfl⟩
    · exact ih h name hname

/-- The digest of a string is text. -/
theorem writable_of_compatHash {value : Option CString} :
    ∀ s ∈ compatHashValueAsString md5 value, Writable s := by
  intro s hs
  obtain ⟨v, -, rfl⟩ := Option.map_eq_some_iff.1 hs
  have hlen := length_hexEncodeLoop hexcLower 0 (md5.hash v.val) 0
  rw [md5.length_hash] at hlen
  refine ⟨utf8Validate_eggHexEncodeFull _ _ _, ?_⟩
  change (hexEncodeLoop hexcLower 0 0 0 (md5.hash v.val)).length < 0x7fffffff
  rw [hlen]
  decide

/-- Whatever is written for a name of a table that fits can be written. -/
theorem FieldsFit.canWriteAll {fields : Fields} (h : FieldsFit fields) {hashed : Bool}
    (hok : ∃ b r, bufferAddAttributes md5 b fields hashed = .ok r) :
    CanWriteAll (writtenValue md5 fields hashed) (gkmSecretFieldsGetNames fields) := by
  obtain ⟨b, r, hr⟩ := hok
  rw [bufferAddAttributes] at hr
  obtain ⟨b', hloop, -⟩ := bind_eq_ok.1 hr
  intro name hname
  refine ⟨h.names name hname, ?_⟩
  obtain ⟨value, hv⟩ := addAttributesLoop_ok hloop name hname
  obtain ⟨hc, hmem⟩ := mem_gkmSecretFieldsGetNames.1 hname
  have hw : writtenValue md5 fields hashed name = value := by simp [writtenValue, hv, resultOf]
  rw [hw]
  cases hashed with
  | false =>
    obtain ⟨number, hn, hpure⟩ := bind_eq_ok.1 hv
    cases number with
    | some v => exact ⟨.number v, (Except.ok.inj hpure).symm, trivial⟩
    | none =>
      refine ⟨.text (gkmSecretFieldsGet fields name), (Except.ok.inj hpure).symm, ?_⟩
      intro s hs
      simp only [gkmSecretFieldsGet, hc, Bool.false_eq_true, if_false, Option.mem_def] at hs
      exact h.values name s (Option.join_eq_some_iff.1 hs)
  | true =>
    obtain ⟨number, hn, hpure⟩ := bind_eq_ok.1 hv
    cases number with
    | some v => exact ⟨.number v, (Except.ok.inj hpure).symm, trivial⟩
    | none =>
      have hval := (Except.ok.inj hpure).symm
      simp only [gkmSecretFieldsGetCompatHashedString, hc, Bool.false_eq_true, if_false] at hval
      cases hl : fields.lookup name with
      | some v =>
        rw [hl] at hval
        exact ⟨_, hval, writable_of_compatHash⟩
      | none =>
        rw [hl] at hval
        have hin : makeCompatHashedName name ∈ fields := by
          rcases hmem with hmem | hmem
          · exact absurd hmem (AList.lookup_eq_none.1 hl)
          · exact hmem
        obtain ⟨v, hhl⟩ := Option.isSome_iff_exists.1 (AList.lookup_isSome.2 hin)
        rw [hhl] at hval
        refine ⟨.text v, hval, ?_⟩
        rintro s rfl
        exact h.values _ s hhl

/-! ## The items -/

/-- The fields that are read from the attributes written for `fields`. -/
def rereadFields (md5 : Md5) (hashed : Bool) (fields : Fields) : Fields :=
  addFields hashed (writtenValue md5 fields hashed) (gkmSecretFieldsGetNames fields) ∅

/-- What is read of an item from the table of hashed items. -/
def hashedInfo (md5 : Md5) (e : CString × GkmSecretItem) : ItemInfo :=
  ItemInfo.hashed ((convertToInteger e.1).getD 0).toNat (gkmSecretCompatParseItemType e.2.schema)
    (rereadFields md5 true e.2.fields)

/-- What is read of an item from both parts of the file. -/
def fullInfo (md5 : Md5) (sdata : GkmSecretData) (e : CString × GkmSecretItem) : ItemInfo :=
  { hashedInfo md5 e with
    displayName := e.2.label
    secret := itemSecret sdata e.1
    ctime := e.2.created
    mtime := e.2.modified
    attributes := rereadFields md5 false e.2.fields
    acl := e.2.compatAcl }

theorem gkmSecretCompatParseItemType_lt (value : Option CString) :
    gkmSecretCompatParseItemType value < 2 ^ 32 := by
  cases value with
  | none => decide
  | some v =>
    have hall : ∀ t ∈ itemTypes, t.1 < 2 ^ 32 := by decide
    rw [gkmSecretCompatParseItemType]
    cases hf : itemTypes.find? (fun t => t.2 == v) with
    | none => decide
    | some t => exact hall t (mem_of_find?_eq_some hf)

/-- An item that can be read from the table of hashed items. -/
structure HashedReadable (md5 : Md5) (e : CString × GkmSecretItem) : Prop where
  number : (convertToInteger e.1).isSome
  count : (gkmSecretFieldsGetNames e.2.fields).length < 2 ^ 32
  fields : CanWriteAll (writtenValue md5 e.2.fields true) (gkmSecretFieldsGetNames e.2.fields)

theorem hashedItems_at {items : List (CString × GkmSecretItem)}
    (h : HasAt bs off (items.flatMap (hashedItemBytes md5)))
    (hr : ∀ e ∈ items, HashedReadable md5 e) :
    readHashedItemInfo bs items.length off =
      some (items.map (hashedInfo md5), off + (items.flatMap (hashedItemBytes md5)).length) := by
  induction items generalizing off with
  | nil => rfl
  | cons e items ih =>
    have he := hr e mem_cons_self
    obtain ⟨id, hid⟩ := Option.isSome_iff_exists.1 he.number
    have hbytes : hashedItemBytes md5 e = encode 4 id.toNat ++
        (encode 4 (gkmSecretCompatParseItemType e.2.schema) ++
          attributesBytes md5 e.2.fields true) := by simp [hashedItemBytes, hid]
    rw [flatMap_cons] at h
    have hone := h.left
    have hrest := h.right
    rw [hbytes] at hone
    have h₁ := uint32At_of_hasAt hone.left id.toNat_lt
    have hone := hone.right
    rw [length_encode] at hone
    have h₂ := uint32At_of_hasAt hone.left (gkmSecretCompatParseItemType_lt e.2.schema)
    have hone := hone.right
    rw [length_encode] at hone
    have h₃ := attributes_at hone he.count he.fields
    have hoff : off + 4 + 4 + (attributesBytes md5 e.2.fields true).length =
        off + (hashedItemBytes md5 e).length := by
      rw [hbytes]
      simp only [length_append, length_encode, Nat.add_assoc]
    rw [length_cons, readHashedItemInfo]
    simp only [h₁, h₂, h₃, hoff, ih hrest (forall_mem_cons.1 hr).2]
    simp only [map_cons, hashedInfo, hid, Option.getD_some, rereadFields, flatMap_cons,
      length_append, Nat.add_assoc]

theorem itemData_at (info : ItemInfo) {item : GkmSecretItem} {secret : Option Bytes}
    (h : HasAt bs off (itemDataBytes item secret)) (hl : ∀ s ∈ item.label, Writable s)
    (hs : ∀ d, secret = some d → d.length < 0x7fffffff) :
    readItemData bs off info =
      some ({ info with displayName := item.label, secret := secret, ctime := item.created,
                        mtime := item.modified }, off + (itemDataBytes item secret).length) := by
  have h₁ := utf8String_at h.left hl
  have h₂ := byteArrayAt_of_hasAt h.right.left hs
  have h₃ := time_at h.right.right.left
  have h₄ := time_at h.right.right.right.left
  have h₅ := utf8String_at h.right.right.right.right.left (fun s hs => by cases hs)
  have h₆ := reserved_at h.right.right.right.right.right
  have htime : ∀ t : BitVec 64, (timeBytes t).length = 8 := fun t => by simp [timeBytes]
  rw [htime] at h₄
  rw [htime, htime] at h₅ h₆
  simp only [readItemData, h₁, h₂, h₃, h₄, h₅, h₆, Option.map_some]
  simp only [itemDataBytes, length_append, htime, Nat.add_assoc]

/-- An item that can be read from the encrypted part. -/
structure FullReadable (md5 : Md5) (sdata : GkmSecretData) (e : CString × GkmSecretItem) : Prop where
  fits : ItemFits e.2 (itemSecret sdata e.1)
  fields : CanWriteAll (writtenValue md5 e.2.fields false) (gkmSecretFieldsGetNames e.2.fields)
  acl : ∀ ac ∈ e.2.compatAcl, ac.CanWrite

theorem encrypted_at {items : List (CString × GkmSecretItem)}
    (h : HasAt bs off (encryptedBytes md5 sdata items))
    (hr : ∀ e ∈ items, FullReadable md5 sdata e) :
    readFullItemInfo bs (items.map (hashedInfo md5)) off =
      .ok (some (items.map (fullInfo md5 sdata))) := by
  induction items generalizing off with
  | nil => rfl
  | cons e items ih =>
    have he := hr e mem_cons_self
    rw [encryptedBytes, flatMap_cons] at h
    have hone := h.left
    have hrest := h.right
    have h₁ := itemData_at (hashedInfo md5 e) hone.left he.fits.label he.fits.secret
    have h₂ := attributes_at hone.right.left he.fits.fields.count he.fields
    have h₃ := acl_at hone.right.right he.fits.acl he.acl
    have hoff : off + (itemDataBytes e.2 (itemSecret sdata e.1)).length +
        (attributesBytes md5 e.2.fields false).length + (aclBytes e.2.compatAcl).length =
          off + (itemBytes md5 e.2 (itemSecret sdata e.1)).length := by
      simp only [itemBytes, length_append, Nat.add_assoc]
    rw [map_cons, readFullItemInfo]
    simp only [h₁, h₂, h₃, hoff, ih hrest (forall_mem_cons.1 hr).2, ok_bind,
      Option.map_some, pure_eq_ok]
    rfl

/-! ## The header -/

/-- The header that is read back. The times change places. -/
def rereadHeader (collection : GkmSecretCollection) (nonce : Nonce) : Header :=
  { displayName := collection.label
    ctime := collection.modified
    mtime := collection.created
    flags := (lockFlags collection).1
    lockTimeout := (lockFlags collection).2
    hashIterations := nonce.hashIterations
    salt := nonce.salt
    numItems := (writtenItems collection).length }

theorem lockFlags_lt (collection : GkmSecretCollection) : (lockFlags collection).1 < 2 ^ 32 := by
  unfold lockFlags lockOnIdleFlag lockAfterFlag
  dsimp only
  split
  · show 1 < 2 ^ 32
    decide
  · split
    · show 2 < 2 ^ 32
      decide
    · show 0 < 2 ^ 32
      decide

theorem bytes_at {bs out : Bytes} (h : HasAt bs off out) :
    bufferGetBytes bs off out.length = some (out, off + out.length) := by
  obtain ⟨hle, htake⟩ := sliceAt_eq_some_iff.1 h.sliceAt
  rw [bufferGetBytes, if_neg (by omega), htake]

theorem header_at {bs rest : Bytes} (h : HasAt bs off (headerBytes collection nonce ++
      (encode 4 (writtenItems collection).length ++ rest)))
    (hl : ∀ s ∈ collection.label, Writable s) (hcount : (writtenItems collection).length < 2 ^ 32) :
    readHeader bs off = some (rereadHeader collection nonce,
      off + (headerBytes collection nonce).length + 4) := by
  have hh := h.left
  have h₁ := utf8String_at hh.left hl
  have h₂ := time_at hh.right.left
  have h₃ := time_at hh.right.right.left
  have h₄ := uint32At_of_hasAt hh.right.right.right.left (lockFlags_lt collection)
  have h₅ := uint32At_of_hasAt hh.right.right.right.right.left (lockFlags collection).2.isLt
  have h₆ := uint32At_of_hasAt hh.right.right.right.right.right.left
    (Nat.lt_trans nonce.iterations_lt (by decide))
  have h₇ := bytes_at hh.right.right.right.right.right.right.left
  have h₈ := reserved_at hh.right.right.right.right.right.right.right
  have h₉ := uint32At_of_hasAt h.right.left hcount
  have htime : ∀ t : BitVec 64, (timeBytes t).length = 8 := fun t => by simp [timeBytes]
  simp only [htime, length_encode, nonce.salt_length] at h₃ h₄ h₅ h₆ h₇ h₈
  have hoff : off + (headerBytes collection nonce).length =
      off + (utf8StringBytes collection.label).length + 8 + 8 + 4 + 4 + 4 + 8 +
        reservedBytes.length := by
    simp only [headerBytes, length_append, htime, length_encode, nonce.salt_length, Nat.add_assoc]
  rw [hoff] at h₉
  simp only [readHeader, h₁, h₂, h₃, h₄, h₅, h₆, h₇, h₈, h₉, Option.map_some, hoff, rereadHeader,
    BitVec.ofNat_toNat, BitVec.setWidth_eq]

/-! ## The whole file -/

/-- The items that are read: with all that belongs to them, or only hashed. -/
def rereadItems (md5 : Md5) (collection : GkmSecretCollection) (sdata : GkmSecretData)
    (unlocked : Bool) : List ItemInfo :=
  (writtenItems collection).map fun e => if unlocked then fullInfo md5 sdata e else hashedInfo md5 e

theorem memoryAt_of_hasAt {bs out beyond : Bytes} (h : HasAt bs off out) :
    memoryAt (bs ++ beyond) off out.length = .ok out := by
  obtain ⟨pre, post, rfl, hlen⟩ := h
  have hs : sliceAt (pre ++ (out ++ post) ++ beyond) off out.length = some out := by
    rw [append_assoc, append_assoc]
    exact sliceAt_append pre out (post ++ beyond) hlen.symm rfl
  rw [memoryAt, hs]

theorem readEncrypted_written (hinv : g.Inverts)
    (hw : Written g collection sdata nonce data master cipher padding encrypted)
    (hr : ∀ e ∈ writtenItems collection, FullReadable g.md5 sdata e) {target : Option GkmSecretData}
    (ht : ∀ d ∈ target, d.master = sdata.master) :
    readEncrypted g target (rereadHeader collection nonce) encrypted
        ((writtenItems collection).map (hashedInfo g.md5)) =
      .ok (.ok (rereadItems g.md5 collection sdata target.isSome)) := by
  cases target with
  | none => rfl
  | some d =>
    have hmaster : d.master = some master := by rw [ht d rfl, hw.master_eq]
    have hlen : (g.md5.hash (bodyBytes g.md5 collection sdata padding) ++
        bodyBytes g.md5 collection sdata padding).length % 16 = 0 := by
      rw [length_append, g.md5.length_hash]
      exact hw.blocks
    obtain ⟨hsize, hdec⟩ := hinv _ _ _ hlen hw.encrypt_eq
    have hdecrypt : decryptBuffer g encrypted d.master nonce.salt nonce.hashIterations =
        .ok (some (g.md5.hash (bodyBytes g.md5 collection sdata padding) ++
          bodyBytes g.md5 collection sdata padding)) := by
      have hassert : encrypted.length % 16 = 0 := by rw [hsize]; exact hlen
      simp [decryptBuffer, hassert, hmaster, hw.cipher_eq, hdec]
    have hverify : verifyDecryptedBuffer g.md5
        (g.md5.hash (bodyBytes g.md5 collection sdata padding) ++
          bodyBytes g.md5 collection sdata padding) = .ok true := by
      have h16 := g.md5.length_hash (bodyBytes g.md5 collection sdata padding)
      rw [verifyDecryptedBuffer, if_neg (by rw [length_append, h16]; omega),
        take_left' h16, drop_left' h16]
      simp
    have hat : HasAt (g.md5.hash (bodyBytes g.md5 collection sdata padding) ++
        bodyBytes g.md5 collection sdata padding) 16
        (encryptedBytes g.md5 sdata (writtenItems collection)) :=
      ⟨_, replicate padding 0, rfl, g.md5.length_hash _⟩
    simp only [readEncrypted, rereadHeader, hdecrypt, ok_bind, hverify, if_true,
      encrypted_at hat hr, pure_eq_ok, rereadItems, Option.isSome_some]

/-- A collection whose items can all be read back. -/
structure Readable (md5 : Md5) (collection : GkmSecretCollection) (sdata : GkmSecretData) : Prop where
  fits : CollectionFits md5 collection sdata
  numbers : ∀ e ∈ writtenItems collection, (convertToInteger e.1).isSome

section

variable (hw : Written g collection sdata nonce data master cipher padding encrypted)
  (hr : Readable g.md5 collection sdata)

include hw hr

theorem Written.hashedReadable :
    ∀ e ∈ writtenItems collection, HashedReadable g.md5 e := fun e he =>
  have hf := (hr.fits.items e he).fields
  ⟨hr.numbers e he, hf.count, hf.canWriteAll (hw.hashed e he (hr.numbers e he))⟩

theorem Written.fullReadable :
    ∀ e ∈ writtenItems collection, FullReadable g.md5 sdata e := fun e he =>
  have hf := hr.fits.items e he
  ⟨hf, hf.fields.canWriteAll (hw.full e he), hw.acls e he⟩

end

section

variable (hinv : g.Inverts) (hw : Written g collection sdata nonce data master cipher padding encrypted)

include hinv hw

/-- Encrypting keeps the length, a multiple of the block length. -/
theorem Written.encrypted_length :
    encrypted.length = 16 + (bodyBytes g.md5 collection sdata padding).length := by
  have hlen : (g.md5.hash (bodyBytes g.md5 collection sdata padding) ++
      bodyBytes g.md5 collection sdata padding).length % 16 = 0 := by
    rw [length_append, g.md5.length_hash]
    exact hw.blocks
  rw [(hinv _ _ _ hlen hw.encrypt_eq).1, length_append, g.md5.length_hash]

theorem Written.encrypted_mod : encrypted.length % 16 = 0 := by
  rw [hw.encrypted_length hinv]
  exact hw.blocks

theorem Written.encrypted_lt (hf : CollectionFits g.md5 collection sdata) : encrypted.length < 2 ^ 32 := by
  have hs := hf.size
  have hp := hw.padding_le
  rw [hw.encrypted_length hinv, bodyBytes, length_append, length_replicate]
  omega

/-- A file that was written for a collection whose identifiers are numbers is read back. -/
theorem gkmSecretBinaryRead_written (hr : Readable g.md5 collection sdata) {st : Loading}
    (ht : ∀ d ∈ st.sdata, d.master = sdata.master)
    (beyond : Bytes) :
    gkmSecretBinaryRead g st data beyond =
      .ok (.success, st.update (rereadHeader collection nonce)
        (rereadItems g.md5 collection sdata st.sdata.isSome)) := by
  have hlt := hw.encrypted_lt hinv hr.fits
  have hat : HasAt data 0 (keyringFileHeader ++ ([0, 0, 0, 0] ++
      (headerBytes collection nonce ++ (encode 4 (writtenItems collection).length ++
        ((writtenItems collection).flatMap (hashedItemBytes g.md5) ++
          (encode 4 encrypted.length ++ encrypted)))))) := by
    refine ⟨[], [], ?_, rfl⟩
    rw [hw.data_eq]
    simp only [magicBytes, hashedItemsBytes, append_assoc, nil_append, append_nil]
  have hmagic : data.take 15 = keyringFileHeader := by
    have hs := hat.left.sliceAt
    exact (sliceAt_eq_some_iff.1 hs).2
  have hlen : ¬ data.length < 15 := by
    have := hat.left.length_le
    have h15 : keyringFileHeader.length = 15 := rfl
    omega
  have hversion : memoryAt (data ++ beyond) 15 4 = .ok [0, 0, 0, 0] :=
    memoryAt_of_hasAt hat.right.left
  have hheader : readHeader data 19 = _ :=
    header_at hat.right.right hr.fits.label (Nat.lt_of_succ_lt hr.fits.count)
  -- the offset of the table of hashed items, and that of the encrypted part
  obtain ⟨o₁, ho₁⟩ : ∃ o, o = 19 + (headerBytes collection nonce).length + 4 := ⟨_, rfl⟩
  have htable : HasAt data o₁ ((writtenItems collection).flatMap (hashedItemBytes g.md5) ++
      (encode 4 encrypted.length ++ encrypted)) := by
    have h := hat.right.right.right.right
    rw [length_encode] at h
    rw [ho₁]
    exact h
  have hitems := hashedItems_at htable.left (hw.hashedReadable hr)
  obtain ⟨o₂, ho₂⟩ :
      ∃ o, o = o₁ + ((writtenItems collection).flatMap (hashedItemBytes g.md5)).length := ⟨_, rfl⟩
  have hsize := uint32At_of_hasAt htable.right.left hlt
  have hcrypt := htable.right.right
  rw [length_encode] at hcrypt
  rw [← ho₂] at hitems hsize hcrypt
  have hcrypt : memoryAt (data ++ beyond) (o₂ + 4) encrypted.length = .ok encrypted :=
    memoryAt_of_hasAt hcrypt
  have hassert : cAssert ((rereadHeader collection nonce).numItems + 1 ≠ 2 ^ 32) = .ok () :=
    cAssert_of_true (Nat.ne_of_lt hr.fits.count)
  have hread := readEncrypted_written hinv hw (hw.fullReadable hr) ht
  rw [← ho₁] at hheader
  rw [gkmSecretBinaryRead, if_neg (by simp [hlen, hmagic]), hversion, ok_bind,
    if_neg (by decide), hheader]
  dsimp only
  rw [hassert, ok_bind, show readHashedItemInfo data (rereadHeader collection nonce).numItems o₁ =
    _ from hitems]
  dsimp only
  rw [hsize]
  dsimp only
  rw [if_neg (by simp [hw.encrypted_mod hinv]), hcrypt, ok_bind, hread, ok_bind]
  rfl

end

end MateKeyring.Secret
