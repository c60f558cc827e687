import MateKeyring.Secret.Collection

/-!
# The binary encrypted keyring file

`gkm-secret-binary.c`: a header with the label, the times and the timeout of the collection, a table
with the number, type and hashed fields of each item, and an encrypted part with the rest of each
item in the same order.

The buffer of the file grows with `g_realloc`, which gives memory or ends the process; that of the
encrypted part grows with `egg_secure_realloc`, which may refuse. Reading looks at the bytes of the
file and, at two places that do not check their bounds, at the memory `beyond` them.
-/

set_option autoImplicit false

namespace MateKeyring.Secret

open Lib Egg
open Mate2 (GkmDataResult)

/-- `LOCK_ON_IDLE_FLAG`. -/
def lockOnIdleFlag : Nat := 1

/-- `LOCK_AFTER_FLAG`. -/
def lockAfterFlag : Nat := 2

/-- `KEYRING_FILE_HEADER`. -/
def keyringFileHeader : Bytes := ascii "MateKeyring\n\r" ++ [0x00, 0x0a]

/-- What the code uses of libgcrypt, and of `egg-symkey.c` the key and the initialisation vector that
are made from a password. -/
structure Gcrypt where
  md5 : Md5
  symkeyGenerateSimple : Option Bytes → Bytes → Nat → Option (Bytes × Bytes)
  cipherEncrypt : Bytes × Bytes → Bytes → Option Bytes
  cipherDecrypt : Bytes × Bytes → Bytes → Option Bytes

/-- Whole blocks are encrypted to as many bytes, and decrypting inverts it. -/
def Gcrypt.Inverts (g : Gcrypt) : Prop :=
  ∀ cipher data out, data.length % 16 = 0 → g.cipherEncrypt cipher data = some out →
    out.length = data.length ∧ g.cipherDecrypt cipher out = some data

/-- What `gkm_secret_binary_write` draws at random, and what its memory for the digest holds before
the digest is there. -/
structure Nonce where
  salt : Bytes
  hashIterations : Nat
  digest : Bytes
  salt_length : salt.length = 8
  iterations_le : 1000 ≤ hashIterations
  iterations_lt : hashIterations < 2000
  digest_length : digest.length = 16

/-! ## Buffer utility functions -/

/-- `buffer_get_bytes`. -/
def bufferGetBytes (buffer : Bytes) (offset n : Nat) : Option (Bytes × Nat) :=
  if buffer.length < n ∨ offset > buffer.length - n then none
  else some ((buffer.drop offset).take n, offset + n)

/-- `buffer_add_time`. -/
def bufferAddTime (b : EggBuffer) (time : BitVec 64) : Bool × EggBuffer :=
  andThen (eggBufferAddUint32 b (time.toNat / 2 ^ 32)) fun b =>
    eggBufferAddUint32 b (time.toNat % 2 ^ 32)

/-- `buffer_get_time`. -/
def bufferGetTime (buffer : Bytes) (offset : Nat) : Option (BitVec 64 × Nat) :=
  match uint32At buffer offset with
  | none => none
  | some (a, offset) =>
    match uint32At buffer offset with
    | none => none
    | some (b, offset) => some (BitVec.ofNat 64 (a * 2 ^ 32 + b), offset)

/-- `buffer_add_utf8_string`; other text is refused without counting a failure. -/
def bufferAddUtf8String (b : EggBuffer) (str : Option CString) : Bool × EggBuffer :=
  if str.all fun s => utf8Validate s.val then eggBufferAddString b (str.map Subtype.val)
  else (false, b)

/-- `buffer_get_utf8_string`. -/
def bufferGetUtf8String (buffer : Bytes) (offset : Nat) : Option (Option CString × Nat) :=
  match stringAt buffer offset with
  | none => none
  | some (str, offset) =>
    if str.all fun s => utf8Validate s.val then some (str, offset) else none

/-- `buffer_add_secret`. -/
def bufferAddSecret (b : EggBuffer) (secret : Option GkmSecret) : Bool × EggBuffer :=
  eggBufferAddByteArray b (secret.bind (·.memory))

/-- `buffer_add_attribute`. -/
def bufferAddAttribute (b : EggBuffer) (attributes : Fields) (key : CString) :
    Checked EggBuffer := do
  let b := (bufferAddUtf8String b (some key)).2
  match ← gkmSecretFieldsGetCompatUint32 attributes key with
  | some number =>
    let b := (eggBufferAddUint32 b 1).2
    pure (eggBufferAddUint32 b number.toNat).2
  | none =>
    let b := (eggBufferAddUint32 b 0).2
    pure (bufferAddUtf8String b (gkmSecretFieldsGet attributes key)).2

/-- `buffer_add_hashed_attribute`. -/
def bufferAddHashedAttribute (md5 : Md5) (b : EggBuffer) (attributes : Fields) (key : CString) :
    Checked EggBuffer := do
  let b := (bufferAddUtf8String b (some key)).2
  match ← gkmSecretFieldsGetCompatHashedUint32 attributes key with
  | some number =>
    let b := (eggBufferAddUint32 b 1).2
    pure (eggBufferAddUint32 b number.toNat).2
  | none =>
    match gkmSecretFieldsGetCompatHashedString md5 attributes key with
    | none => pure b
    | some value =>
      let b := (eggBufferAddUint32 b 0).2
      pure (bufferAddUtf8String b value).2

/-- One round of the loop of `buffer_add_attributes`. -/
def addEitherAttribute (md5 : Md5) (attributes : Fields) (hashed : Bool) (b : EggBuffer)
    (name : CString) : Checked EggBuffer :=
  if hashed then bufferAddHashedAttribute md5 b attributes name
  else bufferAddAttribute b attributes name

/-- The loop of `buffer_add_attributes`. -/
def addAttributesLoop (md5 : Md5) (attributes : Fields) (hashed : Bool) :
    List CString → EggBuffer → Checked EggBuffer
  | [], b => .ok b
  | name :: names, b => do
      let b ← addEitherAttribute md5 attributes hashed b name
      addAttributesLoop md5 attributes hashed names b

/-- `buffer_add_attributes`. -/
def bufferAddAttributes (md5 : Md5) (b : EggBuffer) (attributes : Fields) (hashed : Bool) :
    Checked (Bool × EggBuffer) := do
  let names := gkmSecretFieldsGetNames attributes
  let b ← addAttributesLoop md5 attributes hashed names (eggBufferAddUint32 b names.length).2
  pure (!eggBufferHasError b, b)

/-- The loop of `buffer_get_attributes`. -/
def getAttributesLoop (buffer : Bytes) (hashed : Bool) : Nat → Nat → Fields → Option (Fields × Nat)
  | 0, offset, attributes => some (attributes, offset)
  | n + 1, offset, attributes =>
    match bufferGetUtf8String buffer offset with
    | none => none
    | some (name, offset) =>
      match uint32At buffer offset with
      | none => none
      | some (type, offset) =>
        if type = 0 then
          match bufferGetUtf8String buffer offset with
          | none => none
          | some (str, offset) =>
            getAttributesLoop buffer hashed n offset
              (if hashed then gkmSecretFieldsAddCompatHashedString attributes name str
                else gkmSecretFieldsTake attributes name str)
        else if type = 1 then
          match uint32At buffer offset with
          | none => none
          | some (val, offset) =>
            getAttributesLoop buffer hashed n offset
              (if hashed then
                  gkmSecretFieldsAddCompatHashedUint32 attributes name (UInt32.ofNat val)
                else gkmSecretFieldsAddCompatUint32 attributes name (UInt32.ofNat val))
        else none

/-- `buffer_get_attributes`. -/
def bufferGetAttributes (buffer : Bytes) (offset : Nat) (hashed : Bool) : Option (Fields × Nat) :=
  match uint32At buffer offset with
  | none => none
  | some (listSize, offset) => getAttributesLoop buffer hashed listSize offset ∅

/-- `convert_to_integer`. -/
def convertToInteger (string : CString) : Option UInt32 :=
  let number := strtoul 64 string.val
  if number.2 = [] then some (UInt32.ofNat number.1) else none

/-! ## Encryption -/

/-- `encrypt_buffer`. -/
def encryptBuffer (g : Gcrypt) (buffer : EggBuffer) (master : GkmSecret) (nonce : Nonce) :
    Checked (Option EggBuffer) := do
  cAssert (buffer.len % 16 = 0)
  match g.symkeyGenerateSimple master.memory nonce.salt nonce.hashIterations with
  | none => pure none
  | some cipher => pure ((g.cipherEncrypt cipher buffer.buf).map fun out => { buffer with buf := out })

/-- `decrypt_buffer`; without a master a null password is tried. -/
def decryptBuffer (g : Gcrypt) (buffer : Bytes) (master : Option GkmSecret) (salt : Bytes)
    (iterations : Nat) : Checked (Option Bytes) := do
  cAssert (buffer.length % 16 = 0)
  match g.symkeyGenerateSimple (master.bind (·.memory)) salt iterations with
  | none => pure none
  | some cipher => pure (g.cipherDecrypt cipher buffer)

/-- `verify_decrypted_buffer`; a buffer that has no place for the digest is hashed far beyond its
end. -/
def verifyDecryptedBuffer (md5 : Md5) (buffer : Bytes) : Checked Bool :=
  if buffer.length < 16 then .error .outOfBounds
  else .ok (buffer.take 16 == md5.hash (buffer.drop 16))

/-! ## Writing -/

/-- The loop of `generate_acl_data`. -/
def generateAclLoop : List GkmSecretAccess → EggBuffer → Bool × EggBuffer
  | [], b => (true, b)
  | ac :: acl, b =>
    let b := (eggBufferAddUint32 b ac.typesAllowed.toNat).2
    andThen
      (andThen (andThen (bufferAddUtf8String b ac.displayName) fun b =>
        bufferAddUtf8String b ac.pathname) fun b => bufferAddUtf8String b none)
      fun b => generateAclLoop acl (eggBufferAddUint32 b 0).2

/-- `generate_acl_data`. -/
def generateAclData (b : EggBuffer) (acl : List GkmSecretAccess) : Bool × EggBuffer :=
  generateAclLoop acl (eggBufferAddUint32 b acl.length).2

/-- Four reserved words. -/
def addReserved (b : EggBuffer) : EggBuffer :=
  let b := (eggBufferAddUint32 b 0).2
  let b := (eggBufferAddUint32 b 0).2
  let b := (eggBufferAddUint32 b 0).2
  (eggBufferAddUint32 b 0).2

/-- What `generate_encrypted_data` adds of an item before its attributes. -/
def generateItemData (b : EggBuffer) (item : GkmSecretItem) (secret : Option GkmSecret) :
    Bool × EggBuffer :=
  let b := (bufferAddUtf8String b item.label).2
  let b := (bufferAddSecret b secret).2
  andThen (andThen (bufferAddTime b item.created) fun b => bufferAddTime b item.modified) fun b =>
    andThen (bufferAddUtf8String b none) fun b => (true, addReserved b)

/-- The loop of `generate_encrypted_data`; it stops when something could not be added. -/
def generateEncryptedLoop (md5 : Md5) (data : GkmSecretData) :
    List (CString × GkmSecretItem) → EggBuffer → Checked (Bool × EggBuffer)
  | [], b => .ok (true, b)
  | (identifier, item) :: items, b =>
    if eggBufferHasError b then .ok (false, b)
    else
      match generateItemData b item (gkmSecretDataGetSecret data identifier) with
      | (false, b) => .ok (false, b)
      | (true, b) => do
          match ← bufferAddAttributes md5 b item.fields false with
          | (false, b) => pure (false, b)
          | (true, b) =>
            match generateAclData b item.compatAcl with
            | (false, b) => pure (false, b)
            | (true, b) => generateEncryptedLoop md5 data items b

/-- `generate_encrypted_data`. -/
def generateEncryptedData (md5 : Md5) (b : EggBuffer) (collection : GkmSecretCollection)
    (data : GkmSecretData) : Checked (Bool × EggBuffer) :=
  generateEncryptedLoop md5 data (gkmSecretCollectionGetItems collection) b

/-- The loop of `generate_hashed_items`. -/
def generateHashedLoop (md5 : Md5) : List (CString × GkmSecretItem) → EggBuffer → Checked EggBuffer
  | [], b => .ok b
  | (identifier, item) :: items, b =>
    match convertToInteger identifier with
    -- not a number: the item is left out, although it has been counted
    | none => generateHashedLoop md5 items b
    | some id => do
        let b := (eggBufferAddUint32 b id.toNat).2
        let b := (eggBufferAddUint32 b (gkmSecretCompatParseItemType item.schema)).2
        let (_, b) ← bufferAddAttributes md5 b item.fields true
        generateHashedLoop md5 items b

/-- `generate_hashed_items`. -/
def generateHashedItems (md5 : Md5) (collection : GkmSecretCollection) (b : EggBuffer) :
    Checked EggBuffer :=
  let items := gkmSecretCollectionGetItems collection
  generateHashedLoop md5 items (eggBufferAddUint32 b items.length).2

/-- The flag and the timeout that are written: idle comes before after. -/
def lockFlags (collection : GkmSecretCollection) : Nat × BitVec 32 :=
  let idle := gkmSecretCollectionGetLockIdle collection
  let after := gkmSecretCollectionGetLockAfter collection
  if idle ≠ 0 then (lockOnIdleFlag, idle)
  else if after ≠ 0 then (lockAfterFlag, after)
  else (0, after)

/-- What `gkm_secret_binary_write` adds before the items. -/
def generateHeader (b : EggBuffer) (collection : GkmSecretCollection) (nonce : Nonce) : EggBuffer :=
  let b := (eggBufferAppend b keyringFileHeader).2
  let b := (eggBufferAddByte b 0).2
  let b := (eggBufferAddByte b 0).2
  let b := (eggBufferAddByte b 0).2
  let b := (eggBufferAddByte b 0).2
  let b := (bufferAddUtf8String b collection.label).2
  let b := (bufferAddTime b collection.modified).2
  let b := (bufferAddTime b collection.created).2
  let b := (eggBufferAddUint32 b (lockFlags collection).1).2
  let b := (eggBufferAddUint32 b (lockFlags collection).2.toNat).2
  let b := (eggBufferAddUint32 b nonce.hashIterations).2
  let b := (eggBufferAppend b nonce.salt).2
  addReserved b

/-- Pad with zeros to a multiple of 16 bytes. A buffer that cannot grow is asked again for ever; here
the rounds end, and the assertion of `encrypt_buffer` fails. -/
def padToBlock : Nat → EggBuffer → EggBuffer
  | 0, b => b
  | fuel + 1, b => if b.len % 16 = 0 then b else padToBlock fuel (eggBufferAddByte b 0).2

/-- `egg_buffer_init_full`; a buffer that is not given its first memory is not usable. -/
def initBuffer (reserve : Nat) (allocator : EggBufferAllocator) : EggBuffer :=
  if allocator 0 reserve then eggBufferInitFull reserve allocator
  else { buf := [], allocatedLen := 0, failures := 1, allocator := none, attempts := 1 }

/-- The digest goes to the space that was left for it. -/
def putDigest (md5 : Md5) (b : EggBuffer) : Checked EggBuffer :=
  if b.len < 16 then .error .outOfBounds
  else .ok { b with buf := md5.hash (b.buf.drop 16) ++ b.buf.drop 16 }

/-- `gkm_secret_binary_write`. -/
def gkmSecretBinaryWrite (g : Gcrypt) (collection : GkmSecretCollection) (sdata : GkmSecretData)
    (nonce : Nonce) (secureRealloc : EggBufferAllocator) :
    Checked (GkmDataResult × Bytes) := do
  let buffer := generateHeader (initBuffer 256 fun _ _ => true) collection nonce
  let buffer ← generateHashedItems g.md5 collection buffer
  let toEncrypt := (eggBufferAppend (initBuffer 4096 secureRealloc) nonce.digest).2
  match ← generateEncryptedData g.md5 toEncrypt collection sdata with
  | (false, _) => pure (.failure, [])
  | (true, toEncrypt) =>
    let toEncrypt ← putDigest g.md5 (padToBlock 16 toEncrypt)
    match sdata.master with
    | none => pure (.failure, [])
    | some master =>
      match ← encryptBuffer g toEncrypt master nonce with
      | none => pure (.failure, [])
      | some toEncrypt =>
        if eggBufferHasError toEncrypt ∨ eggBufferHasError buffer then pure (.failure, [])
        else
          let buffer := (eggBufferAddUint32 buffer toEncrypt.len).2
          pure (.success, (eggBufferAppend buffer toEncrypt.buf).2.buf)

/-! ## Reading -/

/-- The loop of `decode_acl`; the list is built back to front and then reversed. -/
def decodeAclLoop (buffer : Bytes) :
    Nat → Nat → List GkmSecretAccess → Option (List GkmSecretAccess × Nat)
  | 0, offset, acl => some (acl.reverse, offset)
  | n + 1, offset, acl =>
    match uint32At buffer offset with
    | none => none
    | some (x, offset) =>
      match bufferGetUtf8String buffer offset with
      | none => none
      | some (name, offset) =>
        match bufferGetUtf8String buffer offset with
        | none => none
        | some (path, offset) =>
          match bufferGetUtf8String buffer offset with
          | none => none
          | some (_, offset) =>
            match uint32At buffer offset with
            | none => none
            | some (_, offset) =>
              decodeAclLoop buffer n offset
                ({ displayName := name, pathname := path, typesAllowed := UInt32.ofNat x } :: acl)

/-- `decode_acl`. -/
def decodeAcl (buffer : Bytes) (offset : Nat) : Option (List GkmSecretAccess × Nat) :=
  match uint32At buffer offset with
  | none => none
  | some (numAcs, offset) => decodeAclLoop buffer numAcs offset []

/-- `ItemInfo`. The secret is a null pointer or a part of the decrypted buffer. -/
structure ItemInfo where
  id : UInt32
  identifier : CString
  type : Nat
  attributes : Fields
  displayName : Option CString
  secret : Option Bytes
  ctime : BitVec 64
  mtime : BitVec 64
  acl : List GkmSecretAccess

/-- An item of which the hashed part was read. -/
def ItemInfo.hashed (id type : Nat) (attributes : Fields) : ItemInfo :=
  { id := UInt32.ofNat id, identifier := formatUint32 (UInt32.ofNat id), type, attributes,
    displayName := none, secret := none, ctime := 0, mtime := 0, acl := [] }

/-- `read_hashed_item_info`, for the items that are left. -/
def readHashedItemInfo (buffer : Bytes) : Nat → Nat → Option (List ItemInfo × Nat)
  | 0, offset => some ([], offset)
  | n + 1, offset =>
    match uint32At buffer offset with
    | none => none
    | some (id, offset) =>
      match uint32At buffer offset with
      | none => none
      | some (type, offset) =>
        match bufferGetAttributes buffer offset true with
        | none => none
        | some (attributes, offset) =>
          match readHashedItemInfo buffer n offset with
          | none => none
          | some (items, offset) => some (ItemInfo.hashed id type attributes :: items, offset)

/-- Four reserved words. -/
def skipReserved (buffer : Bytes) (offset : Nat) : Option Nat :=
  match uint32At buffer offset with
  | none => none
  | some (_, offset) =>
    match uint32At buffer offset with
    | none => none
    | some (_, offset) =>
      match uint32At buffer offset with
      | none => none
      | some (_, offset) => (uint32At buffer offset).map Prod.snd

/-- What `read_full_item_info` reads of an item before its attributes. -/
def readItemData (buffer : Bytes) (offset : Nat) (info : ItemInfo) : Option (ItemInfo × Nat) :=
  match bufferGetUtf8String buffer offset with
  | none => none
  | some (displayName, offset) =>
    match byteArrayAt buffer offset with
    | none => none
    | some (secret, offset) =>
      match bufferGetTime buffer offset with
      | none => none
      | some (ctime, offset) =>
        match bufferGetTime buffer offset with
        | none => none
        | some (mtime, offset) =>
          match bufferGetUtf8String buffer offset with
          | none => none
          | some (_, offset) =>
            (skipReserved buffer offset).map fun offset =>
              ({ info with displayName, secret, ctime, mtime }, offset)

/-- `read_full_item_info`, for the items that are left. The hashed attributes are freed before the
full ones are read; when these cannot be read, `free_item_info` uses the freed table. -/
def readFullItemInfo (buffer : Bytes) : List ItemInfo → Nat → Checked (Option (List ItemInfo))
  | [], _ => .ok (some [])
  | info :: items, offset =>
    match readItemData buffer offset info with
    | none => .ok none
    | some (info, offset) =>
      match bufferGetAttributes buffer offset false with
      | none => .error .outOfBounds
      | some (attributes, offset) =>
        match decodeAcl buffer offset with
        | none => .ok none
        | some (acl, offset) => do
            let rest ← readFullItemInfo buffer items offset
            pure (rest.map fun items => { info with attributes, acl } :: items)

/-- `setup_item_from_info`; without data the collection is locked. -/
def setupItemFromInfo (item : GkmSecretItem) (info : ItemInfo) (unlocked : Bool) : GkmSecretItem :=
  { item with
    label := info.displayName
    created := info.ctime
    modified := info.mtime
    schema := gkmSecretCompatFormatItemType info.type
    fields := info.attributes
    compatAcl := if unlocked then info.acl else [] }

/-- The state that `gkm_secret_binary_read` changes. -/
structure Loading where
  collection : GkmSecretCollection
  sdata : Option GkmSecretData

/-- One item of the loop of `gkm_secret_binary_read`. -/
def Loading.loadItem (st : Loading) (info : ItemInfo) : Loading :=
  let item := (gkmSecretCollectionGetItem st.collection info.identifier).getD gkmSecretItemNew
  let collection :=
    if (gkmSecretCollectionGetItem st.collection info.identifier).isSome then st.collection
    else gkmSecretCollectionNewItem st.collection info.identifier
  { collection := collection.setItem info.identifier
      (setupItemFromInfo item info st.sdata.isSome)
    sdata := st.sdata.map fun data =>
      gkmSecretDataSetSecret data info.identifier { memory := info.secret } }

/-- The loop of `gkm_secret_binary_read`, with the identifiers that were not seen yet. -/
def loadItems : List ItemInfo → Loading → List CString → Loading × List CString
  | [], st, checks => (st, checks)
  | info :: items, st, checks =>
    loadItems items (st.loadItem info) (checks.filter (· ≠ info.identifier))

/-- The items that were not seen are removed. -/
def removeUnavailableItems (collection : GkmSecretCollection) (checks : List CString) :
    GkmSecretCollection :=
  checks.foldl (fun collection identifier => gkmSecretCollectionRemoveItem collection identifier)
    collection

/-- What stands before the items. -/
structure Header where
  displayName : Option CString
  ctime : BitVec 64
  mtime : BitVec 64
  flags : Nat
  lockTimeout : BitVec 32
  hashIterations : Nat
  salt : Bytes
  numItems : Nat

/-- The part of `gkm_secret_binary_read` that reads the header. -/
def readHeader (buffer : Bytes) (offset : Nat) : Option (Header × Nat) :=
  match bufferGetUtf8String buffer offset with
  | none => none
  | some (displayName, offset) =>
    match bufferGetTime buffer offset with
    | none => none
    | some (ctime, offset) =>
      match bufferGetTime buffer offset with
      | none => none
      | some (mtime, offset) =>
        match uint32At buffer offset with
        | none => none
        | some (flags, offset) =>
          match uint32At buffer offset with
          | none => none
          | some (lockTimeout, offset) =>
            match uint32At buffer offset with
            | none => none
            | some (hashIterations, offset) =>
              match bufferGetBytes buffer offset 8 with
              | none => none
              | some (salt, offset) =>
                match skipReserved buffer offset with
                | none => none
                | some offset =>
                  (uint32At buffer offset).map fun r =>
                    ({ displayName, ctime, mtime, flags,
                       lockTimeout := BitVec.ofNat 32 lockTimeout, hashIterations, salt,
                       numItems := r.1 }, r.2)

/-- The label, the times and the timeout are set. -/
def setupCollection (collection : GkmSecretCollection) (header : Header) : GkmSecretCollection :=
  let collection :=
    { collection with
      label := header.displayName, modified := header.mtime, created := header.ctime }
  if header.flags % 2 = 1 then gkmSecretCollectionSetLockIdle collection header.lockTimeout
  else if header.flags / 2 % 2 = 1 then
    gkmSecretCollectionSetLockAfter collection header.lockTimeout
  else collection

/-- The end of `gkm_secret_binary_read`: everything was read, and the collection is updated. -/
def Loading.update (st : Loading) (header : Header) (items : List ItemInfo) : Loading :=
  let checks := (gkmSecretCollectionGetItems st.collection).map Prod.fst
  let (st, checks) := loadItems items
    { st with collection := setupCollection st.collection header } checks
  { st with collection := removeUnavailableItems st.collection checks }

/-- Memory from an address on; what lies further than the memory that is known is out of bounds. -/
def memoryAt (memory : Bytes) (offset n : Nat) : Checked Bytes :=
  match BigEndian.sliceAt memory offset n with
  | none => .error .outOfBounds
  | some bytes => .ok bytes

/-- The decrypted part of a file, if `sdata` is there: the items with all that belongs to them, or the
result that the read ends with. -/
def readEncrypted (g : Gcrypt) (sdata : Option GkmSecretData) (header : Header)
    (toDecrypt : Bytes) (items : List ItemInfo) :
    Checked (Except GkmDataResult (List ItemInfo)) :=
  match sdata with
  | none => .ok (.ok items)
  | some data => do
      match ← decryptBuffer g toDecrypt data.master header.salt header.hashIterations with
      | none => pure (.error .failure)
      | some toDecrypt =>
        if ← verifyDecryptedBuffer g.md5 toDecrypt then
          match ← readFullItemInfo toDecrypt items 16 with
          | none => pure (.error .failure)
          | some items => pure (.ok items)
        else pure (.error .locked)

/-- `gkm_secret_binary_read`. -/
def gkmSecretBinaryRead (g : Gcrypt) (st : Loading) (data beyond : Bytes) :
    Checked (GkmDataResult × Loading) := do
  if data.length < 15 ∨ data.take 15 ≠ keyringFileHeader then pure (.unrecognized, st)
  else
    let version ← memoryAt (data ++ beyond) 15 4
    if version ≠ [0, 0, 0, 0] then pure (.unrecognized, st)
    else
      match readHeader data 19 with
      | none => pure (.failure, st)
      | some (header, offset) =>
        -- the number of items to allocate wraps around, and there is no memory for none
        cAssert (header.numItems + 1 ≠ 2 ^ 32)
        match readHashedItemInfo data header.numItems offset with
        | none => pure (.failure, st)
        | some (items, offset) =>
          match uint32At data offset with
          | none => pure (.failure, st)
          | some (cryptoSize, offset) =>
            if cryptoSize % 16 ≠ 0 then pure (.failure, st)
            else
              let toDecrypt ← memoryAt (data ++ beyond) offset cryptoSize
              match ← readEncrypted g st.sdata header toDecrypt items with
              | .error res => pure (res, st)
              | .ok items => pure (.success, st.update header items)

end MateKeyring.Secret
