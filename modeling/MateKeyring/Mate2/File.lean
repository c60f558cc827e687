import Mathlib.Data.List.AList
import Mathlib.Data.List.Sort
import MateKeyring.Egg.Buffer

/-!
# The user keystore file

`gkm-mate2-file.c`: the tables of a keystore in memory, the reader and the writer of `user.keystore`.
A file is a header and a sequence of blocks. The index block maps identifiers to sections; the public
block has the attributes of the public entries and the private block, encrypted, those of the private
ones. Blocks that are not understood are kept in memory and written back.

The hash tables of the source are `AList`s; the order of their entries stands for the order in which
`g_hash_table_foreach` goes through a table. Memory can always be had. `Gcrypt` is what the code uses
of libgcrypt.
-/

set_option autoImplicit false

namespace MateKeyring.Mate2

open Lib Egg

/-! ## Data -/

/-- `GkmDataResult`; a `gboolean` that is returned as one is `success` or `unrecognized`. -/
inductive GkmDataResult where
  | failure | locked | unrecognized | success
  deriving DecidableEq, Repr

/-- `TRUE` is `GKM_DATA_SUCCESS` and `FALSE` is `GKM_DATA_UNRECOGNIZED`. -/
def GkmDataResult.ofBool (b : Bool) : GkmDataResult := if b then .success else .unrecognized

/-- An identifier of an entry. -/
abbrev Identifier := CString

/-- The section of each identifier. -/
abbrev Identifiers := AList fun _ : Identifier => UInt32

/-- The attributes of an entry: the type and the value of each. -/
abbrev Attributes := AList fun _ : UInt64 => Bytes

/-- The entries of a section. -/
abbrev Entries := AList fun _ : Identifier => Attributes

/-- `GKM_MATE2_FILE_SECTION_PUBLIC`. -/
def sectionPublic : UInt32 := 1

/-- `GKM_MATE2_FILE_SECTION_PRIVATE`. -/
def sectionPrivate : UInt32 := 2

/-- `UnknownBlock`. -/
structure UnknownBlock where
  type : UInt32
  buffer : Bytes
  deriving DecidableEq, Repr

/-- `GkmMate2File`. Of the flags in `sections` only that of the private section is looked at. -/
structure GkmMate2File where
  identifiers : Identifiers
  privates : Option Entries
  publics : Entries
  unknowns : List UnknownBlock
  privateSeen : Bool
  incomplete : Bool

/-- `gkm_mate2_file_init`. -/
def gkmMate2FileNew : GkmMate2File :=
  { identifiers := ∅, privates := some ∅, publics := ∅, unknowns := [], privateSeen := false,
    incomplete := false }

/-- `FILE_HEADER`: the 23 bytes of `Mate Keyring Store 2\n\r\0`. -/
def fileHeader : Bytes :=
  [0x4d, 0x61, 0x74, 0x65, 0x20, 0x4b, 0x65, 0x79, 0x72, 0x69, 0x6e, 0x67, 0x20, 0x53, 0x74, 0x6f,
    0x72, 0x65, 0x20, 0x32, 0x0a, 0x0d, 0x00]

def fileBlockIndex : UInt32 := 0x49445832
def fileBlockPrivate : UInt32 := 0x50525632
def fileBlockPublic : UInt32 := 0x50554232

/-! ## Hashes and ciphers -/

/-- `GkmSecret`: the password of a login. -/
structure GkmSecret where
  password : Bytes
  deriving DecidableEq, Repr

/-- What the code uses of libgcrypt, and of `egg-symkey.c` the key and the initialisation vector that
are made from a password. Algorithms are numbers, zero for an unknown one; a null pointer is the name
of no algorithm. -/
structure Gcrypt where
  mdAlgoName : Nat → CString
  mdMapName : CString → Nat
  mdGetAlgoDlen : Nat → Nat
  mdHashBuffer : Nat → Bytes → Bytes
  cipherAlgoName : Nat → CString
  cipherMapName : CString → Nat
  cipherGetAlgoBlklen : Nat → Nat
  symkeyGenerateSimple : Nat → Nat → Bytes → Bytes → Nat → Option (Bytes × Bytes)
  cipherEncrypt : Nat → Bytes × Bytes → Bytes → Option Bytes
  cipherDecrypt : Nat → Bytes × Bytes → Bytes → Option Bytes

/-- `GCRY_CIPHER_AES128`. -/
def gcryCipherAes128 : Nat := 7

/-- `GCRY_MD_SHA256`. -/
def gcryMdSha256 : Nat := 8

/-- What `encrypt_buffer` draws at random. -/
structure Nonce where
  salt : Bytes
  iterations : Nat
  salt_length : salt.length = 8
  iterations_pos : 0 < iterations
  iterations_lt : iterations < 2000

/-- `hash_buffer`. -/
def hashBuffer (g : Gcrypt) (buffer : EggBuffer) : Checked (Bool × EggBuffer) := do
  cAssert (4 < buffer.len)
  cAssert (eggBufferDecodeUint32 buffer.buf = buffer.len)
  if g.mdGetAlgoDlen gcryMdSha256 = 0 then pure (false, buffer)
  else
    let hash := g.mdHashBuffer gcryMdSha256 buffer.buf
    let named := (eggBufferAddString buffer (some (g.mdAlgoName gcryMdSha256).val)).2
    pure (eggBufferAddByteArrayEmpty named hash)

/-- `validate_buffer`: the offset of what the hash covers. -/
def validateBuffer (g : Gcrypt) (buffer : Bytes) : Option Nat :=
  match uint32At buffer 0 with
  | none => none
  | some (length, offset) =>
    match stringAt buffer length with
    | none => none
    | some (salgo, hashOffset) =>
      let algo := (salgo.map g.mdMapName).getD 0
      if algo = 0 then none
      else
        match byteArrayAt buffer hashOffset with
        | none => none
        | some (hash, _) =>
          if (hash.getD []).length ≠ g.mdGetAlgoDlen algo then none
          else if g.mdHashBuffer algo (buffer.take length) ≠ hash.getD [] then none
          else some offset

/-- `create_cipher`: the key and the initialisation vector. -/
def createCipher (g : Gcrypt) (login : GkmSecret) (calgo halgo : Nat) (salt : Bytes)
    (iterations : Nat) : Option (Bytes × Bytes) :=
  g.symkeyGenerateSimple calgo halgo login.password salt iterations

/-- Pad the buffer to a multiple of the block length; less than `nBlock` rounds do. -/
def padBuffer (nBlock : Nat) : Nat → EggBuffer → EggBuffer
  | 0, input => input
  | fuel + 1, input =>
    if input.len % nBlock = 0 then input
    else padBuffer nBlock fuel (eggBufferAddByte input 0).2

/-- `encrypt_buffer`: whether it succeeds, and the output. -/
def encryptBuffer (g : Gcrypt) (input : EggBuffer) (login : GkmSecret) (nonce : Nonce)
    (output : EggBuffer) : Bool × EggBuffer :=
  let output := (eggBufferAddString output (some (g.cipherAlgoName gcryCipherAes128).val)).2
  let output := (eggBufferAddString output (some (g.mdAlgoName gcryMdSha256).val)).2
  let output := (eggBufferAddUint32 output nonce.iterations).2
  let output := (eggBufferAddByteArray output (some nonce.salt)).2
  match createCipher g login gcryCipherAes128 gcryMdSha256 nonce.salt nonce.iterations with
  | none => (false, output)
  | some cipher =>
    let nBlock := g.cipherGetAlgoBlklen gcryCipherAes128
    if nBlock = 0 then (false, output)
    else
      let input := padBuffer nBlock nBlock input
      match g.cipherEncrypt gcryCipherAes128 cipher input.buf with
      | none => (false, output)
      | some dest => eggBufferAddByteArrayEmpty output dest

/-- `decrypt_buffer`: what the data of the block decrypt to. A null salt is an assertion that
fails. -/
def decryptBuffer (g : Gcrypt) (input : Bytes) (login : GkmSecret) : Checked (Option Bytes) :=
  match stringAt input 0 with
  | none => .ok none
  | some (salgo, offset) =>
    let calgo := (salgo.map g.cipherMapName).getD 0
    if calgo = 0 then .ok none
    else
      match stringAt input offset with
      | none => .ok none
      | some (salgo, offset) =>
        let halgo := (salgo.map g.mdMapName).getD 0
        if halgo = 0 then .ok none
        else
          match uint32At input offset with
          | none => .ok none
          | some (iterations, offset) =>
            match byteArrayAt input offset with
            | none => .ok none
            | some (salt, offset) =>
              match byteArrayAt input offset with
              | none => .ok none
              | some (data, _) =>
                let nBlock := g.cipherGetAlgoBlklen calgo
                if nBlock = 0 ∨ (data.getD []).length % nBlock ≠ 0 then .ok none
                else
                  match salt with
                  | none => .error .assertion
                  | some salt =>
                    match createCipher g login calgo halgo salt iterations with
                    | none => .ok none
                    | some cipher =>
                      .ok (g.cipherDecrypt calgo cipher (data.getD []))

/-! ## Reading -/

/-- One attribute of `update_entries_from_block`: it replaces the one there is, unless they are
equal. -/
def Attributes.update (attributes : Attributes) (type : UInt64) (data : Bytes) : Attributes :=
  if attributes.lookup type = some data then attributes else attributes.insert type data

/-- The inner loop of `update_entries_from_block`: the attributes, and the offset after them if
all of them could be read. -/
def readAttributes (buffer : Bytes) : Nat → Nat → Attributes → Attributes × Option Nat
  | 0, offset, attributes => (attributes, some offset)
  | n + 1, offset, attributes =>
    match uint64At buffer offset with
    | none => (attributes, none)
    | some (type, offset) =>
      match byteArrayAt buffer offset with
      | none => (attributes, none)
      | some (data, offset) =>
        readAttributes buffer n offset
          (attributes.update (UInt64.ofNat type) (data.getD []))

/-- The outer loop of `update_entries_from_block`. A null identifier is looked up in a hash table,
which faults. -/
def readEntries (identifiers : Identifiers) (sect : UInt32)
    (buffer : Bytes) : Nat → Nat → Entries → Checked (GkmDataResult × Entries)
  | 0, _, entries => .ok (.success, entries)
  | n + 1, offset, entries =>
    match stringAt buffer offset with
    | none => .ok (.failure, entries)
    | some (none, _) => .error .nullPointer
    | some (some str, offset) =>
      -- an identifier that is not there has section zero
      if (identifiers.lookup str).getD 0 ≠ sect then .ok (.failure, entries)
      else
        let attributes := (entries.lookup str).getD ∅
        match uint32At buffer offset with
        | none => .ok (.failure, entries.insert str attributes)
        | some (nAttrs, offset) =>
          match readAttributes buffer nAttrs offset attributes with
          | (attributes, none) => .ok (.failure, entries.insert str attributes)
          | (attributes, some offset) =>
            readEntries identifiers sect buffer n offset (entries.insert str attributes)

/-- `update_entries_from_block`. -/
def updateEntriesFromBlock (identifiers : Identifiers) (sect : UInt32)
    (entries : Entries) (buffer : Bytes) (offset : Nat) :
    Checked (GkmDataResult × Entries) :=
  match uint32At buffer offset with
  | none => .ok (.failure, entries)
  | some (nEntries, offset) => readEntries identifiers sect buffer nEntries offset entries

/-- The state of a read: the file, and the identifiers that were not seen yet (`checks`). -/
structure Reading where
  self : GkmMate2File
  checks : AList fun _ : Identifier => Unit

/-- `update_from_public_block`. -/
def updateFromPublicBlock (g : Gcrypt) (st : Reading) (buffer : Bytes) :
    Checked (GkmDataResult × Reading) :=
  match validateBuffer g buffer with
  | none => .ok (.failure, st)
  | some offset => do
      let (res, publics) ← updateEntriesFromBlock st.self.identifiers sectionPublic st.self.publics
        buffer offset
      pure (res, { st with self := { st.self with publics } })

/-- `update_from_private_block` once the block is decrypted. -/
def updateFromDecrypted (g : Gcrypt) (st : Reading) (custom : Bytes) :
    Checked (GkmDataResult × Reading) :=
  match validateBuffer g custom with
  -- usually a bad password
  | none => .ok (.locked, st)
  | some offset => do
      let (res, privates) ← updateEntriesFromBlock st.self.identifiers sectionPrivate
        (st.self.privates.getD ∅) custom offset
      pure (res, { st with self := { st.self with privates := some privates } })

/-- The private section was seen. -/
def Reading.seePrivate (st : Reading) : Reading :=
  { st with self := { st.self with privateSeen := true } }

/-- `update_from_private_block`; without a login the block is skipped. -/
def updateFromPrivateBlock (g : Gcrypt) (st : Reading) (buffer : Bytes)
    (login : Option GkmSecret) : Checked (GkmDataResult × Reading) :=
  match login with
  | none =>
    .ok (.unrecognized, { st with self := { st.self with privateSeen := true, privates := none } })
  | some login => do
      match ← decryptBuffer g buffer login with
      | none => pure (.failure, st.seePrivate)
      | some custom => updateFromDecrypted g st.seePrivate custom

/-- The loop of `update_from_index_block`; what was read before it fails stays. -/
def readIndex (buffer : Bytes) : Nat → Nat → Reading → Checked (GkmDataResult × Reading)
  | 0, _, st => .ok (.success, st)
  | n + 1, offset, st =>
    match stringAt buffer offset with
    | none => .ok (.failure, st)
    | some (identifier, offset) =>
      match uint32At buffer offset with
      | none => .ok (.failure, st)
      | some (value, offset) =>
        match identifier with
        | none => .error .nullPointer
        | some identifier =>
          readIndex buffer n offset
            { self := { st.self with
                identifiers := st.self.identifiers.insert identifier (UInt32.ofNat value) },
              checks := st.checks.erase identifier }

/-- `update_from_index_block`; it returns `FALSE` when there is no number of entries. -/
def updateFromIndexBlock (st : Reading) (buffer : Bytes) : Checked (GkmDataResult × Reading) :=
  match uint32At buffer 0 with
  | none => .ok (.ofBool false, st)
  | some (count, offset) => readIndex buffer count offset st

/-- The switch of `update_from_any_block`. -/
def updateFromBlock (g : Gcrypt) (login : Option GkmSecret) (block : UInt32) (buffer : Bytes)
    (st : Reading) : Checked (GkmDataResult × Reading) :=
  if block = fileBlockIndex then updateFromIndexBlock st buffer
  else if block = fileBlockPrivate then updateFromPrivateBlock g st buffer login
  else if block = fileBlockPublic then updateFromPublicBlock g st buffer
  else .ok (.unrecognized, st)

/-- `update_from_any_block`. -/
def updateFromAnyBlock (g : Gcrypt) (login : Option GkmSecret) (block : UInt32) (buffer : Bytes)
    (st : Reading) : Checked (GkmDataResult × Reading) := do
  match ← updateFromBlock g login block buffer st with
  | (.unrecognized, st) =>
    pure (.success, { st with self := { st.self with
      unknowns := { type := block, buffer } :: st.self.unknowns } })
  | (res, st) => pure (res, st)

/-- `read_all_bytes`: the bytes and the rest of the file. -/
def readAllBytes (input : Bytes) (len : Nat) : Option (Bytes × Bytes) :=
  if len ≤ input.length then some (input.take len, input.drop len) else none

/-- What a round of `parse_file_blocks` finds. -/
inductive NextBlock where
  | endOfFile
  | invalid
  | block (type : UInt32) (buffer rest : Bytes)

/-- The block whose header says it has `length` bytes. -/
def blockOfLength (input : Bytes) (length : Nat) (type : UInt32) : NextBlock :=
  if length < 8 then .invalid
  else
    match readAllBytes input (length - 8) with
    | none => .invalid
    | some (buffer, rest) => .block type buffer rest

/-- The next block of the file. -/
def nextBlock (input : Bytes) : NextBlock :=
  match readAllBytes input 8 with
  | none => .endOfFile
  | some (header, rest) =>
    blockOfLength rest (eggBufferDecodeUint32 header)
      (UInt32.ofNat (eggBufferDecodeUint32 (header.drop 4)))

/-- The loop of `parse_file_blocks`. Each round takes eight bytes or more, so that the length of the
input is fuel enough. -/
def parseBlocks {σ : Type} (blockFunc : UInt32 → Bytes → σ → Checked (GkmDataResult × σ)) :
    Nat → Bytes → σ → Checked (GkmDataResult × σ)
  | 0, _, st => .ok (.success, st)
  | fuel + 1, input, st =>
    match nextBlock input with
    | .endOfFile => .ok (.success, st)
    | .invalid => .ok (.failure, st)
    | .block type buffer rest => do
        match ← blockFunc type buffer st with
        | (.success, st) => parseBlocks blockFunc fuel rest st
        | (res, st) => pure (res, st)

/-- `parse_file_blocks`. A file that is shorter than the header is as good as an empty one. -/
def parseFileBlocks {σ : Type}
    (blockFunc : UInt32 → Bytes → σ → Checked (GkmDataResult × σ)) (file : Bytes)
    (st : σ) : Checked (GkmDataResult × σ) :=
  match readAllBytes file fileHeader.length with
  | none => .ok (.ofBool true, st)
  | some (header, input) =>
    if header ≠ fileHeader then .ok (.ofBool false, st)
    else parseBlocks blockFunc (input.length + 1) input st

/-- `remove_each_identifier`. -/
def removeEachIdentifier (self : GkmMate2File) (key : Identifier) : Checked GkmMate2File :=
  match self.identifiers.lookup key with
  | none => .error .assertion
  | some sect =>
    let self := { self with identifiers := self.identifiers.erase key }
    if sect = sectionPrivate then
      .ok { self with privates := self.privates.map (·.erase key) }
    else .ok { self with publics := self.publics.erase key }

/-- `g_hash_table_foreach (self->checks, remove_each_identifier, self)`. -/
def removeIdentifiers : List Identifier → GkmMate2File → Checked GkmMate2File
  | [], self => .ok self
  | key :: keys, self => do
      let self ← removeEachIdentifier self key
      removeIdentifiers keys self

/-- The table of the identifiers, copied by `copy_each_identifier`. -/
def checksOf (identifiers : Identifiers) :
    AList fun _ : Identifier => Unit where
  entries := identifiers.keys.map fun key => ⟨key, ()⟩
  nodupKeys := by
    simpa [List.NodupKeys, List.keys, Function.comp_def] using identifiers.keys_nodup

/-- `gkm_mate2_file_read_fd` of a file descriptor with `file` to be read from it. -/
def gkmMate2FileReadFd (g : Gcrypt) (self : GkmMate2File) (file : Bytes)
    (login : Option GkmSecret) : Checked (GkmDataResult × GkmMate2File) := do
  let self := { self with privateSeen := false, unknowns := [] }
  match ← parseFileBlocks (updateFromAnyBlock g login) file
    { self, checks := checksOf self.identifiers } with
  | (.success, st) => do
      let self := { st.self with incomplete := false }
      let self ← removeIdentifiers st.checks.keys self
      -- a file without a private section is ready to accept privates
      if self.privates.isNone ∧ self.privateSeen = false then
        pure (.success, { self with privates := some ∅ })
      else pure (.success, self)
  | (res, st) => pure (res, { st.self with incomplete := true })

/-! ## Writing -/

/-- A file descriptor that is written to: the bytes written so far, and for each call of
`write_all_bytes` the number of bytes after which it fails, if it does. -/
structure OutFd where
  written : Bytes
  calls : Nat
  failsAfter : Nat → Option Nat

/-- `write_all_bytes`. -/
def writeAllBytes (fd : OutFd) (buf : Bytes) : Bool × OutFd :=
  if buf = [] then (true, fd)
  else
    match fd.failsAfter fd.calls with
    | none => (true, { fd with written := fd.written ++ buf, calls := fd.calls + 1 })
    | some n => (false, { fd with written := fd.written ++ buf.take n, calls := fd.calls + 1 })

/-- `write_file_block`. -/
def writeFileBlock (fd : OutFd) (block : UInt32) (buffer : Bytes) : Bool × OutFd :=
  match writeAllBytes fd
    (eggBufferEncodeUint32 (buffer.length + 8) ++ eggBufferEncodeUint32 block.toNat) with
  | (false, fd) => (false, fd)
  | (true, fd) => writeAllBytes fd buffer

/-- `g_realloc`, which gives memory or ends the program. -/
def gRealloc : EggBufferAllocator := fun _ _ => true

/-- The pointer to a value: `attribute_dup` makes no copy of nothing. -/
def valuePointer (value : Bytes) : Option Bytes :=
  if value = [] then none else some value

/-- `write_each_attribute`. -/
def writeEachAttribute (buffer : EggBuffer) (type : UInt64) (value : Bytes) : EggBuffer :=
  (eggBufferAddByteArray (eggBufferAddUint64 buffer type.toNat).2 (valuePointer value)).2

/-- `write_each_entry`. -/
def writeEachEntry (buffer : EggBuffer) (unique : Identifier) (attributes : Attributes) :
    EggBuffer :=
  attributes.entries.foldl (fun buffer attr => writeEachAttribute buffer attr.1 attr.2)
    (eggBufferAddUint32 (eggBufferAddString buffer (some unique.val)).2
      attributes.entries.length).2

/-- `write_entries_to_block`. -/
def writeEntriesToBlock (g : Gcrypt) (entries : Entries) (buffer : EggBuffer) :
    Checked (GkmDataResult × EggBuffer) := do
  let offset := buffer.len
  let buffer := (eggBufferAddUint32 buffer 0).2
  let buffer := (eggBufferAddUint32 buffer entries.entries.length).2
  let buffer := entries.entries.foldl (fun buffer entry => writeEachEntry buffer entry.1 entry.2)
    buffer
  if eggBufferHasError buffer then pure (.failure, buffer)
  else do
    let (ok, buffer) ← hashBuffer g (eggBufferSetUint32 buffer offset buffer.len).2
    pure (if ok then .success else .failure, buffer)

/-- `write_private_to_block`; what `encrypt_buffer` returns is returned as a result. -/
def writePrivateToBlock (g : Gcrypt) (self : GkmMate2File) (buffer : EggBuffer)
    (login : Option GkmSecret) (nonce : Nonce) : Checked (GkmDataResult × EggBuffer) :=
  match login, self.privates with
  | none, some privates =>
    -- must lock the private data in some way
    if privates.entries.length ≠ 0 then .ok (.locked, buffer) else .ok (.unrecognized, buffer)
  | none, none => .ok (.unrecognized, buffer)
  -- we did not load the privates, and cannot store them back
  | some _, none => .ok (.locked, buffer)
  | some login, some privates => do
      match ← writeEntriesToBlock g privates (eggBufferInitFull 1024 gRealloc) with
      | (.success, secure) =>
        let (ok, buffer) := encryptBuffer g secure login nonce buffer
        pure (.ofBool ok, buffer)
      | (res, _) => pure (res, buffer)

/-- `write_each_index_identifier`. -/
def writeEachIndexIdentifier (buffer : EggBuffer) (key : Identifier) (value : UInt32) : EggBuffer :=
  (eggBufferAddUint32 (eggBufferAddString buffer (some key.val)).2 value.toNat).2

/-- `write_index_to_block`. -/
def writeIndexToBlock (self : GkmMate2File) (buffer : EggBuffer) : GkmDataResult × EggBuffer :=
  let buffer := (eggBufferAddUint32 buffer self.identifiers.entries.length).2
  let buffer := self.identifiers.entries.foldl
    (fun buffer entry => writeEachIndexIdentifier buffer entry.1 entry.2) buffer
  (if eggBufferHasError buffer then .failure else .success, buffer)

/-- The unknown blocks by type, as `g_list_sort` leaves them: blocks of one type keep their order. -/
def sortUnknownsByType (unknowns : List UnknownBlock) : List UnknownBlock :=
  unknowns.insertionSort fun a b => a.type ≤ b.type

/-- Write the unknown blocks up to the first one whose type is greater than `limit`: the result, and
the blocks that are left. -/
def writeUnknowns (limit : Option UInt32) :
    List UnknownBlock → OutFd → GkmDataResult × List UnknownBlock × OutFd
  | [], fd => (.success, [], fd)
  | block :: unk, fd =>
    if limit.any (· < block.type) then (.success, block :: unk, fd)
    else
      match writeFileBlock fd block.type block.buffer with
      | (true, fd) => writeUnknowns limit unk fd
      | (false, fd) => (.ofBool false, unk, fd)

/-- The block of a type, prepared in an empty buffer. -/
def prepareBlock (g : Gcrypt) (self : GkmMate2File) (login : Option GkmSecret) (nonce : Nonce)
    (type : UInt32) (buffer : EggBuffer) : Checked (GkmDataResult × EggBuffer) :=
  if type = fileBlockIndex then .ok (writeIndexToBlock self buffer)
  else if type = fileBlockPrivate then writePrivateToBlock g self buffer login nonce
  else writeEntriesToBlock g self.publics buffer

/-- The loop of `gkm_mate2_file_write_fd` over the types of its blocks. -/
def writeBlocks (g : Gcrypt) (self : GkmMate2File) (login : Option GkmSecret) (nonce : Nonce) :
    List UInt32 → List UnknownBlock → OutFd → Checked (GkmDataResult × List UnknownBlock × OutFd)
  | [], unk, fd => .ok (.success, unk, fd)
  | type :: types, unk, fd =>
    match writeUnknowns (some type) unk fd with
    | (.success, unk, fd) => do
        match ← prepareBlock g self login nonce type (eggBufferInitFull 8192 gRealloc) with
        | (.success, buffer) =>
          match writeFileBlock fd type buffer.buf with
          | (true, fd) => writeBlocks g self login nonce types unk fd
          | (false, fd) => pure (.ofBool false, unk, fd)
        -- nothing to write
        | (.unrecognized, _) => writeBlocks g self login nonce types unk fd
        | (res, _) => pure (res, unk, fd)
    | (res, unk, fd) => .ok (res, unk, fd)

/-- `gkm_mate2_file_write_fd`. -/
def gkmMate2FileWriteFd (g : Gcrypt) (self : GkmMate2File) (fd : OutFd) (login : Option GkmSecret)
    (nonce : Nonce) : Checked (GkmDataResult × OutFd) :=
  if self.incomplete then .ok (.failure, fd)
  else
    match writeAllBytes fd fileHeader with
    | (false, fd) => .ok (.failure, fd)
    | (true, fd) => do
        match ← writeBlocks g self login nonce [fileBlockIndex, fileBlockPrivate, fileBlockPublic]
          (sortUnknownsByType self.unknowns) fd with
        | (.success, unk, fd) =>
          let (res, _, fd) := writeUnknowns none unk fd
          pure (res, fd)
        | (res, _, fd) => pure (res, fd)

/-! ## Entries -/

/-- `gkm_mate2_file_lookup_entry`: the section of an identifier. -/
def gkmMate2FileLookupEntry (self : GkmMate2File) (identifier : Identifier) : Option UInt32 :=
  self.identifiers.lookup identifier

/-- The table for the entries of a section, null for the private one of a locked file. -/
def sectionEntries (self : GkmMate2File) (sect : UInt32) : Option Entries :=
  if sect = sectionPrivate then self.privates else some self.publics

/-- The file with another table for the entries of a section. -/
def setSectionEntries (self : GkmMate2File) (sect : UInt32) (entries : Entries) : GkmMate2File :=
  if sect = sectionPrivate then { self with privates := some entries }
  else { self with publics := entries }

/-- `identifier_to_attributes`: the section, the table and the attributes, or the result. -/
def identifierToAttributes (self : GkmMate2File) (identifier : Identifier) :
    Except GkmDataResult (UInt32 × Entries × Attributes) :=
  match self.identifiers.lookup identifier with
  | none => .error .unrecognized
  | some sect =>
    match sectionEntries self sect with
    | none => .error .locked
    | some entries =>
      match entries.lookup identifier with
      -- g_return_val_if_fail
      | none => .error .unrecognized
      | some attributes => .ok (sect, entries, attributes)

/-- `gkm_mate2_file_create_entry`. -/
def gkmMate2FileCreateEntry (self : GkmMate2File) (identifier : Identifier) (sect : UInt32) :
    GkmDataResult × GkmMate2File :=
  match sectionEntries self sect with
  | none => (.locked, self)
  | some entries =>
    if (entries.lookup identifier).isSome then (.failure, self)
    else
      let self := setSectionEntries self sect (entries.insert identifier ∅)
      (.success, { self with identifiers := self.identifiers.insert identifier sect })

/-- `gkm_mate2_file_destroy_entry`. -/
def gkmMate2FileDestroyEntry (self : GkmMate2File) (identifier : Identifier) :
    GkmDataResult × GkmMate2File :=
  match gkmMate2FileLookupEntry self identifier with
  | none => (.unrecognized, self)
  | some sect =>
    match sectionEntries self sect with
    | none => (.locked, self)
    | some entries =>
      let self := { self with identifiers := self.identifiers.erase identifier }
      -- g_return_val_if_reached
      if (entries.lookup identifier).isNone then (.unrecognized, self)
      else (.success, setSectionEntries self sect (entries.erase identifier))

/-- `gkm_mate2_file_write_value`. -/
def gkmMate2FileWriteValue (self : GkmMate2File) (identifier : Identifier) (type : UInt64)
    (value : Bytes) : GkmDataResult × GkmMate2File :=
  match identifierToAttributes self identifier with
  | .error res => (res, self)
  | .ok (sect, entries, attributes) =>
    (.success, setSectionEntries self sect
      (entries.insert identifier (attributes.update type value)))

end MateKeyring.Mate2
