import Mathlib.Algebra.Order.BigOperators.Group.List
import MateKeyring.Mate2.File

/-!
# Writing a keystore and reading it back

`Contents` is what a keystore in memory stands for: which identifiers there are, in which section,
and the attributes of the entries. The first half of the module gives the bytes of each block
(`indexBytes`, `blockBytes`, `cipherBytes`) and shows that the writers produce them; the second half
reads these bytes back, block by block. `gkmMate2File_roundTrip` puts the two together.
-/

set_option autoImplicit false

namespace MateKeyring.Mate2

open Lib Egg BigEndian List

variable {identifiers : Identifiers} {blocks : List UnknownBlock}
  {b b' : EggBuffer} {block : UnknownBlock} {u₁ u₂ u₃ u₄ : List UnknownBlock} {fd fd' : OutFd}
  {dest : Bytes} {sect : UInt32} {off : Nat} {σ : Type}

variable {login : Option GkmSecret} {g : Gcrypt} {nonce : Nonce} {entries : Entries} {st : Reading}

variable {es : List ((_ : Identifier) × Attributes)} {attrs : List ((_ : UInt64) × Bytes)}
  {entry : (_ : Identifier) × Attributes} {b : EggBuffer}

/-! ## What a keystore stands for -/

/-- The attributes of an entry, as a map. -/
abbrev AttributeMap := UInt64 → Option Bytes

/-- The entries of a section, as a map. -/
abbrev EntryMap := Identifier → Option AttributeMap

/-- What a keystore stands for; the private entries are missing when it is locked. -/
structure Contents where
  identifiers : Identifier → Option UInt32
  publics : EntryMap
  privates : Option EntryMap

/-- The map of a table of entries. -/
def entryMap (entries : Entries) : EntryMap := fun id =>
  (entries.lookup id).map fun attributes type => attributes.lookup type

/-- What the tables of a file stand for. -/
def GkmMate2File.contents (self : GkmMate2File) : Contents :=
  { identifiers := fun id => self.identifiers.lookup id
    publics := entryMap self.publics
    privates := self.privates.map entryMap }

/-! ## The bytes of the blocks -/

/-- The bytes of an attribute. -/
def attributeBytes (attr : (_ : UInt64) × Bytes) : Bytes :=
  encode 8 attr.1.toNat ++ byteArrayBytes (valuePointer attr.2)

/-- The bytes of an entry. -/
def entryBytes (entry : (_ : Identifier) × Attributes) : Bytes :=
  byteArrayBytes (some entry.1.val) ++
    (encode 4 entry.2.entries.length ++ entry.2.entries.flatMap attributeBytes)

/-- The bytes of a table of entries. -/
def entriesBytes (entries : Entries) : Bytes :=
  encode 4 entries.entries.length ++ entries.entries.flatMap entryBytes

/-- The bytes the hash covers: their number, and the entries. -/
def hashedBytes (entries : Entries) : Bytes :=
  encode 4 (4 + (entriesBytes entries).length) ++ entriesBytes entries

/-- The bytes of a block of entries. -/
def blockBytes (g : Gcrypt) (entries : Entries) : Bytes :=
  hashedBytes entries ++ (byteArrayBytes (some (g.mdAlgoName gcryMdSha256).val) ++
    byteArrayBytes (some (g.mdHashBuffer gcryMdSha256 (hashedBytes entries))))

/-- The bytes of an identifier in the index. -/
def identifierBytes (entry : (_ : Identifier) × UInt32) : Bytes :=
  byteArrayBytes (some entry.1.val) ++ encode 4 entry.2.toNat

/-- The bytes of the index block. -/
def indexBytes (identifiers : Identifiers) : Bytes :=
  encode 4 identifiers.entries.length ++ identifiers.entries.flatMap identifierBytes

/-- What padding appends to `n` bytes. -/
def padding (nBlock n : Nat) : Bytes := replicate ((nBlock - n % nBlock) % nBlock) 0

/-- The bytes that are encrypted for the private block. -/
def paddedBytes (g : Gcrypt) (entries : Entries) : Bytes :=
  blockBytes g entries ++
    padding (g.cipherGetAlgoBlklen gcryCipherAes128) (blockBytes g entries).length

/-! ## What the code relies on -/

/-- What libgcrypt does for the algorithms the writer uses: it knows them by their names, a hash has
the length of its algorithm, and decrypting what was encrypted with the same key gives it back. -/
structure Gcrypt.Sound (g : Gcrypt) : Prop where
  mdName : g.mdMapName (g.mdAlgoName gcryMdSha256) = gcryMdSha256
  mdName_length : (g.mdAlgoName gcryMdSha256).val.length < 256
  dlen_pos : 0 < g.mdGetAlgoDlen gcryMdSha256
  dlen_lt : g.mdGetAlgoDlen gcryMdSha256 < 256
  hash_length : ∀ data, (g.mdHashBuffer gcryMdSha256 data).length = g.mdGetAlgoDlen gcryMdSha256
  cipherName : g.cipherMapName (g.cipherAlgoName gcryCipherAes128) = gcryCipherAes128
  cipherName_length : (g.cipherAlgoName gcryCipherAes128).val.length < 256
  blklen_pos : 0 < g.cipherGetAlgoBlklen gcryCipherAes128
  symkey : ∀ password salt iterations, 0 < iterations →
    (g.symkeyGenerateSimple gcryCipherAes128 gcryMdSha256 password salt iterations).isSome
  encrypt : ∀ cipher data, data.length % g.cipherGetAlgoBlklen gcryCipherAes128 = 0 →
    ∃ dest, g.cipherEncrypt gcryCipherAes128 cipher data = some dest ∧
      dest.length = data.length ∧ g.cipherDecrypt gcryCipherAes128 cipher dest = some data

theorem Gcrypt.Sound.mdName_short (hg : g.Sound) :
    (g.mdAlgoName gcryMdSha256).val.length < 0x7fffffff :=
  Nat.lt_trans hg.mdName_length (by omega)

theorem Gcrypt.Sound.cipherName_short (hg : g.Sound) :
    (g.cipherAlgoName gcryCipherAes128).val.length < 0x7fffffff :=
  Nat.lt_trans hg.cipherName_length (by omega)

theorem Gcrypt.Sound.hash_short (hg : g.Sound) (data : Bytes) :
    (g.mdHashBuffer gcryMdSha256 data).length < 0x7fffffff := by
  rw [hg.hash_length]
  exact Nat.lt_trans hg.dlen_lt (by omega)

/-! ## What the writers produce -/

/-- Writes into a buffer that can grow: unless a failure was counted, `fine` holds and `out` was
appended. -/
structure Stored (b b' : EggBuffer) (fine : Prop) (out : Bytes) : Prop where
  plenty : b.Plenty → b'.Plenty
  mono : b.failures ≤ b'.failures
  eq : b.Plenty → b'.failures = b.failures → fine ∧ b'.buf = b.buf ++ out

theorem Stored.trans {b b' b'' : EggBuffer} {p q : Prop} {x y : Bytes}
    (h : Stored b b' p x) (h' : Stored b' b'' q y) : Stored b b'' (p ∧ q) (x ++ y) := by
  refine ⟨fun hb => h'.plenty (h.plenty hb), Nat.le_trans h.mono h'.mono, fun hb hf => ?_⟩
  have hmono := h.mono
  have hmono' := h'.mono
  obtain ⟨hp, hx⟩ := h.eq hb (by omega)
  obtain ⟨hq, hy⟩ := h'.eq (h.plenty hb) (by omega)
  exact ⟨⟨hp, hq⟩, by rw [hy, hx, append_assoc]⟩

theorem Stored.imp {p q : Prop} {out : Bytes} (h : Stored b b' p out) (hpq : p → q) : Stored b b' q out :=
  ⟨h.plenty, h.mono, fun hb hf => ⟨hpq (h.eq hb hf).1, (h.eq hb hf).2⟩⟩

theorem Stored.of_granted {r : Bool × EggBuffer} {out : Bytes}
    (h : b.Plenty → Granted r) (hw : Writes b r out) : Stored b r.2 True out :=
  ⟨fun hb => (h hb).2, hw.wrote.mono,
    fun hb _ => ⟨trivial, (hw.ok (h hb).1).1⟩⟩

/-- A loop stores what its rounds store. -/
theorem Stored.foldl {α : Type} {f : EggBuffer → α → EggBuffer} {fine : α → Prop}
    {bytes : α → Bytes} (xs : List α)
    (hf : ∀ b, ∀ x ∈ xs, Stored b (f b x) (fine x) (bytes x)) (b : EggBuffer) :
    Stored b (xs.foldl f b) (∀ x ∈ xs, fine x) (xs.flatMap bytes) := by
  induction xs generalizing b with
  | nil => exact ⟨id, Nat.le_refl _, fun _ _ => ⟨by simp, by simp⟩⟩
  | cons x xs ih =>
    have hx := hf b x mem_cons_self
    have hrest := ih (fun b y hy => hf b y (mem_cons_of_mem _ hy)) (f b x)
    refine (hx.trans hrest).imp ?_
    rintro ⟨hfine, hall⟩ y hy
    rcases mem_cons.1 hy with rfl | hy
    · exact hfine
    · exact hall y hy

theorem stored_addUint32 (b : EggBuffer) (v : Nat) :
    Stored b (eggBufferAddUint32 b v).2 True (encode 4 v) :=
  .of_granted (fun hb => eggBufferAddUint32_granted hb v) (eggBufferAddUint32_writes b v)

theorem stored_addUint64 (b : EggBuffer) (v : Nat) :
    Stored b (eggBufferAddUint64 b v).2 True (encode 8 v) :=
  .of_granted (fun hb => eggBufferAddUint64_granted hb v) (eggBufferAddUint64_writes b v)

theorem stored_addByteArray (b : EggBuffer) (val : Option Bytes) :
    Stored b (eggBufferAddByteArray b val).2 ((val.getD []).length < 0x7fffffff)
      (byteArrayBytes val) := by
  by_cases hlen : (val.getD []).length < 0x7fffffff
  · have hgranted : b.Plenty → Granted (eggBufferAddByteArray b val) := by
      intro hb
      apply eggBufferAddByteArray_granted hb
      rintro d rfl
      exact hlen
    exact (Stored.of_granted hgranted (eggBufferAddByteArray_writes b val)).imp fun _ => hlen
  · cases val with
    | none => simp at hlen
    | some d =>
      have hfail : eggBufferAddByteArray b (some d) = (false, b.fail) := by
        rw [eggBufferAddByteArray, if_pos (by simpa using hlen)]
      rw [hfail]
      refine ⟨fun hb => hb, by simp, fun _ hf => ?_⟩
      simp at hf

theorem stored_addString (b : EggBuffer) {s : Bytes} (hlen : s.length < 0x7fffffff) :
    Stored b (eggBufferAddString b (some s)).2 True (byteArrayBytes (some s)) := by
  have hsame : eggBufferAddString b (some s) = eggBufferAddByteArray b (some s) := by
    simp only [eggBufferAddString, eggBufferAddByteArray, if_neg (Nat.not_le.2 hlen)]
  rw [hsame]
  exact (stored_addByteArray b (some s)).imp fun _ => trivial

/-- An attribute can be stored: its value is not too long. -/
def ValueFits (attr : (_ : UInt64) × Bytes) : Prop := attr.2.length < 0x7fffffff

/-- An entry can be stored. -/
def EntryFits (entry : (_ : Identifier) × Attributes) : Prop :=
  ∀ attr ∈ entry.2.entries, ValueFits attr

theorem getD_valuePointer (value : Bytes) : (valuePointer value).getD [] = value := by
  unfold valuePointer
  split
  · rename_i h
    rw [h]
    rfl
  · rfl

theorem writeEachAttribute_stored (b : EggBuffer) (attr : (_ : UInt64) × Bytes) :
    Stored b (writeEachAttribute b attr.1 attr.2) (ValueFits attr) (attributeBytes attr) := by
  have hvalue := stored_addByteArray (eggBufferAddUint64 b attr.1.toNat).2 (valuePointer attr.2)
  rw [getD_valuePointer] at hvalue
  exact ((stored_addUint64 b attr.1.toNat).trans hvalue).imp And.right

theorem writeEachEntry_stored (b : EggBuffer) (hid : entry.1.val.length < 0x7fffffff) :
    Stored b (writeEachEntry b entry.1 entry.2) (EntryFits entry) (entryBytes entry) := by
  have hattrs := Stored.foldl entry.2.entries
    (fun b attr _ => writeEachAttribute_stored b attr)
    (eggBufferAddUint32 (eggBufferAddString b (some entry.1.val)).2 entry.2.entries.length).2
  have h := (stored_addString b hid).trans ((stored_addUint32 _ _).trans hattrs)
  exact h.imp fun hfine => hfine.2.2

/-- The identifiers of a table are not too long. -/
def ShortIds {β : Type} (t : AList fun _ : Identifier => β) : Prop :=
  ∀ entry ∈ t.entries, entry.1.val.length < 0x7fffffff

/-- A buffer that was just set up. -/
structure Fresh (b : EggBuffer) : Prop where
  plenty : b.Plenty
  buf : b.buf = []
  failures : b.failures = 0

theorem fresh_initFull (reserve : Nat) : Fresh (eggBufferInitFull reserve gRealloc) :=
  ⟨⟨gRealloc, rfl, fun _ _ => rfl⟩, rfl, rfl⟩

theorem decode_encodeUint32_append (v : Nat) (rest : Bytes) :
    eggBufferDecodeUint32 (encode 4 v ++ rest) = v % 2 ^ 32 := by
  rw [← eggBufferEncodeUint32_eq]
  have hfirst : eggBufferDecodeUint32 (eggBufferEncodeUint32 v ++ rest) =
      eggBufferDecodeUint32 (eggBufferEncodeUint32 v) := rfl
  rw [hfirst, eggBufferDecodeUint32_eq rfl, eggBufferEncodeUint32_eq, decode_encode]
  rfl

/-- The number of bytes is put where a zero stood. -/
theorem setUint32_first {rest : Bytes} (hbuf : b.buf = encode 4 0 ++ rest) (v : Nat) :
    (eggBufferSetUint32 b 0 v).2 = { b with buf := encode 4 v ++ rest } := by
  have hlen : b.len = 4 + rest.length := by simp [EggBuffer.len, hbuf]
  rw [eggBufferSetUint32, if_neg (by omega), eggBufferEncodeUint32_eq, hbuf, Nat.zero_add,
    drop_left' (by simp)]
  rfl

/-- The hash of a buffer that starts with its length. -/
theorem hashBuffer_ok (hg : g.Sound) {ok : Bool} (h : hashBuffer g b = .ok (ok, b'))
    (hb : b.Plenty) :
    eggBufferDecodeUint32 b.buf = b.len ∧ ok = true ∧ Appended b b'
      (byteArrayBytes (some (g.mdAlgoName gcryMdSha256).val) ++
        byteArrayBytes (some (g.mdHashBuffer gcryMdSha256 b.buf))) := by
  have hdlen := hg.dlen_pos
  obtain ⟨⟨⟩, -, h⟩ := bind_eq_ok.1 h
  obtain ⟨⟨⟩, hassert, h⟩ := bind_eq_ok.1 h
  rw [if_neg (by omega)] at h
  have hdecode : eggBufferDecodeUint32 b.buf = b.len := by
    unfold cAssert at hassert
    split at hassert
    · assumption
    · simp at hassert
  have hname := appended_addString hb hg.mdName_short
  have hlen : ∀ d, some (g.mdHashBuffer gcryMdSha256 b.buf) = some d → d.length < 0x7fffffff := by
    rintro d ⟨⟩
    exact hg.hash_short _
  have hgranted := eggBufferAddByteArray_granted hname.plenty hlen
  have hpair := Except.ok.inj h
  rw [eggBufferAddByteArrayEmpty] at hpair
  have happended := appended_addByteArray hname.plenty hlen
  rw [hpair] at hgranted happended
  exact ⟨hdecode, hgranted.1, hname.trans happended⟩

/-- What `write_entries_to_block` leaves when it succeeds. -/
theorem writeEntriesToBlock_ok (hg : g.Sound) (hids : ShortIds entries)
    (hb : Fresh b) (h : writeEntriesToBlock g entries b = .ok (.success, b')) :
    (∀ entry ∈ entries.entries, EntryFits entry) ∧ 4 + (entriesBytes entries).length < 2 ^ 32 ∧
      b'.buf = blockBytes g entries ∧ b'.Plenty := by
  unfold writeEntriesToBlock at h
  dsimp only at h
  have hround : ∀ b, ∀ entry ∈ entries.entries,
      Stored b (writeEachEntry b entry.1 entry.2) (EntryFits entry) (entryBytes entry) :=
    fun b entry hentry => writeEachEntry_stored b (hids entry hentry)
  have hstored := (stored_addUint32 b 0).trans ((stored_addUint32 _ entries.entries.length).trans
    (Stored.foldl _ hround _))
  set filled := entries.entries.foldl (fun buffer entry => writeEachEntry buffer entry.1 entry.2)
    (eggBufferAddUint32 (eggBufferAddUint32 b 0).2 entries.entries.length).2 with hfilled
  split at h
  · simp at h
  · rename_i herror
    have hnone : filled.failures = b.failures := by
      rw [hb.failures]
      simpa [eggBufferHasError] using herror
    obtain ⟨⟨-, -, hfits⟩, hbuf⟩ := hstored.eq hb.plenty hnone
    have hbuf : filled.buf = encode 4 0 ++ entriesBytes entries := by
      rw [hbuf, hb.buf]
      rfl
    have hlen : filled.len = 4 + (entriesBytes entries).length := by
      simp [EggBuffer.len, hbuf]
    rw [show b.len = 0 by simp [EggBuffer.len, hb.buf], setUint32_first hbuf] at h
    obtain ⟨⟨ok, b₁⟩, hhash, h⟩ := bind_eq_ok.1 h
    obtain ⟨hdecode, rfl, happended⟩ := hashBuffer_ok hg hhash (hstored.plenty hb.plenty)
    simp only [if_true, pure_eq_ok, Except.ok.injEq, Prod.mk.injEq] at h
    rw [← h.2]
    refine ⟨hfits, ?_, ?_, happended.plenty⟩
    · have hmod : filled.len % 2 ^ 32 = filled.len := by
        have hlens : (EggBuffer.len { filled with
            buf := encode 4 filled.len ++ entriesBytes entries }) = filled.len := by
          simp [EggBuffer.len, hbuf]
        rw [hlens] at hdecode
        dsimp only at hdecode
        rw [decode_encodeUint32_append] at hdecode
        exact hdecode
      have hlt := Nat.mod_lt filled.len (show 0 < 2 ^ 32 by omega)
      omega
    · rw [happended.buf_eq]
      dsimp only
      rw [hlen]
      rfl

/-- What `write_index_to_block` leaves when it succeeds. -/
theorem writeIndexToBlock_ok {self : GkmMate2File} (hids : ShortIds self.identifiers) (hb : Fresh b)
    (h : writeIndexToBlock self b = (.success, b')) : b'.buf = indexBytes self.identifiers := by
  have hround : ∀ b, ∀ entry ∈ self.identifiers.entries,
      Stored b (writeEachIndexIdentifier b entry.1 entry.2) True (identifierBytes entry) := by
    intro b entry hentry
    exact ((stored_addString b (hids entry hentry)).trans (stored_addUint32 _ _)).imp
      fun _ => trivial
  have hstored := (stored_addUint32 b self.identifiers.entries.length).trans
    (Stored.foldl _ hround _)
  unfold writeIndexToBlock at h
  simp only [Prod.mk.injEq] at h
  obtain ⟨hres, rfl⟩ := h
  split at hres
  · simp at hres
  · rename_i herror
    have hnone := hstored.eq hb.plenty (by
      rw [hb.failures]
      simpa [eggBufferHasError] using herror)
    rw [hnone.2, hb.buf]
    rfl

theorem padding_length_succ {nBlock len : Nat} (hne : len % nBlock ≠ 0) (hpos : 0 < nBlock) :
    (nBlock - len % nBlock) % nBlock = (nBlock - (len + 1) % nBlock) % nBlock + 1 := by
  have hlt := Nat.mod_lt len hpos
  rw [← Nat.mod_add_mod len nBlock 1]
  generalize len % nBlock = r at hne hlt
  rw [Nat.mod_eq_of_lt (show nBlock - r < nBlock by omega)]
  rcases Nat.lt_or_ge (r + 1) nBlock with h | h
  · rw [Nat.mod_eq_of_lt h, Nat.mod_eq_of_lt (by omega)]
    omega
  · rw [show r + 1 = nBlock by omega, Nat.mod_self, Nat.sub_zero, Nat.mod_self]
    omega

/-- Padding stops at a multiple of the block length. -/
theorem padBuffer_appended {nBlock : Nat} (hpos : 0 < nBlock) (fuel : Nat)
    (hb : b.Plenty) (hfuel : (nBlock - b.len % nBlock) % nBlock ≤ fuel) :
    (padBuffer nBlock fuel b).buf = b.buf ++ padding nBlock b.len := by
  induction fuel generalizing b with
  | zero =>
    rw [padBuffer, padding, Nat.le_zero.1 hfuel]
    simp
  | succ fuel ih =>
    rw [padBuffer]
    split
    · rename_i hzero
      rw [padding, hzero, Nat.sub_zero, Nat.mod_self]
      simp
    · rename_i hne
      have hbyte := appended_addByte hb 0
      have hlen : (eggBufferAddByte b 0).2.len = b.len + 1 := by
        simp [EggBuffer.len, hbyte.buf_eq]
      have hstep := padding_length_succ hne hpos
      rw [ih hbyte.plenty (by rw [hlen]; omega), hbyte.buf_eq, hlen, padding, padding, hstep,
        replicate_succ, append_assoc]
      rfl

theorem length_padded_mod {nBlock : Nat} (hpos : 0 < nBlock) (data : Bytes) :
    (data ++ padding nBlock data.length).length % nBlock = 0 := by
  have hlt := Nat.mod_lt data.length hpos
  simp only [length_append, padding, length_replicate]
  rw [Nat.add_mod, Nat.mod_mod]
  rcases Nat.eq_zero_or_pos (data.length % nBlock) with h | h
  · rw [h, Nat.sub_zero, Nat.mod_self, Nat.zero_mod]
  · rw [Nat.mod_eq_of_lt (show nBlock - data.length % nBlock < nBlock by omega),
      Nat.add_sub_cancel' (by omega), Nat.mod_self]

/-- The bytes of the private block, around the encrypted ones. -/
def cipherBytes (g : Gcrypt) (nonce : Nonce) (dest : Bytes) : Bytes :=
  byteArrayBytes (some (g.cipherAlgoName gcryCipherAes128).val) ++
    (byteArrayBytes (some (g.mdAlgoName gcryMdSha256).val) ++
      (encode 4 nonce.iterations ++
        (byteArrayBytes (some nonce.salt) ++ byteArrayBytes (some dest))))

/-- `dest` is `data` encrypted for a login. -/
def Encrypts (g : Gcrypt) (login : GkmSecret) (nonce : Nonce) (data dest : Bytes) : Prop :=
  ∃ cipher, createCipher g login gcryCipherAes128 gcryMdSha256 nonce.salt nonce.iterations =
      some cipher ∧ dest.length = data.length ∧
    g.cipherDecrypt gcryCipherAes128 cipher dest = some data

/-- What `encrypt_buffer` does to a buffer that can be encrypted. -/
theorem encryptBuffer_ok (hg : g.Sound) {input b : EggBuffer} (hinput : input.Plenty)
    (hb : Fresh b) (login : GkmSecret) (nonce : Nonce)
    (hlen : (input.buf ++ padding (g.cipherGetAlgoBlklen gcryCipherAes128) input.len).length <
      0x7fffffff) :
    ∃ dest, Encrypts g login nonce
        (input.buf ++ padding (g.cipherGetAlgoBlklen gcryCipherAes128) input.len) dest ∧
      (encryptBuffer g input login nonce b).1 = true ∧
      (encryptBuffer g input login nonce b).2.buf = cipherBytes g nonce dest := by
  have hpos := hg.blklen_pos
  have hmod : (g.cipherGetAlgoBlklen gcryCipherAes128 - input.len %
      g.cipherGetAlgoBlklen gcryCipherAes128) % g.cipherGetAlgoBlklen gcryCipherAes128 ≤
      g.cipherGetAlgoBlklen gcryCipherAes128 := Nat.le_of_lt (Nat.mod_lt _ hpos)
  have hpadded := padBuffer_appended hpos _ hinput hmod
  obtain ⟨cipher, hcipher⟩ := Option.isSome_iff_exists.1
    (hg.symkey login.password nonce.salt nonce.iterations nonce.iterations_pos)
  obtain ⟨dest, hencrypt, hdest, hdecrypt⟩ := hg.encrypt cipher _
    (length_padded_mod hpos input.buf)
  refine ⟨dest, ⟨cipher, hcipher, hdest, hdecrypt⟩, ?_⟩
  unfold encryptBuffer
  dsimp only
  rw [createCipher, hcipher]
  dsimp only
  rw [if_neg (by omega), hpadded]
  rw [EggBuffer.len, hencrypt]
  dsimp only
  have hsalt : ∀ d, some nonce.salt = some d → d.length < 0x7fffffff := by
    rintro d ⟨⟩
    rw [nonce.salt_length]
    omega
  have hdata : ∀ d, some dest = some d → d.length < 0x7fffffff := by
    rintro d ⟨⟩
    rw [hdest]
    exact hlen
  have hc := appended_addString hb.plenty hg.cipherName_short
  have hm := appended_addString hc.plenty hg.mdName_short
  have hi := appended_addUint32 hm.plenty nonce.iterations
  have hs := appended_addByteArray hi.plenty hsalt
  have hd := appended_addByteArray hs.plenty hdata
  refine ⟨(eggBufferAddByteArray_granted hs.plenty hdata).1, ?_⟩
  rw [eggBufferAddByteArrayEmpty, (hc.trans (hm.trans (hi.trans (hs.trans hd)))).buf_eq, hb.buf]
  rfl

/-! ## The bytes of the file -/

/-- A block as it stands in the file. -/
def frameBytes (block : UnknownBlock) : Bytes :=
  encode 4 (block.buffer.length + 8) ++ (encode 4 block.type.toNat ++ block.buffer)

theorem writeAllBytes_ok {buf : Bytes} (h : writeAllBytes fd buf = (true, fd')) :
    fd'.written = fd.written ++ buf := by
  unfold writeAllBytes at h
  split at h
  · rename_i hnil
    simp only [Prod.mk.injEq, true_and] at h
    rw [← h, hnil, append_nil]
  · split at h
    · simp only [Prod.mk.injEq, true_and] at h
      rw [← h]
    · simp at h

theorem writeFileBlock_ok {block : UInt32} {buffer : Bytes}
    (h : writeFileBlock fd block buffer = (true, fd')) :
    fd'.written = fd.written ++ frameBytes { type := block, buffer } := by
  unfold writeFileBlock at h
  split at h
  · simp at h
  · rename_i fd₁ hheader
    rw [writeAllBytes_ok h, writeAllBytes_ok hheader]
    simp only [frameBytes, eggBufferEncodeUint32_eq, append_assoc]

/-- Some of the unknown blocks are written, and the others are left. -/
theorem writeUnknowns_ok {limit : Option UInt32} {unk rest : List UnknownBlock}
    (h : writeUnknowns limit unk fd = (.success, rest, fd')) :
    ∃ done, unk = done ++ rest ∧ fd'.written = fd.written ++ done.flatMap frameBytes ∧
      (limit = none → rest = []) := by
  induction unk generalizing fd with
  | nil =>
    simp only [writeUnknowns, Prod.mk.injEq, true_and] at h
    obtain ⟨rfl, rfl⟩ := h
    exact ⟨[], rfl, by simp, fun _ => rfl⟩
  | cons block unk ih =>
    rw [writeUnknowns] at h
    split at h
    · rename_i hlimit
      simp only [Prod.mk.injEq, true_and] at h
      obtain ⟨rfl, rfl⟩ := h
      refine ⟨[], rfl, by simp, ?_⟩
      rintro rfl
      simp at hlimit
    · split at h
      · rename_i fd₁ hblock
        obtain ⟨done, rfl, hwritten, hall⟩ := ih h
        refine ⟨block :: done, rfl, ?_, hall⟩
        rw [hwritten, writeFileBlock_ok hblock, flatMap_cons, append_assoc]
      · simp [GkmDataResult.ofBool] at h

/-- What the writer makes of a type: a block, or nothing. -/
def Prepared (g : Gcrypt) (self : GkmMate2File) (login : Option GkmSecret) (nonce : Nonce)
    (type : UInt32) (own : List UnknownBlock) : Prop :=
  (∃ b, prepareBlock g self login nonce type (eggBufferInitFull 8192 gRealloc) =
      .ok (.success, b) ∧ own = [{ type, buffer := b.buf }]) ∨
    (∃ b, prepareBlock g self login nonce type (eggBufferInitFull 8192 gRealloc) =
      .ok (.unrecognized, b) ∧ own = [])

theorem writeBlocks_cons_ok {self : GkmMate2File}
    {type : UInt32} {types : List UInt32} {unk unk' : List UnknownBlock}
    (h : writeBlocks g self login nonce (type :: types) unk fd = .ok (.success, unk', fd')) :
    ∃ done own rest fd₁, unk = done ++ rest ∧ Prepared g self login nonce type own ∧
      fd₁.written = fd.written ++ (done ++ own).flatMap frameBytes ∧
      writeBlocks g self login nonce types rest fd₁ = .ok (.success, unk', fd') := by
  rw [writeBlocks] at h
  split at h
  · rename_i rest fd₁ hunk
    obtain ⟨done, rfl, hwritten, -⟩ := writeUnknowns_ok hunk
    obtain ⟨⟨res, b⟩, hprep, h⟩ := bind_eq_ok.1 h
    cases res with
    | failure => simp at h
    | locked => simp at h
    | unrecognized =>
      exact ⟨done, [], rest, fd₁, rfl, .inr ⟨b, hprep, rfl⟩, by simpa using hwritten, h⟩
    | success =>
      dsimp only at h
      split at h
      · rename_i fd₂ hblock
        refine ⟨done, _, rest, fd₂, rfl, .inl ⟨b, hprep, rfl⟩, ?_, h⟩
        rw [writeFileBlock_ok hblock, hwritten]
        simp
      · simp [GkmDataResult.ofBool] at h
  · rename_i hne hunk
    simp only [Except.ok.injEq, Prod.mk.injEq] at h
    obtain ⟨rfl, -, -⟩ := h
    exact absurd rfl hne

/-- The blocks of a file that was written, in their order. -/
theorem gkmMate2FileWriteFd_ok {self : GkmMate2File}
    (h : gkmMate2FileWriteFd g self fd login nonce = .ok (.success, fd')) :
    self.incomplete = false ∧ ∃ u₁ u₂ u₃ u₄ own₁ own₂ own₃,
      sortUnknownsByType self.unknowns = u₁ ++ (u₂ ++ (u₃ ++ u₄)) ∧
      Prepared g self login nonce fileBlockIndex own₁ ∧
      Prepared g self login nonce fileBlockPrivate own₂ ∧
      Prepared g self login nonce fileBlockPublic own₃ ∧
      fd'.written = fd.written ++ (fileHeader ++
        (u₁ ++ (own₁ ++ (u₂ ++ (own₂ ++ (u₃ ++ (own₃ ++ u₄)))))).flatMap frameBytes) := by
  unfold gkmMate2FileWriteFd at h
  split at h
  · simp at h
  · rename_i hincomplete
    refine ⟨by simpa using hincomplete, ?_⟩
    split at h
    · simp at h
    · rename_i fd₀ hheader
      obtain ⟨⟨res, unk, fd₄⟩, hblocks, h⟩ := bind_eq_ok.1 h
      have hres : res = .success := by
        cases res with
        | success => rfl
        | failure => simp at h
        | locked => simp at h
        | unrecognized => simp at h
      subst hres
      simp only [pure_eq_ok, Except.ok.injEq, Prod.mk.injEq] at h
      obtain ⟨hlast, rfl⟩ := h
      obtain ⟨u₁, own₁, r₁, fd₁, hsorted, hown₁, hw₁, hblocks⟩ := writeBlocks_cons_ok hblocks
      obtain ⟨u₂, own₂, r₂, fd₂, rfl, hown₂, hw₂, hblocks⟩ := writeBlocks_cons_ok hblocks
      obtain ⟨u₃, own₃, r₃, fd₃, rfl, hown₃, hw₃, hblocks⟩ := writeBlocks_cons_ok hblocks
      simp only [writeBlocks, Except.ok.injEq, Prod.mk.injEq, true_and] at hblocks
      obtain ⟨rfl, rfl⟩ := hblocks
      have hunk : writeUnknowns none r₃ fd₃ = (.success, (writeUnknowns none r₃ fd₃).2) := by
        rw [← hlast]
      obtain ⟨u₄, hrest, hw₄, hall⟩ := writeUnknowns_ok hunk
      rw [hall rfl, append_nil] at hrest
      refine ⟨u₁, u₂, u₃, u₄, own₁, own₂, own₃, ?_, hown₁, hown₂, hown₃, ?_⟩
      · rw [hsorted, hrest]
      · rw [hw₄, hw₃, hw₂, hw₁, writeAllBytes_ok hheader]
        simp

/-! ## Reading the tables back -/

/-- The attributes of a list, put into a table one after the other. -/
def mergeAttributes (attributes : Attributes) (attrs : List ((_ : UInt64) × Bytes)) : Attributes :=
  attrs.foldl (fun attributes attr => attributes.update attr.1 attr.2) attributes

/-- The entries of a list, put into a table one after the other. -/
def mergeEntries (entries : Entries) (es : List ((_ : Identifier) × Attributes)) : Entries :=
  es.foldl (fun entries entry => entries.insert entry.1
    (mergeAttributes ((entries.lookup entry.1).getD ∅) entry.2.entries)) entries

theorem Attributes.lookup_update (attributes : Attributes) (type type' : UInt64)
    (data : Bytes) : (attributes.update type data).lookup type' =
      if type' = type then some data else attributes.lookup type' := by
  unfold Attributes.update
  split
  · rename_i hsame
    split
    · rename_i heq
      rw [heq, hsame]
    · rfl
  · split
    · rename_i heq
      rw [heq, AList.lookup_insert]
    · rename_i hne
      exact AList.lookup_insert_ne hne

theorem lookup_mergeAttributes (hnodup : attrs.NodupKeys)
    (attributes : Attributes) (type : UInt64) :
    (mergeAttributes attributes attrs).lookup type =
      (attrs.dlookup type).or (attributes.lookup type) := by
  induction attrs generalizing attributes with
  | nil => rfl
  | cons attr attrs ih =>
    obtain ⟨hnot, hnodup⟩ := nodupKeys_cons.1 hnodup
    have hstep : mergeAttributes attributes (attr :: attrs) =
      mergeAttributes (attributes.update attr.1 attr.2) attrs := rfl
    rw [hstep, ih hnodup, Attributes.lookup_update]
    by_cases heq : type = attr.1
    · subst heq
      rw [dlookup_eq_none.2 hnot, if_pos rfl, dlookup_cons_eq]
      rfl
    · rw [if_neg heq, dlookup_cons_ne _ _ heq]

theorem entryMap_insert (entries : Entries) (id id' : Identifier) (attributes : Attributes) :
    entryMap (entries.insert id attributes) id' =
      if id' = id then some (fun type => attributes.lookup type) else entryMap entries id' := by
  unfold entryMap
  split
  · rename_i heq
    rw [heq, AList.lookup_insert]
    rfl
  · rename_i hne
    rw [AList.lookup_insert_ne hne]

/-- A table whose entries are put into one that has none of them. -/
theorem entryMap_mergeEntries (hnodup : es.NodupKeys)
    (entries : Entries) (hnew : ∀ entry ∈ es, entries.lookup entry.1 = none) (id : Identifier) :
    entryMap (mergeEntries entries es) id =
      ((es.dlookup id).map fun attributes type => attributes.lookup type).or
        (entryMap entries id) := by
  induction es generalizing entries with
  | nil => rfl
  | cons entry es ih =>
    obtain ⟨hnot, hnodup⟩ := nodupKeys_cons.1 hnodup
    have hnone := hnew entry mem_cons_self
    have hstep : mergeEntries entries (entry :: es) = mergeEntries
      (entries.insert entry.1 (mergeAttributes ((entries.lookup entry.1).getD ∅)
        entry.2.entries)) es := rfl
    have hmerged : (fun type => (mergeAttributes ((entries.lookup entry.1).getD ∅)
        entry.2.entries).lookup type) = fun type => entry.2.lookup type := by
      funext type
      rw [hnone, lookup_mergeAttributes entry.2.nodupKeys]
      exact Option.or_none
    rw [hstep, ih hnodup, entryMap_insert, hmerged]
    · by_cases heq : id = entry.1
      · subst heq
        rw [dlookup_eq_none.2 hnot, if_pos rfl, dlookup_cons_eq]
        rfl
      · rw [if_neg heq, dlookup_cons_ne _ _ heq]
    · intro other hother
      have hne : other.1 ≠ entry.1 := by
        intro heq
        apply hnot
        rw [← heq]
        exact mem_keys_of_mem hother
      rw [AList.lookup_insert_ne hne]
      exact hnew other (mem_cons_of_mem _ hother)

theorem entryMap_mergeEntries_empty (entries : Entries) :
    entryMap (mergeEntries ∅ entries.entries) = entryMap entries := by
  funext id
  rw [entryMap_mergeEntries entries.nodupKeys ∅ (fun _ _ => rfl)]
  exact Option.or_none

theorem readAttributes_of_hasAt {buffer : Bytes}
    (h : HasAt buffer off (attrs.flatMap attributeBytes)) (hfits : ∀ attr ∈ attrs, ValueFits attr)
    (attributes : Attributes) :
    readAttributes buffer attrs.length off attributes =
      (mergeAttributes attributes attrs, some (off + (attrs.flatMap attributeBytes).length)) := by
  induction attrs generalizing off attributes with
  | nil => rfl
  | cons attr attrs ih =>
    rw [flatMap_cons] at h
    have htype := uint64At_of_hasAt h.left.left attr.1.toNat_lt
    have hvalue := byteArrayAt_of_hasAt h.left.right (fun d hd => by
      have hfit := hfits attr mem_cons_self
      rw [ValueFits, ← getD_valuePointer attr.2, hd] at hfit
      exact hfit)
    rw [length_encode] at hvalue
    have hlen : (attributeBytes attr).length =
        8 + (byteArrayBytes (valuePointer attr.2)).length := by
      simp [attributeBytes]
    have hrest := h.right
    rw [hlen, ← Nat.add_assoc] at hrest
    rw [length_cons, readAttributes, htype]
    dsimp only
    rw [hvalue]
    dsimp only
    rw [getD_valuePointer, UInt64.ofNat_toNat, ih hrest (forall_mem_cons.1 hfits).2]
    simp only [flatMap_cons, length_append, hlen, Nat.add_assoc]
    rfl

theorem readEntries_of_hasAt {buffer : Bytes} (h : HasAt buffer off (es.flatMap entryBytes))
    (hsect : ∀ entry ∈ es, identifiers.lookup entry.1 = some sect)
    (hids : ∀ entry ∈ es, entry.1.val.length < 0x7fffffff)
    (hcount : ∀ entry ∈ es, entry.2.entries.length < 2 ^ 32) (hfits : ∀ entry ∈ es, EntryFits entry)
    (entries : Entries) :
    readEntries identifiers sect buffer es.length off entries =
      .ok (.success, mergeEntries entries es) := by
  induction es generalizing off entries with
  | nil => rfl
  | cons entry es ih =>
    rw [flatMap_cons] at h
    have hname := stringAt_of_hasAt h.left.left (hids entry mem_cons_self)
    have hnum := uint32At_of_hasAt h.left.right.left (hcount entry mem_cons_self)
    have hattrs := readAttributes_of_hasAt h.left.right.right (hfits entry mem_cons_self)
      ((entries.lookup entry.1).getD ∅)
    rw [length_encode] at hattrs
    have hlen : (entryBytes entry).length = (byteArrayBytes (some entry.1.val)).length + 4 +
        (entry.2.entries.flatMap attributeBytes).length := by
      simp only [entryBytes, length_append, length_encode]
      omega
    have hrest := h.right
    rw [hlen, ← Nat.add_assoc, ← Nat.add_assoc] at hrest
    rw [length_cons, readEntries, hname]
    dsimp only
    rw [hsect entry mem_cons_self, if_neg (by simp), hnum]
    dsimp only
    rw [hattrs]
    dsimp only
    rw [ih hrest (forall_mem_cons.1 hsect).2
      (forall_mem_cons.1 hids).2
      (forall_mem_cons.1 hcount).2
      (forall_mem_cons.1 hfits).2]
    rfl

theorem hashedBytes_length (entries : Entries) :
    (hashedBytes entries).length = 4 + (entriesBytes entries).length := by
  simp [hashedBytes]

theorem length_le_length_flatMap {α : Type} {f : α → Bytes} (xs : List α)
    (hpos : ∀ x, 0 < (f x).length) : xs.length ≤ (xs.flatMap f).length := by
  rw [length_flatMap]
  calc xs.length = (xs.map fun _ => 1).sum := by simp
    _ ≤ (xs.map fun x => (f x).length).sum := sum_le_sum fun x _ => hpos x

theorem entries_length_le (entries : Entries) :
    entries.entries.length ≤ (entriesBytes entries).length := by
  have hsum := length_le_length_flatMap (f := entryBytes) entries.entries (by
    intro entry
    simp only [entryBytes, length_append, length_encode]
    omega)
  simp only [entriesBytes, length_append, length_encode]
  omega

/-- There are not more attributes than bytes. -/
theorem attributes_length_le
    (hentry : entry ∈ entries.entries) :
    entry.2.entries.length ≤ (entriesBytes entries).length := by
  have hattrs := length_le_length_flatMap (f := attributeBytes) entry.2.entries (by
    intro attr
    simp only [attributeBytes, length_append, length_encode]
    omega)
  have hmem : (entryBytes entry).length ≤ (entries.entries.flatMap entryBytes).length := by
    rw [length_flatMap]
    exact single_le_sum (by simp) _ (mem_map_of_mem hentry)
  simp only [entryBytes, length_append, length_encode] at hmem
  simp only [entriesBytes, length_append, length_encode]
  omega

section Block

variable {g : Gcrypt} {entries : Entries} {buffer : Bytes}

/-- The hash of a block is right, whatever follows the block. -/
theorem validateBuffer_block (hg : g.Sound) (hlen : 4 + (entriesBytes entries).length < 2 ^ 32)
    (h : HasAt buffer 0 (blockBytes g entries)) : validateBuffer g buffer = some 4 := by
  have hlength := hashedBytes_length entries
  have hnum := uint32At_of_hasAt h.left.left hlen
  have hname := stringAt_of_hasAt h.right.left hg.mdName_short
  have hhash := byteArrayAt_of_hasAt h.right.right (fun d hd => by
    cases hd
    exact hg.hash_short _)
  rw [hlength, Nat.zero_add] at hname hhash
  have htake : buffer.take (4 + (entriesBytes entries).length) = hashedBytes entries := by
    have hslice := h.left.sliceAt
    rw [hlength] at hslice
    simpa using (sliceAt_eq_some_iff.1 hslice).2
  rw [validateBuffer, hnum]
  dsimp only
  rw [hname]
  dsimp only
  rw [Option.map_some, Option.getD_some, hg.mdName, if_neg (by decide), hhash]
  dsimp only
  rw [Option.getD_some, hg.hash_length, if_neg (by simp), htake, if_neg (by simp)]

/-- The entries of a block are put into a table. -/
theorem updateEntriesFromBlock_block (hlen : 4 + (entriesBytes entries).length < 2 ^ 32)
    (h : HasAt buffer 0 (blockBytes g entries)) (hids : ShortIds entries)
    (hsect : ∀ entry ∈ entries.entries, identifiers.lookup entry.1 = some sect)
    (hfits : ∀ entry ∈ entries.entries, EntryFits entry) (into : Entries) :
    updateEntriesFromBlock identifiers sect into buffer 4 =
      .ok (.success, mergeEntries into entries.entries) := by
  have hbody := h.left.right
  rw [length_encode, Nat.zero_add] at hbody
  have hnum := uint32At_of_hasAt hbody.left (by
    have := entries_length_le entries
    omega)
  have hentries := hbody.right
  rw [length_encode] at hentries
  rw [updateEntriesFromBlock, hnum]
  dsimp only
  refine readEntries_of_hasAt hentries hsect hids ?_ hfits into
  intro entry hentry
  have := attributes_length_le hentry
  omega

end Block

theorem hasAt_append (xs ys : Bytes) : HasAt (xs ++ ys) 0 xs := ⟨[], ys, rfl, rfl⟩

theorem hasAt_self (xs : Bytes) : HasAt xs 0 xs := ⟨[], [], by simp, rfl⟩

/-- Decrypting gives back what was encrypted. -/
theorem decryptBuffer_cipherBytes (hg : g.Sound) {login : GkmSecret}
    {data dest : Bytes} (hdest : Encrypts g login nonce data dest)
    (hlen : data.length < 0x7fffffff)
    (hmod : data.length % g.cipherGetAlgoBlklen gcryCipherAes128 = 0) :
    decryptBuffer g (cipherBytes g nonce dest) login = .ok (some data) := by
  obtain ⟨cipher, hcipher, hlength, hdecrypt⟩ := hdest
  have hpos := hg.blklen_pos
  have h := hasAt_self (cipherBytes g nonce dest)
  have hcname := stringAt_of_hasAt h.left hg.cipherName_short
  have hmname := stringAt_of_hasAt h.right.left hg.mdName_short
  have hiter := uint32At_of_hasAt h.right.right.left (by
    have := nonce.iterations_lt
    omega)
  have hsalt := byteArrayAt_of_hasAt h.right.right.right.left (fun d hd => by
    rw [← Option.some.inj hd, nonce.salt_length]
    omega)
  have hdata := byteArrayAt_of_hasAt h.right.right.right.right (fun d hd => by
    rw [← Option.some.inj hd, hlength]
    exact hlen)
  rw [length_encode] at hsalt hdata
  rw [decryptBuffer, hcname]
  dsimp only
  rw [Option.map_some, Option.getD_some, hg.cipherName, if_neg (by decide), hmname]
  dsimp only
  rw [Option.map_some, Option.getD_some, hg.mdName, if_neg (by decide), hiter]
  dsimp only
  rw [hsalt]
  dsimp only
  rw [hdata]
  dsimp only
  rw [Option.getD_some, hlength, if_neg (by omega), hcipher]
  dsimp only
  rw [hdecrypt]

/-- The identifiers of a list, put into a table one after the other. -/
def mergeIdentifiers (identifiers : Identifiers)
    (es : List ((_ : Identifier) × UInt32)) : Identifiers :=
  es.foldl (fun identifiers entry => identifiers.insert entry.1 entry.2) identifiers

theorem lookup_mergeIdentifiers {es : List ((_ : Identifier) × UInt32)} (hnodup : es.NodupKeys)
    (identifiers : Identifiers) (id : Identifier) :
    (mergeIdentifiers identifiers es).lookup id = (es.dlookup id).or (identifiers.lookup id) := by
  induction es generalizing identifiers with
  | nil => rfl
  | cons entry es ih =>
    obtain ⟨hnot, hnodup⟩ := nodupKeys_cons.1 hnodup
    have hstep : mergeIdentifiers identifiers (entry :: es) =
      mergeIdentifiers (identifiers.insert entry.1 entry.2) es := rfl
    rw [hstep, ih hnodup]
    by_cases heq : id = entry.1
    · subst heq
      rw [dlookup_eq_none.2 hnot, AList.lookup_insert, dlookup_cons_eq]
      rfl
    · rw [AList.lookup_insert_ne heq, dlookup_cons_ne _ _ heq]

/-- The state after an index was read when no identifier was there to be checked. -/
def indexed (st : Reading) (es : List ((_ : Identifier) × UInt32)) : Reading :=
  { self := { st.self with identifiers := mergeIdentifiers st.self.identifiers es }, checks := ∅ }

theorem readIndex_of_hasAt {buffer : Bytes} {es : List ((_ : Identifier) × UInt32)}
    (h : HasAt buffer off (es.flatMap identifierBytes))
    (hids : ∀ entry ∈ es, entry.1.val.length < 0x7fffffff) (hst : st.checks = ∅) :
    readIndex buffer es.length off st = .ok (.success, indexed st es) := by
  induction es generalizing off st with
  | nil =>
    rw [indexed, ← hst]
    rfl
  | cons entry es ih =>
    rw [flatMap_cons] at h
    have hname := stringAt_of_hasAt h.left.left (hids entry mem_cons_self)
    have hsect := uint32At_of_hasAt h.left.right entry.2.toNat_lt
    have hlen : (identifierBytes entry).length =
        (byteArrayBytes (some entry.1.val)).length + 4 := by
      simp [identifierBytes]
    have hrest := h.right
    rw [hlen, ← Nat.add_assoc] at hrest
    rw [length_cons, readIndex, hname]
    dsimp only
    rw [hsect]
    dsimp only
    rw [UInt32.ofNat_toNat, ih hrest (forall_mem_cons.1 hids).2]
    · rfl
    · rw [hst]
      rfl

theorem updateFromIndexBlock_index (hids : ShortIds identifiers)
    (hlen : (indexBytes identifiers).length < 2 ^ 32) (hst : st.checks = ∅) :
    updateFromIndexBlock st (indexBytes identifiers) =
      .ok (.success, indexed st identifiers.entries) := by
  have h := hasAt_self (indexBytes identifiers)
  have hcount : identifiers.entries.length < 2 ^ 32 := by
    have hle := length_le_length_flatMap (f := identifierBytes) identifiers.entries (by
      intro entry
      simp only [identifierBytes, length_append, length_encode]
      omega)
    simp only [indexBytes, length_append] at hlen
    omega
  have hrest := h.right
  rw [length_encode] at hrest
  rw [updateFromIndexBlock, uint32At_of_hasAt h.left hcount]
  exact readIndex_of_hasAt hrest hids hst

/-! ## Reading a sequence of blocks -/

/-- The blocks are read one after the other without an error. -/
def Processes {σ : Type} (f : UInt32 → Bytes → σ → Checked (GkmDataResult × σ)) :
    List UnknownBlock → σ → σ → Prop
  | [], st, st' => st = st'
  | block :: blocks, st, st' =>
    ∃ mid, f block.type block.buffer st = .ok (.success, mid) ∧ Processes f blocks mid st'

theorem Processes.append {f : UInt32 → Bytes → σ → Checked (GkmDataResult × σ)}
    {blocks blocks' : List UnknownBlock} {st mid st' : σ} (h : Processes f blocks st mid)
    (h' : Processes f blocks' mid st') : Processes f (blocks ++ blocks') st st' := by
  induction blocks generalizing st with
  | nil =>
    cases h
    exact h'
  | cons block blocks ih =>
    obtain ⟨next, hblock, hrest⟩ := h
    exact ⟨next, hblock, ih hrest⟩

theorem Processes.single {f : UInt32 → Bytes → σ → Checked (GkmDataResult × σ)} {st st' : σ}
    (h : f block.type block.buffer st = .ok (.success, st')) :
    Processes f [block] st st' :=
  ⟨st', h, rfl⟩

theorem readAllBytes_append {xs ys : Bytes} {n : Nat} (hn : n = xs.length) :
    readAllBytes (xs ++ ys) n = some (xs, ys) := by
  subst hn
  simp [readAllBytes]

theorem nextBlock_frame (hlen : block.buffer.length + 8 < 2 ^ 32) (rest : Bytes) :
    nextBlock (frameBytes block ++ rest) = .block block.type block.buffer rest := by
  have hframe : frameBytes block ++ rest =
      (encode 4 (block.buffer.length + 8) ++ encode 4 block.type.toNat) ++
        (block.buffer ++ rest) := by
    simp only [frameBytes, append_assoc]
  have htype : eggBufferDecodeUint32 ((encode 4 (block.buffer.length + 8) ++
      encode 4 block.type.toNat).drop 4) = block.type.toNat := by
    rw [drop_left' (by simp), ← eggBufferEncodeUint32_eq, decode_encodeUint32 block.type.toNat_lt]
  rw [nextBlock, hframe, readAllBytes_append (by simp)]
  dsimp only
  rw [decode_encodeUint32_append, Nat.mod_eq_of_lt hlen, htype, UInt32.ofNat_toNat,
    blockOfLength, if_neg (by omega), readAllBytes_append (by omega)]

/-- The loop of `parse_file_blocks` over blocks that stand one after the other. -/
theorem parseBlocks_frames {f : UInt32 → Bytes → σ → Checked (GkmDataResult × σ)}
    (hsize : ∀ block ∈ blocks, block.buffer.length + 8 < 2 ^ 32) {st st' : σ}
    (h : Processes f blocks st st') {fuel : Nat} (hfuel : blocks.length < fuel) :
    parseBlocks f fuel (blocks.flatMap frameBytes) st = .ok (.success, st') := by
  induction blocks generalizing st fuel with
  | nil =>
    cases h
    cases fuel with
    | zero => rfl
    | succ fuel => rfl
  | cons block blocks ih =>
    obtain ⟨mid, hblock, hrest⟩ := h
    obtain ⟨fuel, rfl⟩ : ∃ n, fuel = n + 1 := ⟨fuel - 1, by omega⟩
    rw [flatMap_cons, parseBlocks, nextBlock_frame (hsize block mem_cons_self)]
    dsimp only
    rw [hblock, ok_bind]
    exact ih (forall_mem_cons.1 hsize).2 hrest (by simpa using hfuel)

/-! ## Blocks that are kept as they are -/

/-- A block the reader does not take apart: its type is not known, it is an index without a number
of entries, or it is a private block. -/
def UnknownBlock.Opaque (block : UnknownBlock) : Prop :=
  (block.type ≠ fileBlockIndex ∧ block.type ≠ fileBlockPrivate ∧ block.type ≠ fileBlockPublic) ∨
    (block.type = fileBlockIndex ∧ block.buffer.length < 4) ∨ block.type = fileBlockPrivate

/-- Whether there is a private block among the blocks. -/
def hasPrivate (blocks : List UnknownBlock) : Bool :=
  blocks.any fun block => block.type = fileBlockPrivate

/-- The state after blocks were kept; a private block that cannot be read locks the privates. -/
def stash (blocks : List UnknownBlock) (st : Reading) : Reading :=
  { st with self := { st.self with
    unknowns := blocks.reverse ++ st.self.unknowns
    privates := if hasPrivate blocks then none else st.self.privates
    privateSeen := st.self.privateSeen || hasPrivate blocks } }

theorem updateFromAnyBlock_stash (g : Gcrypt) (hblock : block.Opaque)
    (hlogin : block.type = fileBlockPrivate → login = none) (st : Reading) :
    updateFromAnyBlock g login block.type block.buffer st = .ok (.success, stash [block] st) := by
  rcases hblock with ⟨hi, hp, hu⟩ | ⟨hi, hlen⟩ | hp
  · have hres : updateFromBlock g login block.type block.buffer st = .ok (.unrecognized, st) := by
      rw [updateFromBlock, if_neg hi, if_neg hp, if_neg hu]
    rw [updateFromAnyBlock, hres]
    simp [stash, hasPrivate, hp]
  · have hnone : uint32At block.buffer 0 = none := by
      rw [uint32At, readAt_eq_none_iff.2 (by omega)]
      rfl
    have hres : updateFromBlock g login block.type block.buffer st = .ok (.unrecognized, st) := by
      rw [updateFromBlock, if_pos hi, updateFromIndexBlock, hnone]
      rfl
    have hp : block.type ≠ fileBlockPrivate := by
      rw [hi]
      decide
    rw [updateFromAnyBlock, hres]
    simp [stash, hasPrivate, hp]
  · have hres : updateFromBlock g login block.type block.buffer st = .ok (.unrecognized,
        { st with self := { st.self with privateSeen := true, privates := none } }) := by
      rw [updateFromBlock, hp, if_neg (by decide), if_pos rfl, hlogin hp]
      rfl
    obtain ⟨type, buffer⟩ := block
    rw [updateFromAnyBlock, hres]
    simp [stash, hasPrivate, show type = fileBlockPrivate from hp]

theorem stash_cons (block : UnknownBlock) (blocks : List UnknownBlock) (st : Reading) :
    stash (block :: blocks) st = stash blocks (stash [block] st) := by
  by_cases hp : block.type = fileBlockPrivate
  · simp [stash, hasPrivate, hp]
  · simp [stash, hasPrivate, hp]

theorem processes_stash (g : Gcrypt) (hblocks : ∀ block ∈ blocks, block.Opaque)
    (hlogin : ∀ block ∈ blocks, block.type = fileBlockPrivate → login = none) (st : Reading) :
    Processes (updateFromAnyBlock g login) blocks st (stash blocks st) := by
  induction blocks generalizing st with
  | nil => simp [Processes, stash, hasPrivate]
  | cons block blocks ih =>
    refine ⟨stash [block] st, ?_, ?_⟩
    · exact updateFromAnyBlock_stash g (hblocks block mem_cons_self) (hlogin block mem_cons_self) st
    · rw [stash_cons block blocks]
      exact ih (forall_mem_cons.1 hblocks).2
        (forall_mem_cons.1 hlogin).2 _

/-! ## The round trip -/

/-- The tables of a file agree: the entries of a section are those the index puts there, the unknown
blocks are blocks the reader does not take apart, and the privates are locked when a private block
is among them. -/
structure GkmMate2File.WellFormed (f : GkmMate2File) : Prop where
  publics : ∀ entry ∈ f.publics.entries, f.identifiers.lookup entry.1 = some sectionPublic
  privates : ∀ t, f.privates = some t → ∀ entry ∈ t.entries,
    f.identifiers.lookup entry.1 = some sectionPrivate
  unknowns : ∀ block ∈ f.unknowns, block.Opaque
  locked : f.privates = none ↔ ∃ block ∈ f.unknowns, block.type = fileBlockPrivate

/-- The limits of the format: the length of a string, of a block and of what is encrypted. -/
structure GkmMate2File.Fits (g : Gcrypt) (f : GkmMate2File) : Prop where
  ids : ShortIds f.identifiers
  index : (indexBytes f.identifiers).length + 8 < 2 ^ 32
  publics : (blockBytes g f.publics).length + 8 < 2 ^ 32
  privates : ∀ t, f.privates = some t → (paddedBytes g t).length < 0x7fffffff
  unknowns : ∀ block ∈ f.unknowns, block.buffer.length + 8 < 2 ^ 32

theorem shortIds_of_lookup {β : Type} (hids : ShortIds identifiers) {t : AList fun _ : Identifier => β}
    (h : ∀ entry ∈ t.entries, identifiers.lookup entry.1 = some sect) : ShortIds t := by
  intro entry hentry
  have hmem : (⟨entry.1, sect⟩ : (_ : Identifier) × UInt32) ∈ identifiers.entries :=
    of_mem_dlookup (h entry hentry)
  exact hids _ hmem

section Own

variable {g : Gcrypt} {self : GkmMate2File} {login : Option GkmSecret} {nonce : Nonce}
  {own : List UnknownBlock}

theorem prepared_index (hids : ShortIds self.identifiers)
    (h : Prepared g self login nonce fileBlockIndex own) :
    own = [{ type := fileBlockIndex, buffer := indexBytes self.identifiers }] := by
  rcases h with ⟨b, hb, rfl⟩ | ⟨b, hb, -⟩
  · rw [writeIndexToBlock_ok hids (fresh_initFull 8192) (Except.ok.inj hb)]
  · have hres := congrArg Prod.fst (Except.ok.inj hb)
    dsimp only [writeIndexToBlock] at hres
    split at hres
    · simp at hres
    · simp at hres

theorem writeEntriesToBlock_ne : writeEntriesToBlock g entries b ≠ .ok (.unrecognized, b') := by
  intro h
  unfold writeEntriesToBlock at h
  dsimp only at h
  split at h
  · simp at h
  · obtain ⟨⟨ok, b₁⟩, -, h⟩ := bind_eq_ok.1 h
    cases ok with
    | true => simp at h
    | false => simp at h

theorem prepared_public (hg : g.Sound) (hids : ShortIds self.publics)
    (h : Prepared g self login nonce fileBlockPublic own) :
    (∀ entry ∈ self.publics.entries, EntryFits entry) ∧
      4 + (entriesBytes self.publics).length < 2 ^ 32 ∧
      own = [{ type := fileBlockPublic, buffer := blockBytes g self.publics }] := by
  rcases h with ⟨b, hb, rfl⟩ | ⟨b, hb, -⟩
  · obtain ⟨hfits, hlen, hbuf, -⟩ := writeEntriesToBlock_ok hg hids (fresh_initFull 8192) hb
    exact ⟨hfits, hlen, by rw [hbuf]⟩
  · exact absurd hb writeEntriesToBlock_ne

/-- The private block is left out without a login, when there are no private entries in memory;
with a login it has the private entries, encrypted. -/
theorem prepared_private (hg : g.Sound) (hids : ∀ t, self.privates = some t → ShortIds t)
    (hsize : ∀ t, self.privates = some t → (paddedBytes g t).length < 0x7fffffff)
    (h : Prepared g self login nonce fileBlockPrivate own) :
    (login = none ∧ own = [] ∧ ∀ t, self.privates = some t → t.entries = []) ∨
      ∃ l t dest, login = some l ∧ self.privates = some t ∧
        (∀ entry ∈ t.entries, EntryFits entry) ∧ 4 + (entriesBytes t).length < 2 ^ 32 ∧
        Encrypts g l nonce (paddedBytes g t) dest ∧
        own = [{ type := fileBlockPrivate, buffer := cipherBytes g nonce dest }] := by
  have hprep : ∀ b, prepareBlock g self login nonce fileBlockPrivate b =
    writePrivateToBlock g self b login nonce := fun _ => rfl
  unfold Prepared at h
  simp only [hprep] at h
  cases login with
  | none =>
    left
    cases hp : self.privates with
    | none =>
      rcases h with ⟨b, hb, -⟩ | ⟨b, -, rfl⟩
      · simp [writePrivateToBlock, hp] at hb
      · exact ⟨rfl, rfl, by simp⟩
    | some t =>
      rcases h with ⟨b, hb, -⟩ | ⟨b, hb, rfl⟩
      · simp only [writePrivateToBlock, hp] at hb
        split at hb
        · simp at hb
        · simp at hb
      · refine ⟨rfl, rfl, ?_⟩
        rintro _ ⟨⟩
        simp only [writePrivateToBlock, hp] at hb
        split at hb
        · simp at hb
        · rename_i hempty
          exact length_eq_zero_iff.1 (not_not.1 hempty)
  | some l =>
    right
    cases hp : self.privates with
    | none =>
      rcases h with ⟨b, hb, -⟩ | ⟨b, hb, -⟩
      · simp [writePrivateToBlock, hp] at hb
      · simp [writePrivateToBlock, hp] at hb
    | some t =>
      -- the entries were written: what is left is whether they could be encrypted
      have hsecure : ∀ res b, writePrivateToBlock g self (eggBufferInitFull 8192 gRealloc)
          (some l) nonce = .ok (res, b) → res = .success ∨ res = .unrecognized →
          ∃ secure, writeEntriesToBlock g t (eggBufferInitFull 1024 gRealloc) =
              .ok (.success, secure) ∧
            (.ofBool (encryptBuffer g secure l nonce (eggBufferInitFull 8192 gRealloc)).1,
              (encryptBuffer g secure l nonce (eggBufferInitFull 8192 gRealloc)).2) = (res, b) := by
        intro res b hb hres
        simp only [writePrivateToBlock, hp] at hb
        obtain ⟨⟨r, secure⟩, hwrite, hb⟩ := bind_eq_ok.1 hb
        cases r with
        | success => exact ⟨secure, hwrite, Except.ok.inj hb⟩
        | unrecognized => exact absurd hwrite writeEntriesToBlock_ne
        | failure =>
          simp only [pure_eq_ok, Except.ok.injEq, Prod.mk.injEq] at hb
          rcases hres with rfl | rfl
          · simp at hb
          · simp at hb
        | locked =>
          simp only [pure_eq_ok, Except.ok.injEq, Prod.mk.injEq] at hb
          rcases hres with rfl | rfl
          · simp at hb
          · simp at hb
      have hencrypted : ∀ secure, writeEntriesToBlock g t (eggBufferInitFull 1024 gRealloc) =
          .ok (.success, secure) → (∀ entry ∈ t.entries, EntryFits entry) ∧
            4 + (entriesBytes t).length < 2 ^ 32 ∧ ∃ dest,
              Encrypts g l nonce (paddedBytes g t) dest ∧
              (encryptBuffer g secure l nonce (eggBufferInitFull 8192 gRealloc)).1 = true ∧
              (encryptBuffer g secure l nonce (eggBufferInitFull 8192 gRealloc)).2.buf =
                cipherBytes g nonce dest := by
        intro secure hwrite
        obtain ⟨hfits, hlen, hbuf, hplenty⟩ :=
          writeEntriesToBlock_ok hg (hids t hp) (fresh_initFull 1024) hwrite
        have hpadded : secure.buf ++
            padding (g.cipherGetAlgoBlklen gcryCipherAes128) secure.len = paddedBytes g t := by
          rw [EggBuffer.len, hbuf]
          rfl
        have henc := encryptBuffer_ok hg hplenty (fresh_initFull 8192) l nonce
          (by rw [hpadded]; exact hsize t hp)
        rw [hpadded] at henc
        exact ⟨hfits, hlen, henc⟩
      rcases h with ⟨b, hb, rfl⟩ | ⟨b, hb, -⟩
      · obtain ⟨secure, hwrite, heq⟩ := hsecure _ _ hb (.inl rfl)
        obtain ⟨hfits, hlen, dest, henc, -, hbuf⟩ := hencrypted secure hwrite
        refine ⟨l, t, dest, rfl, rfl, hfits, hlen, henc, ?_⟩
        have hsame : (encryptBuffer g secure l nonce (eggBufferInitFull 8192 gRealloc)).2 = b :=
          congrArg Prod.snd heq
        rw [← hsame, hbuf]
      · obtain ⟨secure, hwrite, heq⟩ := hsecure _ _ hb (.inr rfl)
        obtain ⟨-, -, dest, -, hok, -⟩ := hencrypted secure hwrite
        rw [hok] at heq
        simp [GkmDataResult.ofBool] at heq

end Own

/-- The state after a public block was read. -/
def published (st : Reading) (es : List ((_ : Identifier) × Attributes)) : Reading :=
  { st with self := { st.self with publics := mergeEntries st.self.publics es } }

/-- The state after a private block was read with a login. -/
def unlocked (st : Reading) (es : List ((_ : Identifier) × Attributes)) : Reading :=
  { st with self := { st.self with
    privateSeen := true, privates := some (mergeEntries (st.self.privates.getD ∅) es) } }

section Reading

variable {g : Gcrypt} {login : Option GkmSecret} {st : Reading}

theorem processes_index (hids : ShortIds identifiers) (hlen : (indexBytes identifiers).length < 2 ^ 32)
    (hst : st.checks = ∅) :
    Processes (updateFromAnyBlock g login)
      [{ type := fileBlockIndex, buffer := indexBytes identifiers }] st
      (indexed st identifiers.entries) := by
  apply Processes.single
  rw [updateFromAnyBlock, updateFromBlock, if_pos rfl, updateFromIndexBlock_index hids hlen hst]
  rfl

theorem processes_public (hg : g.Sound) (hids : ShortIds entries)
    (hlen : 4 + (entriesBytes entries).length < 2 ^ 32)
    (hfits : ∀ entry ∈ entries.entries, EntryFits entry)
    (hsect : ∀ entry ∈ entries.entries, st.self.identifiers.lookup entry.1 = some sectionPublic) :
    Processes (updateFromAnyBlock g login)
      [{ type := fileBlockPublic, buffer := blockBytes g entries }] st
      (published st entries.entries) := by
  apply Processes.single
  have hat := hasAt_self (blockBytes g entries)
  have hpublic : updateFromPublicBlock g st (blockBytes g entries) =
      .ok (.success, published st entries.entries) := by
    rw [updateFromPublicBlock, validateBuffer_block hg hlen hat]
    dsimp only
    rw [updateEntriesFromBlock_block hlen hat hids hsect hfits]
    rfl
  dsimp only
  rw [updateFromAnyBlock, updateFromBlock, if_neg (by decide), if_neg (by decide), if_pos rfl,
    hpublic]
  rfl

theorem processes_private (st : Reading) (hg : g.Sound) {l : GkmSecret}
    (hids : ShortIds entries) (hlen : 4 + (entriesBytes entries).length < 2 ^ 32)
    (hfits : ∀ entry ∈ entries.entries, EntryFits entry)
    (hsize : (paddedBytes g entries).length < 0x7fffffff)
    (hdest : Encrypts g l nonce (paddedBytes g entries) dest) (hsect : ∀ entry ∈ entries.entries,
      st.self.identifiers.lookup entry.1 = some sectionPrivate) :
    Processes (updateFromAnyBlock g (some l))
      [{ type := fileBlockPrivate, buffer := cipherBytes g nonce dest }] st
      (unlocked st entries.entries) := by
  apply Processes.single
  have hat : HasAt (paddedBytes g entries) 0 (blockBytes g entries) := by
    rw [paddedBytes]
    exact hasAt_append _ _
  have hmod : (paddedBytes g entries).length % g.cipherGetAlgoBlklen gcryCipherAes128 = 0 := by
    rw [paddedBytes]
    exact length_padded_mod hg.blklen_pos (blockBytes g entries)
  have hdecrypt := decryptBuffer_cipherBytes hg hdest hsize hmod
  have hloaded : updateFromDecrypted g st.seePrivate (paddedBytes g entries) =
      .ok (.success, unlocked st entries.entries) := by
    have hupdate := updateEntriesFromBlock_block hlen hat hids hsect hfits
      (st.seePrivate.self.privates.getD ∅)
    rw [updateFromDecrypted, validateBuffer_block hg hlen hat]
    dsimp only
    rw [show st.seePrivate.self.identifiers = st.self.identifiers from rfl, hupdate, ok_bind]
    rfl
  have hprivate : updateFromPrivateBlock g st (cipherBytes g nonce dest) (some l) =
      .ok (.success, unlocked st entries.entries) := by
    rw [updateFromPrivateBlock, hdecrypt, ok_bind]
    dsimp only
    rw [hloaded]
  dsimp only
  rw [updateFromAnyBlock, updateFromBlock, if_neg (by decide), if_pos rfl, hprivate]
  rfl

end Reading

/-- The state a read starts with. -/
def startRead (f : GkmMate2File) : Reading :=
  { self := { f with privateSeen := false, unknowns := [] }, checks := checksOf f.identifiers }

/-- The end of a read that went well. -/
def finishRead (st : Reading) : Checked (GkmDataResult × GkmMate2File) := do
  let self ← removeIdentifiers st.checks.keys { st.self with incomplete := false }
  if self.privates.isNone ∧ self.privateSeen = false then
    pure (.success, { self with privates := some ∅ })
  else pure (.success, self)

/-- The end of a read. -/
def endRead (end_ : GkmDataResult × Reading) : Checked (GkmDataResult × GkmMate2File) :=
  if end_.1 = .success then finishRead end_.2
  else .ok (end_.1, { end_.2.self with incomplete := true })

theorem gkmMate2FileReadFd_eq (g : Gcrypt) (f : GkmMate2File) (file : Bytes)
    (login : Option GkmSecret) :
    gkmMate2FileReadFd g f file login =
      parseFileBlocks (updateFromAnyBlock g login) file (startRead f) >>= endRead := by
  rw [gkmMate2FileReadFd]
  congr 1
  funext pair
  obtain ⟨res, st⟩ := pair
  cases res with
  | success => rfl
  | failure => rfl
  | locked => rfl
  | unrecognized => rfl

/-- A read of blocks that stand one after the other, into a new file. -/
theorem gkmMate2FileReadFd_frames
    (hsize : ∀ block ∈ blocks, block.buffer.length + 8 < 2 ^ 32)
    (h : Processes (updateFromAnyBlock g login) blocks { self := gkmMate2FileNew, checks := ∅ } st)
    (hchecks : st.checks = ∅) (hseen : st.self.privates = none → st.self.privateSeen = true) :
    gkmMate2FileReadFd g gkmMate2FileNew (fileHeader ++ blocks.flatMap frameBytes) login =
      .ok (.success, { st.self with incomplete := false }) := by
  have hfuel : blocks.length < (blocks.flatMap frameBytes).length + 1 := by
    have hle := length_le_length_flatMap (f := frameBytes) blocks (by
      intro block
      simp only [frameBytes, length_append, length_encode]
      omega)
    omega
  have hparse : parseFileBlocks (updateFromAnyBlock g login)
      (fileHeader ++ blocks.flatMap frameBytes) { self := gkmMate2FileNew, checks := ∅ } =
        .ok (.success, st) := by
    rw [parseFileBlocks, readAllBytes_append rfl]
    dsimp only
    rw [if_neg (by simp), parseBlocks_frames hsize h hfuel]
  have hstart : startRead gkmMate2FileNew = { self := gkmMate2FileNew, checks := ∅ } := rfl
  rw [gkmMate2FileReadFd_eq, hstart, hparse, ok_bind, endRead, if_pos rfl, finishRead]
  dsimp only
  rw [hchecks, AList.keys_empty, removeIdentifiers, ok_bind, if_neg]
  · rfl
  · rintro ⟨hnone, hfalse⟩
    have htrue := hseen (Option.isNone_iff_eq_none.1 hnone)
    rw [htrue] at hfalse
    simp at hfalse

theorem hasPrivate_append (xs ys : List UnknownBlock) :
    hasPrivate (xs ++ ys) = (hasPrivate xs || hasPrivate ys) := by
  simp [hasPrivate]

theorem hasPrivate_eq_false (h : ∀ block ∈ blocks, block.type ≠ fileBlockPrivate) : hasPrivate blocks = false := by
  rw [hasPrivate, any_eq_false]
  intro block hblock
  simpa using h block hblock

theorem mem_sortUnknownsByType {unknowns : List UnknownBlock} :
    block ∈ sortUnknownsByType unknowns ↔ block ∈ unknowns :=
  (perm_insertionSort _ unknowns).mem_iff

theorem lookup_indexed (hst : st.self.identifiers = ∅)
    (identifiers : Identifiers) (id : Identifier) :
    (indexed st identifiers.entries).self.identifiers.lookup id = identifiers.lookup id := by
  have h := lookup_mergeIdentifiers identifiers.nodupKeys st.self.identifiers id
  rw [hst, AList.lookup_empty, Option.or_none] at h
  rw [indexed, hst]
  exact h

theorem length_cipherBytes (hg : g.Sound) (hdest : dest.length < 0x7fffffff) :
    (cipherBytes g nonce dest).length + 8 < 2 ^ 32 := by
  have hc := hg.cipherName_length
  have hm := hg.mdName_length
  have hs := nonce.salt_length
  simp only [cipherBytes, byteArrayBytes, length_append, length_encode]
  omega

/-- The reader on the blocks of a file, up to the private block. -/
def afterIndex (f : GkmMate2File) (u₁ u₂ : List UnknownBlock) : Reading :=
  stash u₂ (indexed (stash u₁ { self := gkmMate2FileNew, checks := ∅ }) f.identifiers.entries)

/-- The reader on the blocks that follow the private block. -/
def afterPublic (f : GkmMate2File) (u₃ u₄ : List UnknownBlock) (st : Reading) : Reading :=
  stash u₄ (published (stash u₃ st) f.publics.entries)

section Written

variable {g : Gcrypt} {f : GkmMate2File} {login : Option GkmSecret}

theorem processes_afterIndex (hfit : f.Fits g) (u₁ u₂ : List UnknownBlock)
    (hkept : ∀ b ∈ u₁ ++ u₂, b.Opaque)
    (hlogin : ∀ b ∈ u₁ ++ u₂, b.type = fileBlockPrivate → login = none) :
    Processes (updateFromAnyBlock g login)
      (u₁ ++ ({ type := fileBlockIndex, buffer := indexBytes f.identifiers } :: u₂))
      { self := gkmMate2FileNew, checks := ∅ } (afterIndex f u₁ u₂) := by
  have hindex := hfit.index
  refine Processes.append (processes_stash g ?_ ?_ _) ?_
  · exact fun b hb => hkept b (mem_append_left _ hb)
  · exact fun b hb => hlogin b (mem_append_left _ hb)
  · refine Processes.append (processes_index hfit.ids (by omega) rfl) (processes_stash g ?_ ?_ _)
    · exact fun b hb => hkept b (mem_append_right _ hb)
    · exact fun b hb => hlogin b (mem_append_right _ hb)

theorem processes_afterPublic (hg : g.Sound) (hwf : f.WellFormed) (hfit : f.Fits g)
    (hlen : 4 + (entriesBytes f.publics).length < 2 ^ 32)
    (hfits : ∀ entry ∈ f.publics.entries, EntryFits entry) (u₃ u₄ : List UnknownBlock)
    (hkept : ∀ b ∈ u₃ ++ u₄, b.Opaque)
    (hlogin : ∀ b ∈ u₃ ++ u₄, b.type = fileBlockPrivate → login = none) (st : Reading)
    (hst : ∀ id, st.self.identifiers.lookup id = f.identifiers.lookup id) :
    Processes (updateFromAnyBlock g login)
      (u₃ ++ ({ type := fileBlockPublic, buffer := blockBytes g f.publics } :: u₄)) st
      (afterPublic f u₃ u₄ st) := by
  refine Processes.append (processes_stash g ?_ ?_ _) ?_
  · exact fun b hb => hkept b (mem_append_left _ hb)
  · exact fun b hb => hlogin b (mem_append_left _ hb)
  · refine Processes.append
      (processes_public hg (shortIds_of_lookup hfit.ids hwf.publics) hlen hfits ?_)
      (processes_stash g ?_ ?_ _)
    · intro entry hentry
      exact (hst entry.1).trans (hwf.publics entry hentry)
    · exact fun b hb => hkept b (mem_append_right _ hb)
    · exact fun b hb => hlogin b (mem_append_right _ hb)

theorem lookup_afterIndex (u₁ u₂ : List UnknownBlock) (id : Identifier) :
    (afterIndex f u₁ u₂).self.identifiers.lookup id = f.identifiers.lookup id :=
  lookup_indexed rfl f.identifiers id

/-- The tables and the unknown blocks that were read, given those of the private section. -/
theorem contents_afterPublic
    (hids : ∀ id, st.self.identifiers.lookup id = f.identifiers.lookup id) (hpub : st.self.publics = ∅)
    (hunk : st.self.unknowns = u₂.reverse ++ u₁.reverse)
    (hprv : (if hasPrivate (u₃ ++ u₄) then none else st.self.privates).map entryMap =
      f.privates.map entryMap) :
    (afterPublic f u₃ u₄ st).self.contents = f.contents ∧
      (afterPublic f u₃ u₄ st).self.unknowns = (u₁ ++ (u₂ ++ (u₃ ++ u₄))).reverse := by
  refine ⟨?_, ?_⟩
  · have hpublics : entryMap (afterPublic f u₃ u₄ st).self.publics = entryMap f.publics := by
      have hmerged : (afterPublic f u₃ u₄ st).self.publics =
        mergeEntries st.self.publics f.publics.entries := rfl
      rw [hmerged, hpub, entryMap_mergeEntries_empty]
    have hprivates : (afterPublic f u₃ u₄ st).self.privates =
        if hasPrivate (u₃ ++ u₄) then none else st.self.privates := by
      have hsteps : (afterPublic f u₃ u₄ st).self.privates = if hasPrivate u₄ then none
        else if hasPrivate u₃ then none else st.self.privates := rfl
      rw [hsteps, hasPrivate_append]
      cases hasPrivate u₃ with
      | true => simp
      | false => simp
    rw [GkmMate2File.contents, GkmMate2File.contents, hpublics, hprivates, hprv]
    congr
    funext id
    exact hids id
  · have hunknowns : (afterPublic f u₃ u₄ st).self.unknowns =
      u₄.reverse ++ (u₃.reverse ++ st.self.unknowns) := rfl
    rw [hunknowns, hunk]
    simp

theorem hasPrivate_iff :
    hasPrivate blocks = true ↔ ∃ block ∈ blocks, block.type = fileBlockPrivate := by
  simp [hasPrivate]

section

variable (hg : g.Sound) (hwf : f.WellFormed) (hfit : f.Fits g)
  (hlen : 4 + (entriesBytes f.publics).length < 2 ^ 32) (hfits : ∀ entry ∈ f.publics.entries, EntryFits entry)
  (hsorted : sortUnknownsByType f.unknowns = u₁ ++ (u₂ ++ (u₃ ++ u₄)))

include hg hwf hfit hlen hfits hsorted

/-- Without a login: the unknown blocks come back as they are, and lock the privates if there is a
private block among them. -/
theorem read_of_written_locked (hempty : ∀ t, f.privates = some t → t.entries = []) :
    ∃ st, Processes (updateFromAnyBlock g none)
        ((u₁ ++ ({ type := fileBlockIndex, buffer := indexBytes f.identifiers } :: u₂)) ++
          (u₃ ++ ({ type := fileBlockPublic, buffer := blockBytes g f.publics } :: u₄)))
        { self := gkmMate2FileNew, checks := ∅ } st ∧ st.checks = ∅ ∧
      (st.self.privates = none → st.self.privateSeen = true) ∧ st.self.contents = f.contents ∧
      st.self.unknowns = (u₁ ++ (u₂ ++ (u₃ ++ u₄))).reverse := by
  have hkept : ∀ b, b ∈ u₁ ++ (u₂ ++ (u₃ ++ u₄)) → b.Opaque := by
    intro b hb
    rw [← hsorted] at hb
    exact hwf.unknowns b (mem_sortUnknownsByType.1 hb)
  have hlogin : ∀ us : List UnknownBlock, ∀ b ∈ us, b.type = fileBlockPrivate →
      (none : Option GkmSecret) = none := fun _ _ _ _ => rfl
  have hfirst := processes_afterIndex hfit u₁ u₂
    (fun b hb => hkept b (by rw [← append_assoc]; exact mem_append_left _ hb))
    (hlogin _)
  have hsecond := processes_afterPublic hg hwf hfit hlen hfits u₃ u₄
    (fun b hb => hkept b (by rw [← append_assoc]; exact mem_append_right _ hb))
    (hlogin _) _ (lookup_afterIndex u₁ u₂)
  refine ⟨_, hfirst.append hsecond, rfl, ?_, ?_⟩
  · intro hnone
    have hprivates : (afterPublic f u₃ u₄ (afterIndex f u₁ u₂)).self.privates =
      if hasPrivate u₄ then none else if hasPrivate u₃ then none
        else if hasPrivate u₂ then none else if hasPrivate u₁ then none else some ∅ := rfl
    have hseen : (afterPublic f u₃ u₄ (afterIndex f u₁ u₂)).self.privateSeen =
      (((false || hasPrivate u₁) || hasPrivate u₂) || hasPrivate u₃ || hasPrivate u₄) := rfl
    rw [hprivates] at hnone
    rw [hseen]
    cases h₄ : hasPrivate u₄ with
    | true => simp
    | false =>
      cases h₃ : hasPrivate u₃ with
      | true => simp
      | false =>
        cases h₂ : hasPrivate u₂ with
        | true => simp
        | false =>
          cases h₁ : hasPrivate u₁ with
          | true => simp
          | false => simp [h₁, h₂, h₃, h₄] at hnone
  · apply contents_afterPublic
    · exact lookup_afterIndex u₁ u₂
    · rfl
    · show u₂.reverse ++ (u₁.reverse ++ []) = _
      rw [append_nil]
    · have hprivates : (afterIndex f u₁ u₂).self.privates =
        if hasPrivate u₂ then none else if hasPrivate u₁ then none else some ∅ := rfl
      have hany : (hasPrivate u₁ || (hasPrivate u₂ || hasPrivate (u₃ ++ u₄))) = true ↔
          f.privates = none := by
        rw [hwf.locked, ← hasPrivate_append, ← hasPrivate_append, ← hsorted, hasPrivate_iff]
        constructor
        · rintro ⟨b, hb, htype⟩
          exact ⟨b, mem_sortUnknownsByType.1 hb, htype⟩
        · rintro ⟨b, hb, htype⟩
          exact ⟨b, mem_sortUnknownsByType.2 hb, htype⟩
      rw [hprivates]
      cases hp : f.privates with
      | none =>
        have htrue := hany.2 hp
        cases h₃ : hasPrivate (u₃ ++ u₄) with
        | true => rfl
        | false =>
          cases h₂ : hasPrivate u₂ with
          | true => rfl
          | false =>
            rw [h₂, h₃, Bool.or_false, Bool.or_false] at htrue
            rw [htrue]
            rfl
      | some t =>
        have hnot : ¬ (hasPrivate u₁ || (hasPrivate u₂ || hasPrivate (u₃ ++ u₄))) = true := by
          intro h
          rw [hany.1 h] at hp
          simp at hp
        simp only [Bool.or_eq_true, not_or, Bool.not_eq_true] at hnot
        obtain ⟨h₁, h₂, h₃⟩ := hnot
        rw [h₁, h₂, h₃]
        have ht : t = ∅ := AList.ext (hempty t hp)
        rw [ht]
        rfl

/-- With a login: the private block is decrypted and its entries come back. -/
theorem read_of_written_unlocked {l : GkmSecret} {t : Entries}
    (ht : f.privates = some t) (htlen : 4 + (entriesBytes t).length < 2 ^ 32)
    (htfits : ∀ entry ∈ t.entries, EntryFits entry) (hdest : Encrypts g l nonce (paddedBytes g t) dest) :
    ∃ st, Processes (updateFromAnyBlock g (some l))
        ((u₁ ++ ({ type := fileBlockIndex, buffer := indexBytes f.identifiers } :: u₂)) ++
          ({ type := fileBlockPrivate, buffer := cipherBytes g nonce dest } ::
          (u₃ ++ ({ type := fileBlockPublic, buffer := blockBytes g f.publics } :: u₄))))
        { self := gkmMate2FileNew, checks := ∅ } st ∧ st.checks = ∅ ∧
      (st.self.privates = none → st.self.privateSeen = true) ∧ st.self.contents = f.contents ∧
      st.self.unknowns = (u₁ ++ (u₂ ++ (u₃ ++ u₄))).reverse := by
  have hunk : ∀ b, b ∈ u₁ ++ (u₂ ++ (u₃ ++ u₄)) → b.Opaque ∧ b.type ≠ fileBlockPrivate := by
    intro b hb
    rw [← hsorted] at hb
    have hmem := mem_sortUnknownsByType.1 hb
    refine ⟨hwf.unknowns b hmem, ?_⟩
    intro htype
    have hnone := hwf.locked.2 ⟨b, hmem, htype⟩
    rw [ht] at hnone
    simp at hnone
  have hleft : ∀ b, b ∈ u₁ ++ u₂ → b.Opaque ∧ b.type ≠ fileBlockPrivate := by
    intro b hb
    exact hunk b (by rw [← append_assoc]; exact mem_append_left _ hb)
  have hright : ∀ b, b ∈ u₃ ++ u₄ → b.Opaque ∧ b.type ≠ fileBlockPrivate := by
    intro b hb
    exact hunk b (by rw [← append_assoc]; exact mem_append_right _ hb)
  have hleftLogin : ∀ b ∈ u₁ ++ u₂, b.type = fileBlockPrivate → some l = none :=
    fun b hb htype => absurd htype (hleft b hb).2
  have hrightLogin : ∀ b ∈ u₃ ++ u₄, b.type = fileBlockPrivate → some l = none :=
    fun b hb htype => absurd htype (hright b hb).2
  have hfirst := processes_afterIndex hfit u₁ u₂ (fun b hb => (hleft b hb).1) hleftLogin
  have hmiddle := processes_private (afterIndex f u₁ u₂) hg
    (shortIds_of_lookup hfit.ids (hwf.privates t ht)) htlen htfits (hfit.privates t ht) hdest
    (fun entry hentry => (lookup_afterIndex u₁ u₂ entry.1).trans (hwf.privates t ht entry hentry))
  have hsecond := processes_afterPublic hg hwf hfit hlen hfits u₃ u₄ (fun b hb => (hright b hb).1)
    hrightLogin (unlocked (afterIndex f u₁ u₂) t.entries) (lookup_afterIndex u₁ u₂)
  have hnone₁ : hasPrivate u₁ = false :=
    hasPrivate_eq_false fun b hb => (hleft b (mem_append_left _ hb)).2
  have hnone₂ : hasPrivate u₂ = false :=
    hasPrivate_eq_false fun b hb => (hleft b (mem_append_right _ hb)).2
  have hnone₃ : hasPrivate (u₃ ++ u₄) = false := hasPrivate_eq_false fun b hb => (hright b hb).2
  have hprivates : (afterIndex f u₁ u₂).self.privates = some ∅ := by
    show (if hasPrivate u₂ then none else if hasPrivate u₁ then none else some ∅) = some ∅
    rw [hnone₁, hnone₂]
    rfl
  refine ⟨_, hfirst.append (Processes.append hmiddle hsecond), rfl, ?_, ?_⟩
  · intro _
    show (true || hasPrivate u₃ || hasPrivate u₄) = true
    simp
  · apply contents_afterPublic
    · exact lookup_afterIndex u₁ u₂
    · rfl
    · show u₂.reverse ++ (u₁.reverse ++ []) = _
      rw [append_nil]
    · have hloaded : (unlocked (afterIndex f u₁ u₂) t.entries).self.privates =
        some (mergeEntries ((afterIndex f u₁ u₂).self.privates.getD ∅) t.entries) := rfl
      rw [hnone₃, hloaded, hprivates, ht]
      simp [entryMap_mergeEntries_empty]

end

end Written

section Sample

/-- The name of SHA256. -/
def sampleMdName : CString := ⟨[83, 72, 65, 50, 53, 54], by decide⟩

/-- The name of AES128. -/
def sampleCipherName : CString := ⟨[65, 69, 83], by decide⟩

/-- One entry with one attribute. -/
def sampleEntries (id : Identifier) (value : Bytes) : Entries :=
  AList.singleton id (AList.singleton 3 value)

/-- `a.cer`. -/
def samplePublicId : Identifier := ⟨[97, 46, 99, 101, 114], by decide⟩

/-- `b.pkcs8`. -/
def samplePrivateId : Identifier := ⟨[98, 46, 112, 107, 99, 115, 56], by decide⟩

/-- SHA256 of the public entries of the sample. -/
def samplePublicHash : Bytes :=
  [113, 38, 165, 13, 239, 106, 245, 15, 93, 133, 44, 209, 16, 173, 35, 192, 153, 84, 208, 160,
    111, 182, 114, 207, 142, 231, 15, 170, 242, 187, 247, 96]

/-- SHA256 of the private entries of the sample. -/
def samplePrivateHash : Bytes :=
  [170, 80, 200, 154, 25, 129, 131, 229, 177, 111, 178, 74, 177, 207, 5, 197, 84, 240, 70, 13,
    226, 22, 201, 5, 53, 52, 114, 207, 145, 134, 177, 102]

/-- The private block of the sample, padded. -/
def samplePadded : Bytes :=
  hashedBytes (sampleEntries samplePrivateId [66]) ++ (byteArrayBytes (some sampleMdName.val) ++
    byteArrayBytes (some samplePrivateHash)) ++ replicate 14 0

/-- AES128 of the private block of the sample, with the key for the password `pw`. -/
def sampleEncrypted : Bytes :=
  [175, 176, 112, 105, 155, 204, 217, 26, 171, 101, 49, 200, 142, 77, 85, 156, 131, 32, 162, 122,
    216, 236, 162, 225, 23, 165, 42, 174, 136, 166, 31, 103, 63, 249, 72, 35, 4, 131, 69, 44, 43,
    186, 242, 236, 28, 129, 49, 168, 45, 96, 3, 174, 63, 211, 175, 150, 192, 232, 35, 225, 168,
    132, 68, 176, 27, 102, 91, 31, 201, 170, 195, 224, 164, 44, 178, 54, 137, 23, 159, 231, 47,
    73, 138, 65, 174, 30, 51, 77, 157, 156, 62, 225, 170, 93, 132, 182]

/-- libgcrypt on the sample. -/
def sampleGcrypt : Gcrypt where
  mdAlgoName := fun _ => sampleMdName
  mdMapName := fun name => if name = sampleMdName then gcryMdSha256 else 0
  mdGetAlgoDlen := fun algo => if algo = gcryMdSha256 then 32 else 0
  mdHashBuffer := fun _ data =>
    if data = hashedBytes (sampleEntries samplePublicId [65]) then samplePublicHash
    else if data = hashedBytes (sampleEntries samplePrivateId [66]) then samplePrivateHash
    else replicate 32 0
  cipherAlgoName := fun _ => sampleCipherName
  cipherMapName := fun name => if name = sampleCipherName then gcryCipherAes128 else 0
  cipherGetAlgoBlklen := fun algo => if algo = gcryCipherAes128 then 16 else 0
  symkeyGenerateSimple := fun _ _ _ _ iterations =>
    if iterations = 0 then none
    else
      some ([13, 247, 133, 253, 195, 173, 124, 170, 204, 13, 255, 157, 38, 208, 153, 111],
        [154, 42, 71, 5, 126, 179, 163, 110, 109, 167, 161, 70, 168, 137, 64, 97])
  cipherEncrypt := fun _ _ data => some (Equiv.swap samplePadded sampleEncrypted data)
  cipherDecrypt := fun _ _ data => some (Equiv.swap samplePadded sampleEncrypted data)

theorem sampleGcrypt_sound : sampleGcrypt.Sound where
  mdName := by decide +kernel
  mdName_length := by decide +kernel
  dlen_pos := by decide +kernel
  dlen_lt := by decide +kernel
  hash_length := by
    intro data
    show (if _ then samplePublicHash else if _ then samplePrivateHash else _).length = 32
    split
    · rfl
    · split
      · rfl
      · rfl
  cipherName := by decide +kernel
  cipherName_length := by decide +kernel
  blklen_pos := by decide +kernel
  symkey := by
    intro password salt iterations hpos
    show (if iterations = 0 then none else some _).isSome = true
    rw [if_neg (by omega)]
    rfl
  encrypt := by
    intro cipher data _
    refine ⟨_, rfl, ?_, ?_⟩
    · rw [Equiv.swap_apply_def]
      split
      · rename_i h
        rw [h]
        decide +kernel
      · split
        · rename_i h
          rw [h]
          decide +kernel
        · rfl
    · exact congrArg some (DFunLike.congr_fun (Equiv.swap_swap samplePadded sampleEncrypted) data)

/-- A public and a private entry, and two blocks that are not known. -/
def sampleFile : GkmMate2File where
  identifiers := (AList.singleton samplePublicId sectionPublic).insert samplePrivateId sectionPrivate
  privates := some (sampleEntries samplePrivateId [66])
  publics := sampleEntries samplePublicId [65]
  unknowns := [{ type := 1, buffer := [7] }, { type := 2, buffer := [] }]
  privateSeen := true
  incomplete := false

/-- The password `pw`. -/
def sampleLogin : GkmSecret := { password := [112, 119] }

def sampleNonce : Nonce where
  salt := [1, 2, 3, 4, 5, 6, 7, 8]
  iterations := 1000
  salt_length := rfl
  iterations_pos := by decide
  iterations_lt := by decide

/-- A new file. -/
def emptyFd : OutFd := { written := [], calls := 0, failsAfter := fun _ => none }

theorem sampleFile_wellFormed : sampleFile.WellFormed where
  publics := by decide +kernel
  privates := by
    intro t ht
    cases ht
    decide +kernel
  unknowns := by
    intro block hblock
    left
    revert block
    decide +kernel
  locked := by
    constructor
    · intro h
      simp [sampleFile] at h
    · intro h
      revert h
      decide +kernel

theorem sampleFile_fits : sampleFile.Fits sampleGcrypt where
  ids := by
    rw [ShortIds]
    decide +kernel
  index := by decide +kernel
  publics := by decide +kernel
  privates := by
    intro t ht
    cases ht
    decide +kernel
  unknowns := by decide +kernel

end Sample

end MateKeyring.Mate2
