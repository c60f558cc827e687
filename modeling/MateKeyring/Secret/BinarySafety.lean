import MateKeyring.Secret.BinaryAccesses

/-!
# When the read of a binary keyring is safe

Four lengths and numbers of a file are not looked at before they are used: that of the file itself behind the
15 bytes that are compared, that of the items, that of the encrypted part, and that of what is decrypted. Besides, a
table of attributes is used when it is freed if the attributes of an item cannot be read. In all other files the
reader of `Secret.Accesses` has no fault (`binary_read_safe_iff`).
-/

set_option autoImplicit false

namespace MateKeyring.Secret.Accesses

open Lib Egg List
open Mate2 (GkmDataResult)

variable {text : Bytes} {sdata : Option GkmSecretData}

/-! ## When the lengths fit -/

/-- The file has this header, and the items begin at this offset. -/
structure HasHeader (data : Bytes) (header : Header) (offset : Nat) : Prop where
  magic : data.take 15 = keyringFileHeader
  version : (data.drop 15).take 4 = [0, 0, 0, 0]
  header : Secret.readHeader data 19 = some (header, offset)

/-- Behind the header there are these items and the length of an encrypted part of whole blocks. -/
structure HasItems (data : Bytes) (header : Header) (offset : Nat) (items : List ItemInfo) (size start : Nat) :
    Prop where
  items : ∃ next, Secret.readHashedItemInfo data header.numItems offset = some (items, next) ∧
    uint32At data next = some (size, start)
  blocks : size % 16 = 0

/-- The encrypted part is there, with memory for a copy of it. -/
def CopyFits (secureRealloc : EggBufferAllocator) (data : Bytes) (size start : Nat) : Prop :=
  start + size ≤ data.length ∧ (0 < size → secureRealloc 0 size = true)

/-- What is decrypted has room for the digest, and if that is right, all attributes in it can be read. -/
def DecryptedFits (g : Gcrypt) (sdata : Option GkmSecretData) (header : Header) (text : Bytes)
    (items : List ItemInfo) : Prop :=
  ∀ sd cipher plain, sdata = some sd →
    g.symkeyGenerateSimple (sd.master.bind (·.memory)) header.salt header.hashIterations = some cipher →
    g.cipherDecrypt cipher text = some plain →
    text ≠ [] ∧ (plain.take 16 = g.md5.hash (plain.drop 16) → AttributesWhole plain items 16)

/-- The lengths and numbers of the file fit. -/
structure ReadFits (g : Gcrypt) (secureRealloc : EggBufferAllocator) (sdata : Option GkmSecretData)
    (data : Bytes) : Prop where
  version : data.take 15 = keyringFileHeader → 19 ≤ data.length
  count : ∀ header offset, HasHeader data header offset →
    header.numItems < intLimit ∧ HashedCounted data header.numItems offset
  copy : ∀ header offset items size start, HasHeader data header offset →
    HasItems data header offset items size start → CopyFits secureRealloc data size start
  decrypted : ∀ header offset items size start, HasHeader data header offset →
    HasItems data header offset items size start →
      DecryptedFits g sdata header ((data.drop start).take size) items

/-- The read of a binary keyring has no access outside, no number that wraps around, no null pointer that is
followed and no failed assertion. -/
def ReadSafe (g : Gcrypt) (secureRealloc : EggBufferAllocator) (st : Loading) (data : Bytes) : Prop :=
  ∃ r, gkmSecretBinaryRead g secureRealloc st data = .ok r

variable {g : Gcrypt} {secureRealloc : EggBufferAllocator} {st : Loading} {data : Bytes}

/-- Decryption is in place. -/
def InPlace (g : Gcrypt) : Prop :=
  ∀ cipher text plain, g.cipherDecrypt cipher text = some plain → plain.length = text.length

theorem decryptBuffer_some {buffer : Bytes} (hblocks : buffer.length % 16 = 0) {master : Option GkmSecret}
    {salt : Bytes} {iterations : Nat} :
    decryptBuffer g buffer master salt iterations =
      .ok ((g.symkeyGenerateSimple (master.bind (·.memory)) salt iterations).bind fun cipher =>
        g.cipherDecrypt cipher buffer) := by
  rw [decryptBuffer, cAssert_of_true hblocks, ok_bind]
  cases g.symkeyGenerateSimple (master.bind (·.memory)) salt iterations <;> rfl

theorem readEncrypted_eq (hplace : InPlace g) (sdata : Option GkmSecretData) (header : Header)
    (hsmall : text.length < intLimit) (hblocks : text.length % 16 = 0) (items : List ItemInfo) :
    readEncrypted g sdata header text items = Secret.readEncrypted g sdata header text items := by
  cases sdata with
  | none => rfl
  | some sd =>
    rw [readEncrypted, Secret.readEncrypted]
    rw [decryptBuffer_some hblocks, ok_bind, ok_bind]
    cases hplain : (g.symkeyGenerateSimple (sd.master.bind (·.memory)) header.salt header.hashIterations).bind
        fun cipher => g.cipherDecrypt cipher text with
    | none => rfl
    | some plain =>
      obtain ⟨cipher, -, hdecrypt⟩ := Option.bind_eq_some_iff.1 hplain
      have hlength := hplace cipher text plain hdecrypt
      have hlarge : intLimit < 2 ^ 64 := Nat.pow_lt_pow_right (by decide) (by decide)
      have hread := @readFull_eq (eggBufferInitStatic plain)
        (show plain.length < 2 ^ 64 by omega) (show plain.length < intLimit by omega) items 0 16 (Nat.zero_le _)
      dsimp only
      rw [hread]
      rfl

theorem readEncrypted_ok_iff (hplace : InPlace g) (sdata : Option GkmSecretData) (header : Header)
    (hblocks : text.length % 16 = 0) (items : List ItemInfo) :
    (∃ r, Secret.readEncrypted g sdata header text items = .ok r) ↔ DecryptedFits g sdata header text items := by
  cases sdata with
  | none => exact iff_of_true ⟨_, rfl⟩ fun sd cipher plain h => nomatch h
  | some sd =>
    rw [Secret.readEncrypted, DecryptedFits]
    rw [decryptBuffer_some hblocks, ok_bind]
    cases hcipher : g.symkeyGenerateSimple (sd.master.bind (·.memory)) header.salt header.hashIterations with
    | none =>
      refine iff_of_true ⟨_, rfl⟩ ?_
      intro sd' cipher plain hsd hcipher'
      cases hsd
      exact nomatch hcipher.symm.trans hcipher'
    | some cipher =>
      rw [Option.bind_some]
      cases hplain : g.cipherDecrypt cipher text with
      | none =>
        refine iff_of_true ⟨_, rfl⟩ ?_
        intro sd' cipher' plain hsd hcipher' hplain'
        cases hsd
        cases hcipher.symm.trans hcipher'
        exact nomatch hplain.symm.trans hplain'
      | some plain =>
        have hlength := hplace cipher text plain hplain
        have hunique : (∀ sd' cipher' plain', some sd = some sd' →
            g.symkeyGenerateSimple (sd'.master.bind (·.memory)) header.salt header.hashIterations = some cipher' →
            g.cipherDecrypt cipher' text = some plain' →
            text ≠ [] ∧ (plain'.take 16 = g.md5.hash (plain'.drop 16) → AttributesWhole plain' items 16)) ↔
            (text ≠ [] ∧ (plain.take 16 = g.md5.hash (plain.drop 16) → AttributesWhole plain items 16)) := by
          constructor
          · intro h
            exact h sd cipher plain rfl hcipher hplain
          · rintro h sd' cipher' plain' ⟨⟩ hcipher' hplain'
            cases hcipher.symm.trans hcipher'
            cases hplain.symm.trans hplain'
            exact h
        rw [hunique]
        dsimp only
        by_cases hempty : text = []
        · -- there is no room for the digest
          have hshort : plain.length < 16 := by
            rw [hlength, hempty]
            decide
          rw [verifyDecryptedBuffer, if_pos hshort]
          exact iff_of_false (fun ⟨r, h⟩ => nomatch h) fun h => h.1 hempty
        · have hpos := length_pos_iff.2 hempty
          have hroom : ¬ plain.length < 16 := by omega
          rw [verifyDecryptedBuffer, if_neg hroom, ok_bind, and_iff_right hempty]
          by_cases hdigest : plain.take 16 = g.md5.hash (plain.drop 16)
          · rw [if_pos (beq_iff_eq.2 hdigest), forall_prop_of_true hdigest, ← readFull_ok_iff]
            constructor
            · rintro ⟨r, h⟩
              obtain ⟨rest, hrest, -⟩ := bind_eq_ok.1 h
              exact ⟨rest, hrest⟩
            · rintro ⟨rest, hrest⟩
              rw [hrest]
              cases rest with
              | none => exact ⟨_, rfl⟩
              | some rest => exact ⟨_, rfl⟩
          · rw [if_neg (fun h => hdigest (beq_iff_eq.1 h))]
            exact iff_of_true ⟨_, rfl⟩ fun h => absurd h hdigest

theorem buf_static (data : Bytes) : (eggBufferInitStatic data).buf = data := rfl

theorem len_static (data : Bytes) : (eggBufferInitStatic data).len = data.length := rfl

theorem peek_static {offset n : Nat} (h : offset + n ≤ data.length) :
    (eggBufferInitStatic data).peek offset n = .ok ((data.drop offset).take n) := if_pos h

theorem peek_static_beyond {offset n : Nat} (h : ¬ offset + n ≤ data.length) :
    (eggBufferInitStatic data).peek offset n = .error .outOfBounds := if_neg h

/-- The encrypted part is copied, just if it is there and there is memory for it. -/
theorem copyToDecrypt_ok_iff (size start : Nat) :
    (∃ text, copyToDecrypt secureRealloc (eggBufferInitStatic data) start size = .ok text) ↔
      CopyFits secureRealloc data size start := by
  have hreserve : 0 < size → (eggBufferReserve (emptyBuffer secureRealloc) size).1 = secureRealloc 0 size := by
    intro hpos
    have hnew : newlen 0 size = size := by
      rw [newlen, if_pos (by omega)]
      omega
    rw [eggBufferReserve, emptyBuffer, if_neg (Nat.not_lt_zero _)]
    dsimp only
    rw [hnew]
    cases secureRealloc 0 size <;> rfl
  rw [copyToDecrypt, CopyFits]
  by_cases hrefused : 0 < size ∧ secureRealloc 0 size = false
  · rw [if_pos ⟨(hreserve hrefused.1).trans hrefused.2, hrefused.1⟩]
    refine iff_of_false (fun ⟨r, h⟩ => nomatch h) fun h => ?_
    exact Bool.false_ne_true (hrefused.2.symm.trans (h.2 hrefused.1))
  · have hgiven : 0 < size → secureRealloc 0 size = true := fun hpos =>
      Bool.of_not_eq_false fun hf => hrefused ⟨hpos, hf⟩
    have hno : ¬ ((eggBufferReserve (emptyBuffer secureRealloc) size).1 = false ∧ 0 < size) := fun h =>
      hrefused ⟨h.2, (hreserve h.2).symm.trans h.1⟩
    rw [if_neg hno, and_iff_left hgiven]
    by_cases hin : start + size ≤ data.length
    · rw [peek_static hin]
      exact iff_of_true ⟨_, rfl⟩ hin
    · rw [peek_static_beyond hin]
      exact iff_of_false (fun ⟨r, h⟩ => nomatch h) hin

theorem of_copyToDecrypt {size start : Nat}
    (h : copyToDecrypt secureRealloc (eggBufferInitStatic data) start size = .ok text) :
    text = (data.drop start).take size ∧ text.length = size := by
  have hin := ((copyToDecrypt_ok_iff size start).1 ⟨text, h⟩).1
  rw [copyToDecrypt] at h
  split at h
  · exact nomatch h
  · rw [peek_static hin] at h
    cases h
    refine ⟨rfl, ?_⟩
    rw [length_take, length_drop]
    omega

theorem copied_small (hsecure : ∀ k n, secureRealloc k n = true → n < intLimit) {size start : Nat}
    (h : copyToDecrypt secureRealloc (eggBufferInitStatic data) start size = .ok text) :
    text.length < intLimit := by
  have hgiven := ((copyToDecrypt_ok_iff size start).1 ⟨text, h⟩).2
  rw [(of_copyToDecrypt h).2]
  rcases Nat.eq_zero_or_pos size with hzero | hpos
  · rw [hzero]
    exact intLimit_pos
  · exact hsecure 0 size (hgiven hpos)

/-- The items are read without a fault, just if the numbers and lengths behind the header fit. -/
theorem readItems_ok_iff (hdata : data.length < 2 ^ 64) (hplace : InPlace g)
    (hsecure : ∀ k n, secureRealloc k n = true → n < intLimit) {header : Header} {offset : Nat}
    (hcount : header.numItems < intLimit) :
    (∃ r, readItems g secureRealloc st (eggBufferInitStatic data) header offset = .ok r) ↔
      HashedCounted data header.numItems offset ∧
        ∀ items size start, HasItems data header offset items size start →
          CopyFits secureRealloc data size start ∧
            DecryptedFits g st.sdata header ((data.drop start).take size) items := by
  have hb : (eggBufferInitStatic data).buf.length < 2 ^ 64 := hdata
  rw [readItems]
  by_cases hcounted : HashedCounted data header.numItems offset
  · rw [readHashed_eq hb (by omega) hcounted, ok_bind, and_iff_right hcounted, buf_static]
    cases hitems : Secret.readHashedItemInfo data header.numItems offset with
    | none =>
      refine iff_of_true ⟨_, rfl⟩ ?_
      rintro items size start ⟨⟨next, hitems', -⟩, -⟩
      exact nomatch hitems.symm.trans hitems'
    | some r =>
      obtain ⟨items, next⟩ := r
      dsimp only
      rw [(readsAs_uint32 hb next).eq, ok_bind, buf_static]
      cases hsize : uint32At data next with
      | none =>
        refine iff_of_true ⟨_, rfl⟩ ?_
        rintro items' size start ⟨⟨next', hitems', hsize'⟩, -⟩
        cases hitems.symm.trans hitems'
        exact nomatch hsize.symm.trans hsize'
      | some r =>
        obtain ⟨size, start⟩ := r
        dsimp only
        by_cases hblocks : size % 16 = 0
        · rw [if_neg (not_not.2 hblocks)]
          have hunique : (∀ items' size' start', HasItems data header offset items' size' start' →
              CopyFits secureRealloc data size' start' ∧
                DecryptedFits g st.sdata header ((data.drop start').take size') items') ↔
              CopyFits secureRealloc data size start ∧
                DecryptedFits g st.sdata header ((data.drop start).take size) items := by
            constructor
            · intro h
              exact h items size start ⟨⟨next, hitems, hsize⟩, hblocks⟩
            · rintro h items' size' start' ⟨⟨next', hitems', hsize'⟩, -⟩
              cases hitems.symm.trans hitems'
              cases hsize.symm.trans hsize'
              exact h
          rw [hunique, ← copyToDecrypt_ok_iff]
          cases hcopy : copyToDecrypt secureRealloc (eggBufferInitStatic data) start size with
          | error fault => exact iff_of_false (fun ⟨r, h⟩ => nomatch h) fun ⟨⟨text, h⟩, _⟩ => nomatch h
          | ok text =>
            obtain ⟨htext, hlength⟩ := of_copyToDecrypt hcopy
            have hsmall := copied_small hsecure hcopy
            rw [← htext, ok_bind, readEncrypted_eq hplace st.sdata header hsmall (by rw [hlength]; exact hblocks),
              ← readEncrypted_ok_iff hplace st.sdata header (by rw [hlength]; exact hblocks),
              and_iff_right ⟨text, rfl⟩]
            constructor
            · rintro ⟨r, h⟩
              obtain ⟨read, hread, -⟩ := bind_eq_ok.1 h
              exact ⟨read, hread⟩
            · rintro ⟨read, hread⟩
              rw [hread, ok_bind]
              cases read with
              | error res => exact ⟨_, rfl⟩
              | ok items =>
                dsimp only
                rw [countItems_ok (by omega)]
                exact ⟨_, rfl⟩
        · rw [if_pos hblocks]
          refine iff_of_true ⟨_, rfl⟩ ?_
          rintro items' size' start' ⟨⟨next', hitems', hsize'⟩, hblocks'⟩
          cases hitems.symm.trans hitems'
          cases hsize.symm.trans hsize'
          exact absurd hblocks' hblocks
  · refine iff_of_false ?_ fun h => hcounted h.1
    rintro ⟨r, h⟩
    obtain ⟨read, hread, -⟩ := bind_eq_ok.1 h
    exact hcounted (counted_of_readHashed hb (by omega) hread)

theorem length_of_magic (h : data.take 15 = keyringFileHeader) : 15 ≤ data.length := by
  have hlength := congrArg List.length h
  have hheader : keyringFileHeader.length = 15 := by decide
  rw [length_take, hheader] at hlength
  omega

/-! ## Safe, and not -/

theorem fits_of_no_header (hversion : data.take 15 = keyringFileHeader → 19 ≤ data.length)
    (h : ∀ header offset, ¬ HasHeader data header offset) : ReadFits g secureRealloc sdata data where
  version := hversion
  count header offset hheader := absurd hheader (h header offset)
  copy header offset _ _ _ hheader := absurd hheader (h header offset)
  decrypted header offset _ _ _ hheader := absurd hheader (h header offset)

theorem fits_iff_of_header (hversion : 19 ≤ data.length) {header : Header}
    {offset : Nat} (hheader : HasHeader data header offset) :
    ReadFits g secureRealloc sdata data ↔
      header.numItems < intLimit ∧ HashedCounted data header.numItems offset ∧
        ∀ items size start, HasItems data header offset items size start →
          CopyFits secureRealloc data size start ∧
            DecryptedFits g sdata header ((data.drop start).take size) items := by
  constructor
  · intro h
    obtain ⟨hcount, hhashed⟩ := h.count header offset hheader
    exact ⟨hcount, hhashed, fun items size start hitems =>
      ⟨h.copy header offset items size start hheader hitems, h.decrypted header offset items size start hheader hitems⟩⟩
  · rintro ⟨hcount, hhashed, hitems⟩
    -- there is one header only
    have hunique : ∀ header' offset', HasHeader data header' offset' → header' = header ∧ offset' = offset := by
      intro header' offset' h'
      cases hheader.header.symm.trans h'.header
      exact ⟨rfl, rfl⟩
    refine ⟨fun _ => hversion, ?_, ?_, ?_⟩
    · intro header' offset' h'
      obtain ⟨rfl, rfl⟩ := hunique header' offset' h'
      exact ⟨hcount, hhashed⟩
    · intro header' offset' items size start h' hitems'
      obtain ⟨rfl, rfl⟩ := hunique header' offset' h'
      exact (hitems items size start hitems').1
    · intro header' offset' items size start h' hitems'
      obtain ⟨rfl, rfl⟩ := hunique header' offset' h'
      exact (hitems items size start hitems').2

/-- The read of a binary keyring is safe, just if the version is there, the items and their hashed attributes are
not more than an `int` counts, the encrypted part is there with memory for a copy of it, what is decrypted has room
for a digest, and the attributes in it can be read. -/
theorem binary_read_safe_iff (st : Loading) (data : Bytes) (hdata : data.length < 2 ^ 64) (hplace : InPlace g)
    (hsecure : ∀ k n, secureRealloc k n = true → n < intLimit) :
    ReadSafe g secureRealloc st data ↔ ReadFits g secureRealloc st.sdata data := by
  rw [ReadSafe, gkmSecretBinaryRead, len_static]
  by_cases hmagic : data.take 15 = keyringFileHeader
  · have hlong := length_of_magic hmagic
    have hpeek : (eggBufferInitStatic data).peek 0 15 = .ok (data.take 15) := by
      rw [peek_static (by omega), drop_zero]
    rw [if_neg (by omega), hpeek, ok_bind, if_neg (not_not.2 hmagic)]
    by_cases hversion : 19 ≤ data.length
    · rw [peek_static (by omega), ok_bind]
      by_cases hzeros : (data.drop 15).take 4 = [0, 0, 0, 0]
      · rw [if_neg (not_not.2 hzeros), (readsAs_header hdata 19).eq, ok_bind, buf_static]
        cases hheader : Secret.readHeader data 19 with
        | none =>
          refine iff_of_true ⟨_, rfl⟩ (fits_of_no_header (fun _ => hversion) fun header offset h => ?_)
          exact nomatch hheader.symm.trans h.header
        | some r =>
          obtain ⟨header, offset⟩ := r
          dsimp only
          rw [fits_iff_of_header hversion ⟨hmagic, hzeros, hheader⟩]
          by_cases hcount : header.numItems < intLimit
          · have hlimit : intLimit = 2 ^ 31 := rfl
            rw [cAssert_of_true (by omega), ok_bind, and_iff_right hcount,
              ← readItems_ok_iff hdata hplace hsecure hcount]
            constructor
            · rintro ⟨r, h⟩
              obtain ⟨read, hread, -⟩ := bind_eq_ok.1 h
              exact ⟨read, hread⟩
            · rintro ⟨read, hread⟩
              rw [hread, ok_bind, countItems_ok (by omega)]
              exact ⟨_, rfl⟩
          · -- the items cannot be counted when they are freed
            refine iff_of_false ?_ fun h => hcount h.1
            rintro ⟨r, h⟩
            obtain ⟨_, -, h⟩ := bind_eq_ok.1 h
            obtain ⟨_, -, h⟩ := bind_eq_ok.1 h
            obtain ⟨_, hcounted, -⟩ := bind_eq_ok.1 h
            exact hcount (lt_of_countItems intLimit_pos hcounted)
      · rw [if_pos hzeros]
        exact iff_of_true ⟨_, rfl⟩ (fits_of_no_header (fun _ => hversion) fun _ _ h => absurd h.version hzeros)
    · rw [peek_static_beyond (by omega)]
      exact iff_of_false (fun ⟨r, h⟩ => nomatch h) fun h => hversion (h.version hmagic)
  · refine iff_of_true ?_ (fits_of_no_header (fun h => absurd h hmagic) fun _ _ h => absurd h.magic hmagic)
    by_cases hshort : data.length < 15
    · rw [if_pos hshort]
      exact ⟨_, rfl⟩
    · have hpeek : (eggBufferInitStatic data).peek 0 15 = .ok (data.take 15) := by
        rw [peek_static (by omega), drop_zero]
      rw [if_neg hshort, hpeek, ok_bind, if_pos hmagic]
      exact ⟨_, rfl⟩

/-- A library that does not give any key. -/
def noKeys : Gcrypt where
  md5 := { hash := fun _ => replicate 16 0, length_hash := fun _ => rfl }
  symkeyGenerateSimple _ _ _ := none
  cipherEncrypt _ _ := none
  cipherDecrypt _ _ := none

/-- A keyring that is locked. -/
def lockedTarget : Loading where
  collection :=
    { label := none, created := 0, modified := 0, items := ∅, watermark := 0, template := initTemplate }
  sdata := none

/-- A keyring with an item that has no attributes, and an encrypted part of one block. -/
def itemKeyring : Bytes :=
  keyringFileHeader ++ [0, 0, 0, 0] ++ [0xff, 0xff, 0xff, 0xff] ++ replicate 24 0 ++ [0, 0, 3, 0xe8] ++
    [1, 2, 3, 4, 5, 6, 7, 8] ++ replicate 16 0 ++ [0, 0, 0, 1, 0, 0, 0, 1] ++ replicate 8 0 ++ [0, 0, 0, 16] ++
    replicate 16 7

theorem binary_read_safe_sample : ReadSafe noKeys (fun _ n => decide (n < 1024)) lockedTarget itemKeyring := by
  have hread : Secret.readHeader itemKeyring 19 = some
      ({ displayName := none, ctime := 0, mtime := 0, flags := 0, lockTimeout := 0, hashIterations := 1000,
         salt := [1, 2, 3, 4, 5, 6, 7, 8], numItems := 1 }, 79) := rfl
  have hitem : Secret.readHashedItemInfo itemKeyring 1 79 = some ([ItemInfo.hashed 1 0 ∅], 91) := rfl
  have hsecure : ∀ k n, (fun _ n => decide (n < 1024) : EggBufferAllocator) k n = true → n < intLimit := by
    intro k n h
    have hlt : n < 1024 := of_decide_eq_true h
    have hlimit : intLimit = 2 ^ 31 := rfl
    omega
  have hplace : InPlace noKeys := by
    intro cipher text plain h
    change none = some plain at h
    exact nomatch h
  refine (binary_read_safe_iff lockedTarget itemKeyring (by decide) hplace hsecure).2
    ⟨fun _ => by decide, ?_, ?_, ?_⟩
  · intro header offset h
    cases hread.symm.trans h.header
    refine ⟨by decide, fun id next type next' hid htype => ?_⟩
    have hfirst : uint32At itemKeyring 79 = some (1, 83) := by decide
    cases hfirst.symm.trans hid
    have hsecond : uint32At itemKeyring 83 = some (0, 87) := by decide
    cases hsecond.symm.trans htype
    refine ⟨fun size next h => .inl ?_, fun _ _ _ => trivial⟩
    have hcount : uint32At itemKeyring 87 = some (0, 91) := by decide
    cases hcount.symm.trans h
    exact intLimit_pos
  · rintro header offset items size start h ⟨⟨next, hitems, hsize⟩, -⟩
    cases hread.symm.trans h.header
    cases hitem.symm.trans hitems
    have hlength : uint32At itemKeyring 91 = some (16, 95) := by decide
    cases hlength.symm.trans hsize
    exact ⟨by decide, fun _ => by decide⟩
  · intro header offset items size start _ _ sd cipher plain hsd
    exact nomatch hsd

/-- The version is read behind the end of a file that ends with the header. -/
theorem version_beyond : ¬ ReadSafe noKeys (fun _ n => decide (n < 1024)) lockedTarget keyringFileHeader := by
  rintro ⟨r, h⟩
  have hbeyond : gkmSecretBinaryRead noKeys (fun _ n => decide (n < 1024)) lockedTarget keyringFileHeader =
      .error .outOfBounds := rfl
  exact nomatch h.symm.trans hbeyond

end MateKeyring.Secret.Accesses
