import MateKeyring.Egg.Hex
import MateKeyring.Egg.Padding
import MateKeyring.Egg.Symkey

/-!
# The encrypted blocks of OpenSSL

`egg_openssl_encrypt_block` and `egg_openssl_decrypt_block`, over the ciphers of `libgcrypt`. Whole blocks are
encrypted in one call and what is left, with zeros behind it, in another. The octets are those of one call
(`encryptBlock_eq`) and are decrypted to the data and the zeros, as long as there is secure memory for them:
`egg_secure_alloc` refuses more than `0x7fffffff` octets, and the result is not looked at.
-/

set_option autoImplicit false

namespace MateKeyring.Egg

open Lib List

/-! ## Ciphers -/

/-- The ciphers of `libgcrypt`, and its hash MD5. A `Context` belongs to an algorithm; every function that may
fail has an `Option`. -/
structure CipherLibrary where
  md5 : Digest
  /-- Whether `gcry_cipher_test_algo` has no error. -/
  testAlgo : Nat → Bool
  blklen : Nat → Nat
  keylen : Nat → Nat
  Context : Nat → Type
  cipherOpen : (algo mode : Nat) → Option (Context algo)
  setkey : {algo : Nat} → Context algo → Bytes → Option (Context algo)
  setiv : {algo : Nat} → Context algo → Bytes → Option (Context algo)
  encrypt : {algo : Nat} → Context algo → Bytes → Option (Bytes × Context algo)
  decrypt : {algo : Nat} → Context algo → Bytes → Option (Bytes × Context algo)

/-- What the code relies on: the length of a block is an `int`, whole blocks can be encrypted, to as many octets, a
context goes on where the call before ended, and decryption inverts encryption. -/
structure CipherLibrary.Lawful (lib : CipherLibrary) : Prop where
  small : ∀ algo, lib.blklen algo < 2 ^ 31
  total : ∀ {algo} (ch : lib.Context algo) data, data.length % lib.blklen algo = 0 →
    ∃ out ch', lib.encrypt ch data = some (out, ch') ∧ out.length = data.length
  chains : ∀ {algo} {ch ch' ch'' : lib.Context algo} {first second out out'},
    first.length % lib.blklen algo = 0 → second.length % lib.blklen algo = 0 →
      lib.encrypt ch first = some (out, ch') → lib.encrypt ch' second = some (out', ch'') →
        lib.encrypt ch (first ++ second) = some (out ++ out', ch'')
  inverts : ∀ {algo} {ch ch' : lib.Context algo} {data out}, data.length % lib.blklen algo = 0 →
    lib.encrypt ch data = some (out, ch') → (lib.decrypt ch out).map Prod.fst = some data

/-! ## DEK-Info -/

def gcryCipherIdea : Nat := 1
def gcryCipher3des : Nat := 2
def gcryCipherCast5 : Nat := 3
def gcryCipherBlowfish : Nat := 4
def gcryCipherAes128 : Nat := 7
def gcryCipherAes192 : Nat := 8
def gcryCipherAes256 : Nat := 9
def gcryCipherArcfour : Nat := 301
def gcryCipherDes : Nat := 302

def gcryCipherModeEcb : Nat := 1
def gcryCipherModeCfb : Nat := 2
def gcryCipherModeCbc : Nat := 3
def gcryCipherModeStream : Nat := 4
def gcryCipherModeOfb : Nat := 5
def gcryCipherModeCtr : Nat := 6

/-- `openssl_algos` -/
def opensslAlgos : List (String × Nat × Nat) :=
  [("DES-ECB", gcryCipherDes, gcryCipherModeEcb), ("DES-CFB64", gcryCipherDes, gcryCipherModeCfb),
    ("DES-CFB", gcryCipherDes, gcryCipherModeCfb),
    ("DES-EDE3-ECB", gcryCipher3des, gcryCipherModeEcb),
    ("DES-EDE3-CFB64", gcryCipher3des, gcryCipherModeCfb),
    ("DES-EDE3-CFB", gcryCipher3des, gcryCipherModeCfb),
    ("DES-OFB", gcryCipherDes, gcryCipherModeOfb),
    ("DES-EDE3-OFB", gcryCipher3des, gcryCipherModeOfb),
    ("DES-CBC", gcryCipherDes, gcryCipherModeCbc),
    ("DES-EDE3-CBC", gcryCipher3des, gcryCipherModeCbc),
    ("RC4", gcryCipherArcfour, gcryCipherModeStream),
    ("RC4-40", gcryCipherArcfour, gcryCipherModeStream),
    ("IDEA-ECB", gcryCipherIdea, gcryCipherModeEcb),
    ("IDEA-CFB64", gcryCipherIdea, gcryCipherModeCfb),
    ("IDEA-OFB", gcryCipherIdea, gcryCipherModeOfb),
    ("IDEA-CBC", gcryCipherIdea, gcryCipherModeCbc),
    ("BF-ECB", gcryCipherBlowfish, gcryCipherModeEcb),
    ("BF-CBC", gcryCipherBlowfish, gcryCipherModeCbc),
    ("BF-CFB64", gcryCipherBlowfish, gcryCipherModeCfb),
    ("BF-CFB", gcryCipherBlowfish, gcryCipherModeCfb),
    ("BF-OFB", gcryCipherBlowfish, gcryCipherModeOfb),
    ("CAST5-ECB", gcryCipherCast5, gcryCipherModeEcb),
    ("CAST5-CBC", gcryCipherCast5, gcryCipherModeCbc),
    ("CAST5-CFB64", gcryCipherCast5, gcryCipherModeCfb),
    ("CAST5-CFB", gcryCipherCast5, gcryCipherModeCfb),
    ("CAST5-OFB", gcryCipherCast5, gcryCipherModeOfb),
    ("AES-128-ECB", gcryCipherAes128, gcryCipherModeEcb),
    ("AES-128-CBC", gcryCipherAes128, gcryCipherModeCbc),
    ("AES-128-CFB128", gcryCipherAes128, gcryCipherModeCfb),
    ("AES-128-CFB", gcryCipherAes128, gcryCipherModeCfb),
    ("AES-128-OFB", gcryCipherAes128, gcryCipherModeOfb),
    ("AES-128-CTR", gcryCipherAes128, gcryCipherModeCtr),
    ("AES-192-ECB", gcryCipherAes192, gcryCipherModeEcb),
    ("AES-192-CBC", gcryCipherAes192, gcryCipherModeCbc),
    ("AES-192-CFB128", gcryCipherAes192, gcryCipherModeCfb),
    ("AES-192-CFB", gcryCipherAes192, gcryCipherModeCfb),
    ("AES-192-OFB", gcryCipherAes192, gcryCipherModeOfb),
    ("AES-192-CTR", gcryCipherAes192, gcryCipherModeCtr),
    ("AES-256-ECB", gcryCipherAes256, gcryCipherModeEcb),
    ("AES-256-CBC", gcryCipherAes256, gcryCipherModeCbc),
    ("AES-256-CFB128", gcryCipherAes256, gcryCipherModeCfb),
    ("AES-256-CFB", gcryCipherAes256, gcryCipherModeCfb),
    ("AES-256-OFB", gcryCipherAes256, gcryCipherModeOfb),
    ("AES-256-CTR", gcryCipherAes256, gcryCipherModeCtr)]

/-- `egg_openssl_parse_algo`: the algorithm and the mode. -/
def eggOpensslParseAlgo (name : Bytes) : Option (Nat × Nat) :=
  (opensslAlgos.find? fun entry => ascii entry.1 = name).map Prod.snd

/-- What a `DEK-Info` has. -/
structure Dekinfo where
  algo : Nat
  mode : Nat
  iv : Bytes
  deriving DecidableEq, Repr

variable (lib : CipherLibrary)

/-- `parse_dekinfo`; the text is split at its first comma. -/
def parseDekinfo (dek : Bytes) : Option Dekinfo :=
  match strchr 0x2c dek with
  | none => none
  | some (name, hex) =>
    match eggOpensslParseAlgo name with
    | none => none
    | some (algo, mode) =>
      if lib.testAlgo algo = false then none
      else
        match eggHexDecode hex with
        | none => none
        | some iv => if lib.blklen algo ≠ iv.length then none else some ⟨algo, mode, iv⟩

/-! ## Blocks -/

/-- How both functions make a cipher of a `DEK-Info` and a password. -/
def startCipher (dek : Dekinfo) (password : Option Bytes) : Option (lib.Context dek.algo) := do
  let ivlen := lib.blklen dek.algo
  -- the iv is at least as long as a salt of 8 octets
  if ivlen < 8 then none
  else
    let key ← eggSymkeyGenerateSimple lib.md5 (lib.keylen dek.algo) ivlen password (dek.iv.take 8) 1
    let ch ← lib.cipherOpen dek.algo dek.mode
    let ch ← lib.setkey ch key.1
    lib.setiv ch dek.iv

/-- `egg_openssl_encrypt_block`; `none` is `FALSE`. The password is `NULL` or some octets. -/
def eggOpensslEncryptBlock (dekinfo : Bytes) (password : Option Bytes) (data : Bytes) :
    Checked (Option Bytes) :=
  match parseDekinfo lib dekinfo with
  | none => .ok none
  | some dek =>
    match startCipher lib dek password with
    | none => .ok none
    | some ch => do
        let ivlen := lib.blklen dek.algo
        let nOverflow := data.length % ivlen
        let nPadding := if nOverflow ≠ 0 then ivlen - nOverflow else 0
        let nBatch := data.length - nOverflow
        let nEncrypted := gsize (data.length + nPadding)
        cAssert (nEncrypted % ivlen = 0)
        cAssert (data.length ≤ nEncrypted)
        cAssert (nEncrypted = gsize (nBatch + nOverflow + nPadding))
        match lib.encrypt ch (data.take nBatch) with
        | none => pure none
        | some (batch, ch) =>
          if nOverflow = 0 then pure (some batch)
          else
            -- the padded block
            match lib.encrypt ch (data.drop nBatch ++ replicate nPadding 0) with
            | none => pure none
            | some (last, _) => pure (some (batch ++ last))

/-- `egg_openssl_decrypt_block`. Octets are written to what `egg_secure_alloc` gives, without a look at it. -/
def eggOpensslDecryptBlock (dekinfo : Bytes) (password : Option Bytes) (data : Bytes) :
    Checked (Option Bytes) :=
  match parseDekinfo lib dekinfo with
  | none => .ok none
  | some dek =>
    match startCipher lib dek password with
    | none => .ok none
    | some ch =>
      match lib.decrypt ch data with
      | none => .ok none
      | some (decrypted, _) =>
        if data.length > 0xffffffff / 2 then .error .nullPointer else .ok (some decrypted)

/-! ## What is right -/

/-- The zeros that fill the last block. -/
def blockZeros (blklen n : Nat) : Nat := if n % blklen ≠ 0 then blklen - n % blklen else 0

/-- Data with zeros up to the end of a block. -/
def zeroPadded (blklen : Nat) (data : Bytes) : Bytes :=
  data ++ replicate (blockZeros blklen data.length) 0

/-- What is encrypted are the octets of one call, and it is decrypted to the data and less than a block of
zeros. -/
def BlockRight (dekinfo : Bytes) (dek : Dekinfo) (password : Option Bytes) (data : Bytes) : Prop :=
  ∃ r, eggOpensslEncryptBlock lib dekinfo password data = .ok r ∧ ∀ encrypted, r = some encrypted →
    (∃ ch ch', startCipher lib dek password = some ch ∧
        lib.encrypt ch (zeroPadded (lib.blklen dek.algo) data) = some (encrypted, ch')) ∧
      ∃ n, n < lib.blklen dek.algo ∧
        eggOpensslDecryptBlock lib dekinfo password encrypted = .ok (some (data ++ replicate n 0))

/-! ## Lengths -/

variable {lib} {dekinfo : Bytes} {dek : Dekinfo} {password : Option Bytes} {data : Bytes}

theorem blockZeros_lt {blklen : Nat} (h : 0 < blklen) (n : Nat) : blockZeros blklen n < blklen := by
  have := Nat.mod_lt n h
  rw [blockZeros]
  split
  · omega
  · exact h

theorem mod_add_blockZeros {blklen : Nat} (h : 0 < blklen) (n : Nat) : (n + blockZeros blklen n) % blklen = 0 := by
  have hlt := Nat.mod_lt n h
  rw [blockZeros, Nat.add_mod]
  split
  · rename_i hrest
    have hfill : blklen - n % blklen < blklen := by omega
    have hsum : n % blklen + (blklen - n % blklen) = blklen := by omega
    rw [Nat.mod_eq_of_lt hfill, hsum, Nat.mod_self]
  · rename_i hrest
    rw [not_not.1 hrest, Nat.zero_mod]
    exact Nat.zero_mod _

theorem length_zeroPadded (blklen : Nat) (data : Bytes) :
    (zeroPadded blklen data).length = data.length + blockZeros blklen data.length := by
  rw [zeroPadded, length_append, length_replicate]

/-- The block of a cipher that was made has at least eight octets. -/
theorem startCipher_blklen {ch : lib.Context dek.algo} (h : startCipher lib dek password = some ch) :
    8 ≤ lib.blklen dek.algo := by
  rw [startCipher] at h
  by_contra hshort
  rw [if_pos (by omega)] at h
  exact nomatch h

/-! ## Encryption -/

section Started

variable {ch : lib.Context dek.algo} (hdek : parseDekinfo lib dekinfo = some dek)
  (hch : startCipher lib dek password = some ch)

include hdek hch

/-- The two calls give the octets of one. -/
theorem encryptBlock_eq (hlaw : lib.Lawful) (hroom : (zeroPadded (lib.blklen dek.algo) data).length < 2 ^ 64) :
    ∃ encrypted ch', eggOpensslEncryptBlock lib dekinfo password data = .ok (some encrypted) ∧
      lib.encrypt ch (zeroPadded (lib.blklen dek.algo) data) = some (encrypted, ch') ∧
        encrypted.length = (zeroPadded (lib.blklen dek.algo) data).length := by
  have hblock := startCipher_blklen hch
  rw [length_zeroPadded] at hroom
  have hpos : 0 < lib.blklen dek.algo := by omega
  have hmod := mod_add_blockZeros hpos data.length
  have hrest := Nat.mod_le data.length (lib.blklen dek.algo)
  have hbatch : (data.length - data.length % lib.blklen dek.algo) % lib.blklen dek.algo = 0 :=
    Nat.sub_mod_eq_zero_of_mod_eq (Nat.mod_mod _ _).symm
  have hsum : data.length - data.length % lib.blklen dek.algo + data.length % lib.blklen dek.algo +
      blockZeros (lib.blklen dek.algo) data.length =
        data.length + blockZeros (lib.blklen dek.algo) data.length := by omega
  rw [eggOpensslEncryptBlock, hdek]
  dsimp only
  rw [hch]
  dsimp only
  rw [← blockZeros, gsize_of_lt hroom, cAssert_of_true hmod, ok_bind, cAssert_of_true (Nat.le_add_right _ _),
    ok_bind, hsum, gsize_of_lt hroom, cAssert_of_true rfl, ok_bind]
  -- the whole blocks
  have hwhole : (data.take (data.length - data.length % lib.blklen dek.algo)).length % lib.blklen dek.algo = 0 := by
    rw [length_take, Nat.min_eq_left (by omega)]
    exact hbatch
  obtain ⟨batch, ch', hfirst, hfirstLength⟩ := hlaw.total ch _ hwhole
  rw [hfirst]
  dsimp only
  by_cases heven : data.length % lib.blklen dek.algo = 0
  · rw [if_pos heven]
    have hpadded : zeroPadded (lib.blklen dek.algo) data =
        data.take (data.length - data.length % lib.blklen dek.algo) := by
      rw [zeroPadded, blockZeros, if_neg (not_not.2 heven), heven, Nat.sub_zero, take_length]
      exact append_nil data
    rw [hpadded]
    exact ⟨batch, ch', rfl, hfirst, hfirstLength⟩
  · rw [if_neg heven]
    -- what is left, and the zeros
    have hlast : (data.drop (data.length - data.length % lib.blklen dek.algo) ++
        replicate (blockZeros (lib.blklen dek.algo) data.length) 0).length % lib.blklen dek.algo = 0 := by
      rw [length_append, length_drop, length_replicate]
      have hone : data.length - (data.length - data.length % lib.blklen dek.algo) +
          blockZeros (lib.blklen dek.algo) data.length = lib.blklen dek.algo := by
        have := Nat.mod_lt data.length hpos
        rw [blockZeros, if_pos heven]
        omega
      rw [hone, Nat.mod_self]
    obtain ⟨last, ch'', hsecond, hsecondLength⟩ := hlaw.total ch' _ hlast
    rw [hsecond]
    have hpadded : zeroPadded (lib.blklen dek.algo) data =
        data.take (data.length - data.length % lib.blklen dek.algo) ++
          (data.drop (data.length - data.length % lib.blklen dek.algo) ++
            replicate (blockZeros (lib.blklen dek.algo) data.length) 0) := by
      rw [← append_assoc, take_append_drop, zeroPadded]
    refine ⟨batch ++ last, ch'', rfl, ?_, ?_⟩
    · rw [hpadded]
      exact hlaw.chains hwhole hlast hfirst hsecond
    · rw [hpadded, length_append, length_append, hfirstLength, hsecondLength]

/-- Data that does not fit into a `gsize` with its zeros ends in an assertion. -/
theorem encryptBlock_faults (hlaw : lib.Lawful) (hroom : ¬ (zeroPadded (lib.blklen dek.algo) data).length < 2 ^ 64) :
    eggOpensslEncryptBlock lib dekinfo password data = .error .assertion := by
  have hblock := startCipher_blklen hch
  rw [length_zeroPadded] at hroom
  have hzeros := blockZeros_lt (show 0 < lib.blklen dek.algo by omega) data.length
  rw [eggOpensslEncryptBlock, hdek]
  dsimp only
  rw [hch]
  dsimp only
  rw [← blockZeros]
  have hwrap : ¬ data.length ≤ gsize (data.length + blockZeros (lib.blklen dek.algo) data.length) := by
    have hlt : gsize (data.length + blockZeros (lib.blklen dek.algo) data.length) < 2 ^ 64 :=
      Nat.mod_lt _ (by decide)
    have hsmall := hlaw.small dek.algo
    intro hle
    -- the zeros are too few to make up for what is lost
    rw [gsize, Nat.mod_eq_sub_mod (by omega)] at hle
    have hless := Nat.mod_le (data.length + blockZeros (lib.blklen dek.algo) data.length - 2 ^ 64) (2 ^ 64)
    omega
  by_cases hfirst : gsize (data.length + blockZeros (lib.blklen dek.algo) data.length) % lib.blklen dek.algo = 0
  · rw [cAssert_of_true hfirst, ok_bind, cAssert, if_neg hwrap]
    rfl
  · rw [cAssert, if_neg hfirst]
    rfl

/-- Octets that were encrypted are decrypted, if there is secure memory for them. -/
theorem decryptBlock_eq {padded encrypted : Bytes} {ch' : lib.Context dek.algo} (hlaw : lib.Lawful)
    (hblocks : padded.length % lib.blklen dek.algo = 0) (hrun : lib.encrypt ch padded = some (encrypted, ch')) :
    eggOpensslDecryptBlock lib dekinfo password encrypted =
      if encrypted.length > 0xffffffff / 2 then .error .nullPointer else .ok (some padded) := by
  obtain ⟨r, hdecrypt, hpadded⟩ := Option.map_eq_some_iff.1 (hlaw.inverts hblocks hrun)
  rw [eggOpensslDecryptBlock, hdek]
  dsimp only
  rw [hch]
  dsimp only
  rw [hdecrypt]
  dsimp only
  rw [hpadded]

end Started

/-- Whatever `libgcrypt` makes a cipher of is encrypted and decrypted, if the data and its zeros are not more than
`egg_secure_alloc` gives. -/
theorem openssl_block_right_iff (lib : CipherLibrary) (hlaw : lib.Lawful) (dekinfo : Bytes) (dek : Dekinfo)
    (hdek : parseDekinfo lib dekinfo = some dek) (password : Option Bytes) (data : Bytes) :
    BlockRight lib dekinfo dek password data ↔
      startCipher lib dek password = none ∨ (zeroPadded (lib.blklen dek.algo) data).length ≤ 0x7fffffff := by
  cases hch : startCipher lib dek password with
  | none =>
    refine iff_of_true ⟨none, ?_, fun _ h => nomatch h⟩ (.inl rfl)
    rw [eggOpensslEncryptBlock, hdek]
    dsimp only
    rw [hch]
  | some ch =>
    have hpos : 0 < lib.blklen dek.algo := Nat.lt_of_lt_of_le (by decide) (startCipher_blklen hch)
    have hblocks : (zeroPadded (lib.blklen dek.algo) data).length % lib.blklen dek.algo = 0 := by
      rw [length_zeroPadded]
      exact mod_add_blockZeros hpos data.length
    rw [or_iff_right (fun h => nomatch h)]
    constructor
    · rintro ⟨r, hrun, hright⟩
      by_contra hlong
      by_cases hroom : (zeroPadded (lib.blklen dek.algo) data).length < 2 ^ 64
      · obtain ⟨encrypted, ch', henc, hone, hlength⟩ := encryptBlock_eq hdek hch hlaw hroom
        rw [henc] at hrun
        obtain ⟨-, n, -, hdec⟩ := hright encrypted (Except.ok.inj hrun).symm
        rw [decryptBlock_eq hdek hch hlaw hblocks hone, if_pos (by omega)] at hdec
        exact nomatch hdec
      · rw [encryptBlock_faults hdek hch hlaw hroom] at hrun
        exact nomatch hrun
    · intro hshort
      have hroom : (zeroPadded (lib.blklen dek.algo) data).length < 2 ^ 64 := by omega
      obtain ⟨encrypted, ch', henc, hone, hlength⟩ := encryptBlock_eq hdek hch hlaw hroom
      refine ⟨some encrypted, henc, ?_⟩
      rintro _ ⟨⟩
      refine ⟨⟨ch, ch', hch, hone⟩, blockZeros (lib.blklen dek.algo) data.length, blockZeros_lt hpos _, ?_⟩
      rw [decryptBlock_eq hdek hch hlaw hblocks hone, if_neg (by omega)]
      rfl

/-! ## A cipher -/

/-- Octets under the key stream of AES in its output feedback mode, for the password `pw`, from the octet `i`
on. -/
def streamOctets (stream : Bytes) : Nat → Bytes → Bytes
  | _, [] => []
  | i, b :: data => (b ^^^ stream.getD (i % 16) 0) :: streamOctets stream (i + 1) data

theorem length_streamOctets (stream : Bytes) (i : Nat) (data : Bytes) :
    (streamOctets stream i data).length = data.length := by
  induction data generalizing i with
  | nil => rfl
  | cons b data ih => rw [streamOctets, length_cons, length_cons, ih]

theorem streamOctets_append (stream : Bytes) (i : Nat) (first second : Bytes) :
    streamOctets stream i (first ++ second) =
      streamOctets stream i first ++ streamOctets stream (i + first.length) second := by
  induction first generalizing i with
  | nil => rfl
  | cons b first ih =>
    rw [cons_append, streamOctets, streamOctets, ih, length_cons, cons_append,
      Nat.add_right_comm, Nat.add_assoc]

theorem streamOctets_twice (stream : Bytes) (i : Nat) (data : Bytes) :
    streamOctets stream i (streamOctets stream i data) = data := by
  induction data generalizing i with
  | nil => rfl
  | cons b data ih =>
    rw [streamOctets, streamOctets, ih, UInt8.xor_assoc, UInt8.xor_self, UInt8.xor_zero]

/-- A call of the cipher after `i` octets. -/
def streamCall (stream : Bytes) (i : Nat) (data : Bytes) : Option (Bytes × Nat) :=
  some (streamOctets stream i data, i + data.length)

theorem streamCall_chains {stream : Bytes} {i j k : Nat} {first second out out' : Bytes}
    (hfirst : streamCall stream i first = some (out, j)) (hsecond : streamCall stream j second = some (out', k)) :
    streamCall stream i (first ++ second) = some (out ++ out', k) := by
  cases hfirst
  cases hsecond
  rw [streamCall, streamOctets_append, length_append, ← Nat.add_assoc]

theorem streamCall_inverts {stream : Bytes} {i j : Nat} {data out : Bytes}
    (h : streamCall stream i data = some (out, j)) : (streamCall stream i out).map Prod.fst = some data := by
  cases h
  exact congrArg some (streamOctets_twice stream i data)

/-- MD5, for the password `pw` and the salt `0001020304050607`. -/
def sampleMd5 : Digest where
  opens := true
  size := 16
  hash _ := [165, 95, 121, 170, 0, 232, 221, 14, 125, 60, 226, 110, 212, 13, 124, 211]
  length_hash _ := rfl

/-- What AES has in its output feedback mode with that digest as its key and the vector
`000102030405060708090a0b0c0d0e0f`, for the first block. -/
def sampleStream : Bytes :=
  [142, 115, 90, 231, 221, 116, 86, 184, 233, 76, 9, 251, 206, 11, 62, 30]

/-- A context is the number of the octets before. -/
def sampleCiphers : CipherLibrary where
  md5 := sampleMd5
  testAlgo _ := true
  blklen _ := 16
  keylen _ := 16
  Context _ := Nat
  cipherOpen _ _ := some 0
  setkey ch _ := some ch
  setiv ch _ := some ch
  encrypt := streamCall sampleStream
  decrypt := streamCall sampleStream

theorem lawful_sampleCiphers : sampleCiphers.Lawful where
  small _ := show 16 < 2 ^ 31 by decide
  total i data _ := ⟨_, _, rfl, length_streamOctets sampleStream i data⟩
  chains _ _ hfirst hsecond := streamCall_chains hfirst hsecond
  inverts _ hrun := streamCall_inverts hrun

/-- The `DEK-Info` of the vector. -/
def sampleDekinfo : Bytes := ascii "AES-128-OFB,000102030405060708090A0B0C0D0E0F"

/-- What is parsed of it. -/
def sampleDek : Dekinfo := ⟨gcryCipherAes128, gcryCipherModeOfb, (List.range 16).map UInt8.ofNat⟩

theorem openssl_block_right_sample :
    sampleCiphers.Lawful ∧ parseDekinfo sampleCiphers sampleDekinfo = some sampleDek ∧
      (BlockRight sampleCiphers sampleDekinfo sampleDek (some (ascii "pw")) (ascii "abc") ↔
        startCipher sampleCiphers sampleDek (some (ascii "pw")) = none ∨
          (zeroPadded (sampleCiphers.blklen sampleDek.algo) (ascii "abc")).length ≤ 0x7fffffff) :=
  ⟨lawful_sampleCiphers, by decide,
    openssl_block_right_iff sampleCiphers lawful_sampleCiphers sampleDekinfo sampleDek (by decide)
      (some (ascii "pw")) (ascii "abc")⟩

theorem parseDekinfo_sample : parseDekinfo sampleCiphers sampleDekinfo = some sampleDek := by decide

theorem startCipher_sample : startCipher sampleCiphers sampleDek (some (ascii "pw")) = some (0 : Nat) := rfl

/-- Two gigabytes of zeros are encrypted, and to decrypt them is to write to `NULL`. -/
theorem large_block_not_decrypted :
    ¬ BlockRight sampleCiphers sampleDekinfo sampleDek (some (ascii "pw")) (replicate (2 ^ 31) 0) := by
  have hsize : (zeroPadded (sampleCiphers.blklen sampleDek.algo) (replicate (2 ^ 31) 0)).length = 2 ^ 31 := by
    rw [length_zeroPadded, length_replicate]
    rfl
  have hblocks : (zeroPadded (sampleCiphers.blklen sampleDek.algo) (replicate (2 ^ 31) 0)).length %
      sampleCiphers.blklen sampleDek.algo = 0 := by
    have heven : 2 ^ 31 % 16 = 0 := by decide
    rw [hsize]
    exact heven
  rintro ⟨r, hrun, hright⟩
  obtain ⟨encrypted, ch', henc, hone, hlength⟩ :=
    encryptBlock_eq parseDekinfo_sample startCipher_sample lawful_sampleCiphers (hsize.trans_lt (by decide))
  rw [henc] at hrun
  obtain ⟨-, n, -, hdec⟩ := hright encrypted (Except.ok.inj hrun).symm
  rw [decryptBlock_eq parseDekinfo_sample startCipher_sample lawful_sampleCiphers hblocks hone,
    if_pos (by omega)] at hdec
  exact nomatch hdec

end MateKeyring.Egg
