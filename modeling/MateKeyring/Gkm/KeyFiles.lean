import MateKeyring.Gkm.Pkcs8

/-!
# Encrypted private key files

`private_key_file_round_trip_iff`: a key comes back from its plain form always, and from its encrypted form
exactly if the number of iterations that was drawn is no multiple of 256. `anode_write_integer_ulong` writes
such a number as zero, and `egg_symkey_generate_pkcs12` refuses to derive a key with no iterations.
-/

set_option autoImplicit false

namespace MateKeyring.Gkm

open Lib Asn1x List

variable {salt : Bytes} {fuel : Nat} {password : Option Bytes} {iterations : Nat}
  {key : PrivateKey} {skey : PrivateKey}

/-! ## The parameters of the encryption -/

/-- A `pkcs-12-PbeParams`. -/
def pbeItems (salt : Bytes) (iterations : Nat) : List Value :=
  [octetsValue salt, integerValue (anodeWriteIntegerUlong iterations)]

theorem anodeWriteIntegerUlong_ne_nil (value : Nat) : anodeWriteIntegerUlong value ≠ [] := by
  apply length_pos_iff.1
  rw [length_anodeWriteIntegerUlong]
  omega

theorem length_anodeWriteIntegerUlong_le (value : Nat) : (anodeWriteIntegerUlong value).length ≤ 8 := by
  have hle := bytesUpToZero_le 8 value
  rw [length_anodeWriteIntegerUlong]
  omega

theorem fits_salt (salt : Bytes) : Fits saltNode (octetsValue salt) := by
  rw [octetsValue, Fits]
  exact ⟨⟨rfl, rfl⟩, rfl, rfl, by decide, by decide, rfl, rfl⟩

theorem fits_iterations (iterations : Nat) :
    Fits (integerNode "iterations") (integerValue (anodeWriteIntegerUlong iterations)) :=
  fits_integer (plainInteger_integerNode _) (anodeWriteIntegerUlong_ne_nil iterations)

theorem fits_pbe (salt : Bytes) (iterations : Nat) :
    Fits pbeParams (.sequence (pbeItems salt iterations)) := by
  rw [Fits]
  refine ⟨⟨rfl, rfl⟩, rfl, rfl, rfl, ?_⟩
  apply FitsList.cons (fits_salt salt) rfl
  exact FitsList.last (fits_iterations iterations)

theorem length_pbe (hsalt : salt.length = 8) (iterations : Nat) :
    (Value.sequence (pbeItems salt iterations)).bytes.length < 2 ^ 16 := by
  have hle := length_sequence_le (pbeItems salt iterations)
  have hfirst := length_element_le asn1ClassUniversal (show 4 < 31 by decide) salt
  have hsecond := length_element_le asn1ClassUniversal (show 2 < 31 by decide)
    (anodeWriteIntegerUlong iterations)
  have hcount := length_anodeWriteIntegerUlong_le iterations
  simp only [pbeItems, Value.bytesList, length_append, length_nil, octetsValue, integerValue,
    Value.bytes] at hle ⊢
  omega

/-- The parameters are written. -/
theorem encodePbeParams_eq (readTime : TimeReader) (hsalt : salt.length = 8)
    (iterations : Nat) :
    encodePbeParams readTime salt iterations =
      .ok (some (Value.sequence (pbeItems salt iterations)).bytes) := by
  have hsaltLoad : setString (some salt) saltNode = .ok (some (loaded (octetsValue salt) saltNode)) := by
    have hload := encodeTlvAndEnc_load (fits_salt salt) (show Kind.octetString ≠ Kind.any by decide)
      (by omega)
    rw [setString, eggAsn1xSetStringAsRaw, hload]
    rfl
  have hcountLoad : setUlong iterations (integerNode "iterations") =
      .ok (some (loaded (integerValue (anodeWriteIntegerUlong iterations)) (integerNode "iterations"))) := by
    have hcount := length_anodeWriteIntegerUlong_le iterations
    have hload := encodeTlvAndEnc_load (fits_iterations iterations) (show Kind.integer ≠ Kind.any by decide)
      (by omega)
    rw [setUlong, eggAsn1xSetIntegerAsUlong, hload]
    rfl
  have hset : setAll
      [setField "salt" (setString (some salt)),
        setField "iterations" (setUlong iterations)] pbeParams =
      .ok (some (loaded (.sequence (pbeItems salt iterations)) pbeParams)) := by
    change setAll _ (loaded (.sequence [.absent, .absent]) pbeParams) = _
    have hfirst : setField "salt" (setString (some salt)) (loaded (.sequence [.absent, .absent]) pbeParams) =
        .ok (some (loaded (.sequence [octetsValue salt, .absent]) pbeParams)) :=
      @setAt_sequence _ [] _ _ saltNode _ 0 _ .absent rfl rfl rfl hsaltLoad
    have hsecond : setField "iterations" (setUlong iterations)
        (loaded (.sequence [octetsValue salt, .absent]) pbeParams) =
        .ok (some (loaded (.sequence (pbeItems salt iterations)) pbeParams)) :=
      @setAt_sequence _ [] _ _ (integerNode "iterations") _ 1 _ .absent rfl rfl rfl
        hcountLoad
    rw [setAll_cons hfirst, setAll_cons hsecond]
    rfl
  have hencode := eggAsn1xEncode_value readTime (fits_pbe salt iterations) rfl
    ((length_pbe hsalt iterations).trans (by decide))
  rw [encodePbeParams, hset, ok_bind, encodeTree, hencode]
  rfl

section Crypted

variable (crypto : Crypto) (readTime : TimeReader)

/-- The cipher that is made of the parameters. -/
theorem readCipher_eq (h3des : crypto.algoError gcryCipher3des = false) (hfuel : 1 < fuel)
    (password : Option Bytes) (hsalt : salt.length = 8) {iterations read : Nat}
    (hread : anodeReadIntegerAsUlong (anodeWriteIntegerUlong iterations) = some read) :
    eggSymkeyReadCipher crypto readTime fuel oidPkcs12Pbe3desSha1 password
        (Value.sequence (pbeItems salt iterations)).bytes =
      .ok ((eggSymkeyGeneratePkcs12 crypto password salt (gint read)).map (gcryCipherDecrypt crypto)) := by
  have hdecode := createAndDecode_value readTime (fits_pbe salt iterations) rfl rfl hfuel
    ((length_pbe hsalt iterations).trans (by decide))
  have hne : (Value.sequence (pbeItems salt iterations)).bytes ≠ [] := sequence_ne_nil _
  have hsaltRead : (field (filled (.sequence (pbeItems salt iterations)) pbeParams []) "salt").bind
      eggAsn1xGetRawValue = some salt := by
    obtain ⟨rest, hnode⟩ := @node_filled [] (ascii "salt") pbeParams saltNode (pbeItems salt iterations) 0 _
      rfl rfl rfl []
    rw [field, hnode, eggAsn1xNode, Option.bind_some]
    exact getRawValue_filled (by decide) _ _ _ _
  have hcountRead : (field (filled (.sequence (pbeItems salt iterations)) pbeParams []) "iterations").bind
      eggAsn1xGetIntegerAsUlong = some read := by
    obtain ⟨rest, hnode⟩ := @node_filled [] (ascii "iterations") pbeParams (integerNode "iterations")
      (pbeItems salt iterations) 1 _ rfl rfl rfl []
    rw [field, hnode, eggAsn1xNode, Option.bind_some]
    exact (getInteger_filled _ _ _ _ _).trans hread
  rw [eggSymkeyReadCipher, if_neg hne, if_pos rfl, readCipherPkcs12Pbe, h3des, if_neg Bool.false_ne_true,
    hdecode, ok_bind]
  dsimp only
  rw [hsaltRead, hcountRead]
  rfl

/-! ## The file -/

/-- A `pkcs-8-EncryptedPrivateKeyInfo`. -/
def cryptedItems (salt : Bytes) (iterations : Nat) (crypted : Bytes) : List Value :=
  [.sequence (algorithmItems oidPkcs12Pbe3desSha1 (some (Value.bytesList (pbeItems salt iterations)))),
    octetsValue crypted]

theorem fits_crypted (salt : Bytes) (iterations : Nat) (crypted : Bytes) :
    Fits encryptedPrivateKeyInfo (.sequence (cryptedItems salt iterations crypted)) := by
  rw [Fits]
  refine ⟨⟨rfl, rfl⟩, rfl, rfl, rfl, ?_⟩
  apply FitsList.cons (fits_algorithm _ readable_pbe _) rfl
  exact FitsList.last (fits_octets _ _ crypted)

theorem length_pbeValue (hsalt : salt.length = 8) (iterations : Nat) :
    (paramsValue (some (Value.bytesList (pbeItems salt iterations)))).bytes.length < 2 ^ 16 := by
  have hlt := length_pbe hsalt iterations
  rw [Value.bytes] at hlt
  rw [paramsValue, Value.bytes]
  exact hlt

theorem length_crypted (hsalt : salt.length = 8) (iterations : Nat) {crypted : Bytes}
    (h : crypted.length < 2 ^ 28) :
    (Value.sequence (cryptedItems salt iterations crypted)).bytes.length < 2 ^ 30 := by
  have hle := length_sequence_le (cryptedItems salt iterations crypted)
  have halgorithm := length_algorithm readable_pbe ((length_pbeValue hsalt iterations).trans (by decide))
  have hdata := length_element_le asn1ClassUniversal (show 4 < 31 by decide) crypted
  have hvalue : (octetsValue crypted).bytes.length = (element asn1ClassUniversal 4 crypted).length := rfl
  simp only [cryptedItems, Value.bytesList, length_append, length_nil] at hle ⊢
  omega

/-- `prepare_and_encode_pkcs8_cipher` loads the parameters. -/
theorem prepareAndEncode_eq (hquark : crypto.algoError crypto.quark = true) (hfuel : 0 < fuel)
    (hsalt : salt.length = 8) {key : Bytes × Bytes}
    (hkey : eggSymkeyGeneratePkcs12 crypto password salt iterations = some key) :
    prepareAndEncodePkcs8Cipher crypto readTime fuel encryptedPrivateKeyInfo password salt iterations =
      .ok (some (loaded (.sequence [.sequence (algorithmItems oidPkcs12Pbe3desSha1
        (some (Value.bytesList (pbeItems salt iterations)))), .absent]) encryptedPrivateKeyInfo, key)) := by
  have hparams := encodePbeParams_eq readTime hsalt iterations
  have hsize : (element asn1ClassStructured 16 (Value.bytesList (pbeItems salt iterations))).length <
      2 ^ 31 := by
    have hlt := length_pbe hsalt iterations
    rw [Value.bytes] at hlt
    exact hlt.trans (by decide)
  have hset : setAll
      [setAt (setOid oidPkcs12Pbe3desSha1) [ascii "encryptionAlgorithm", ascii "algorithm"],
        setAt (setRawElement fuel (element asn1ClassStructured 16
          (Value.bytesList (pbeItems salt iterations)))) [ascii "encryptionAlgorithm", ascii "parameters"]]
      encryptedPrivateKeyInfo =
      .ok (some (loaded (.sequence [.sequence (algorithmItems oidPkcs12Pbe3desSha1
        (some (Value.bytesList (pbeItems salt iterations)))), .absent]) encryptedPrivateKeyInfo)) := by
    change setAll _ (loaded (.sequence [.sequence [.absent, .absent], .absent]) encryptedPrivateKeyInfo) = _
    rw [setAll_cons (@setAlgorithm _ readable_pbe _ _ _ 0 _ rfl rfl rfl),
      setAll_cons (@setParams _ hfuel _ hsize _ _ _ 0 _ rfl rfl rfl)]
    rfl
  rw [prepareAndEncodePkcs8Cipher, hquark, if_pos rfl, hkey]
  dsimp only
  rw [hparams, ok_bind]
  dsimp only
  rw [Value.bytes, hset, ok_bind]
  rfl

/-- What the code relies on in `libgcrypt`: triple DES is there, and its decryption inverts its encryption,
which keeps the length. -/
structure Crypto.Lawful (crypto : Crypto) : Prop where
  available : crypto.algoError gcryCipher3des = false
  inverts : ∀ key data, data.length % blockLength = 0 → crypto.decrypt key (crypto.encrypt key data) = data
  length : ∀ key data, data.length % blockLength = 0 → (crypto.encrypt key data).length = data.length

theorem length_padBlock (data : Bytes) :
    (padBlock data).length % blockLength = 0 ∧ (padBlock data).length ≤ data.length + 8 := by
  rw [padBlock]
  dsimp only [blockLength]
  rw [length_append, length_replicate]
  omega

variable {crypto}

/-- What is encrypted is whole blocks, and not too many of them. -/
theorem length_encrypted (hlawful : crypto.Lawful) (hstorable : skey.Storable)
    (key : Bytes × Bytes) :
    (crypto.encrypt key (padBlock (Value.sequence skey.items).bytes)).length % blockLength = 0 ∧
      (crypto.encrypt key (padBlock (Value.sequence skey.items).bytes)).length < 2 ^ 28 := by
  have hplain := length_plain skey.readable_oid (PrivateKey.length_params hstorable)
    (PrivateKey.length_keydata hstorable)
  rw [← PrivateKey.items] at hplain
  obtain ⟨hblocks, hpadded⟩ := length_padBlock (Value.sequence skey.items).bytes
  rw [hlawful.length key _ hblocks]
  exact ⟨hblocks, by omega⟩

/-- `gkm_data_der_write_private_pkcs8_crypted` writes the value of the file. -/
theorem writeCrypted_eq (hlawful : crypto.Lawful) (hquark : crypto.algoError crypto.quark = true)
    (hfuel : 0 < fuel) (hstorable : skey.Storable) (hsalt : salt.length = 8) {key : Bytes × Bytes}
    (hkey : eggSymkeyGeneratePkcs12 crypto password salt iterations = some key) :
    gkmDataDerWritePrivatePkcs8Crypted crypto readTime fuel skey password salt iterations =
      .ok (some (Value.sequence (cryptedItems salt iterations
        (crypto.encrypt key (padBlock (Value.sequence skey.items).bytes)))).bytes) := by
  have hwrite := writePlain_eq readTime hstorable hfuel
  have hblocks := (length_padBlock (Value.sequence skey.items).bytes).1
  have hencrypt : gcryCipherEncrypt crypto key (padBlock (Value.sequence skey.items).bytes) =
      some (crypto.encrypt key (padBlock (Value.sequence skey.items).bytes)) := by
    rw [gcryCipherEncrypt, if_pos hblocks]
  have hsmall := (length_encrypted hlawful hstorable key).2
  generalize crypto.encrypt key (padBlock (Value.sequence skey.items).bytes) = crypted at *
  have hencode := eggAsn1xEncode_value readTime (fits_crypted salt iterations crypted) rfl
    ((length_crypted hsalt iterations hsmall).trans (by decide))
  have hdata : setField "encryptedData" (setString (some crypted))
      (loaded (.sequence [.sequence (algorithmItems oidPkcs12Pbe3desSha1
        (some (Value.bytesList (pbeItems salt iterations)))), .absent]) encryptedPrivateKeyInfo) =
      .ok (some (loaded (.sequence (cryptedItems salt iterations crypted))
        encryptedPrivateKeyInfo)) :=
    @setString_field _ "pkcs-8-EncryptedData" _ (by omega) _ _ 1 rfl rfl rfl
  rw [gkmDataDerWritePrivatePkcs8Crypted, hwrite, ok_bind]
  dsimp only
  rw [prepareAndEncode_eq crypto readTime hquark hfuel hsalt hkey, ok_bind]
  dsimp only
  rw [hencrypt]
  dsimp only
  rw [hdata, ok_bind, encodeTree, hencode]
  rfl

/-- What is decrypted is read up to its padding. -/
theorem readDecrypted_eq (hfuel : 2 < fuel) (hstorable : skey.Storable) :
    readDecrypted readTime fuel (padBlock (Value.sequence skey.items).bytes) =
      .ok (.success, some skey.reread) := by
  have hplain := length_plain skey.readable_oid (PrivateKey.length_params hstorable)
    (PrivateKey.length_keydata hstorable)
  rw [← PrivateKey.items] at hplain
  obtain ⟨-, hpadded⟩ := length_padBlock (Value.sequence skey.items).bytes
  have hread := readPlain_eq readTime hstorable hfuel
  have hlength : eggAsn1xElementLength (padBlock (Value.sequence skey.items).bytes) =
      .ok (some (Value.sequence skey.items).bytes.length) := by
    rw [padBlock, Value.bytes] at hpadded ⊢
    rw [Value.bytes] at hplain
    exact eggAsn1xElementLength_element _ (by decide) _ _ (by omega)
  have hpos : 0 < (Value.sequence skey.items).bytes.length := length_pos_iff.2 (sequence_ne_nil _)
  have htake : (padBlock (Value.sequence skey.items).bytes).take (Value.sequence skey.items).bytes.length =
      (Value.sequence skey.items).bytes := by
    rw [padBlock]
    exact take_left
  have hroom : (Value.sequence skey.items).bytes.length ≤
      (padBlock (Value.sequence skey.items).bytes).length := by
    rw [padBlock, length_append]
    omega
  rw [readDecrypted, hlength, step_ok, ok_bind]
  dsimp only
  rw [if_neg (by omega), htake, hread, ok_bind]
  rfl


/-- The encrypted file is read as far as its cipher. -/
theorem readCrypted_eq (hlawful : crypto.Lawful) (hfuel : 2 < fuel) (password : Option Bytes)
    (hsalt : salt.length = 8) {iterations read : Nat}
    (hread : anodeReadIntegerAsUlong (anodeWriteIntegerUlong iterations) = some read) {crypted : Bytes}
    (hcrypted : crypted.length < 2 ^ 28) :
    gkmDataDerReadPrivatePkcs8Crypted crypto readTime fuel
        (Value.sequence (cryptedItems salt iterations crypted)).bytes password =
      match eggSymkeyGeneratePkcs12 crypto password salt (gint read) with
      | none => .ok (.failure, none)
      | some key =>
        match gcryCipherDecrypt crypto key crypted with
        | none => .ok (.failure, none)
        | some data => readDecrypted readTime fuel data := by
  have hdepth : (Value.sequence (cryptedItems salt iterations crypted)).depth < fuel := by
    have : (Value.sequence (cryptedItems salt iterations crypted)).depth = 2 := rfl
    omega
  have hdecode := createAndDecode_value readTime (fits_crypted salt iterations crypted) rfl rfl hdepth
    ((length_crypted hsalt iterations hcrypted).trans (by decide))
  generalize hasn : filled (.sequence (cryptedItems salt iterations crypted)) encryptedPrivateKeyInfo [] = asn
    at hdecode
  have halgorithm : (eggAsn1xNode asn [ascii "encryptionAlgorithm", ascii "algorithm"]).bind
      eggAsn1xGetOidAsString = some oidPkcs12Pbe3desSha1 := by
    rw [← hasn]
    exact @readAlgorithm _ readable_pbe _ _ _ _ 0 rfl rfl rfl []
  have hparams : (eggAsn1xNode asn [ascii "encryptionAlgorithm", ascii "parameters"]).bind
      eggAsn1xGetRawElement = some (Value.sequence (pbeItems salt iterations)).bytes := by
    rw [← hasn, Value.bytes]
    exact @readParams oidPkcs12Pbe3desSha1 (some (Value.bytesList (pbeItems salt iterations))) _ _ _ 0
      rfl rfl rfl []
  have hdata : ∃ node, field asn "encryptedData" = some node ∧
      eggAsn1xGetStringAsRaw node = .ok (some crypted) := by
    obtain ⟨rest, hnode⟩ := @node_filled [] (ascii "encryptedData") encryptedPrivateKeyInfo
      (octetsNode "encryptedData" "pkcs-8-EncryptedData") (cryptedItems salt iterations crypted) 1 _
      rfl rfl rfl []
    refine ⟨_, ?_, @getString_filled asn1ClassUniversal (by decide) 4 crypted
      (octetsNode "encryptedData" "pkcs-8-EncryptedData") rest⟩
    rw [field, ← hasn, hnode]
    rfl
  obtain ⟨node, hnode, hstring⟩ := hdata
  rw [gkmDataDerReadPrivatePkcs8Crypted, hdecode, ok_bind]
  dsimp only
  rw [halgorithm, hparams]
  dsimp only
  rw [readCipher_eq crypto readTime hlawful.available (by omega) password hsalt hread, ok_bind]
  cases eggSymkeyGeneratePkcs12 crypto password salt (gint read) with
  | none => rfl
  | some key =>
    dsimp only [Option.map]
    rw [hnode]
    dsimp only
    rw [hstring, step_ok, ok_bind]
    dsimp only
    cases gcryCipherDecrypt crypto key crypted with
    | none => rfl
    | some data => rfl

/-- A plain file is not taken for an encrypted one: it starts with a version. -/
theorem readCrypted_plain (hfuel : 2 < fuel) (hstorable : skey.Storable) (password : Option Bytes) :
    gkmDataDerReadPrivatePkcs8Crypted crypto readTime fuel (Value.sequence skey.items).bytes password =
      .ok (.unrecognized, none) := by
  have hsize := length_plain skey.readable_oid (PrivateKey.length_params hstorable)
    (PrivateKey.length_keydata hstorable)
  have hsize' : (element asn1ClassStructured 16 (Value.bytesList skey.items)).length < 2 ^ 31 := by
    rw [Value.bytes] at hsize
    exact hsize.trans (by decide)
  obtain ⟨fuel, rfl⟩ : ∃ k, fuel = k + 2 := ⟨fuel - 2, by omega⟩
  have hnone : createAndDecode readTime (fuel + 2) encryptedPrivateKeyInfo
      (Value.sequence skey.items).bytes = .ok none := by
    rw [Value.bytes]
    exact createAndDecode_firstOther readTime fits_plainVersion _ rfl rfl rfl hsize' rfl rfl rfl
  rw [gkmDataDerReadPrivatePkcs8Crypted, hnone, ok_bind]
  rfl

/-! ## The round trip -/

/-- A key as `libgcrypt` has it, in an S-expression, whose lengths have 16 bits. Of an RSA key the primes are
odd and in order, and `u` is the inverse of the first; of a DSA key `y` belongs to `x`. -/
def PrivateKey.Gcrypt : PrivateKey → Prop
  | .rsa n e d p q u =>
    p.Prime ∧ q.Prime ∧ 2 < p ∧ p < q ∧ n = p * q ∧ e * d % (p - 1) = 1 ∧ e * d % (q - 1) = 1 ∧ u < q ∧
      p * u % q = 1 ∧ ∀ m ∈ [n, e, d, p, q, u], (gcryMpiPrint m).length < 2 ^ 16
  | .dsa p q g y x =>
    0 < p ∧ 0 < q ∧ 0 < g ∧ 0 < x ∧ y = g ^ x % p ∧
      ∀ m ∈ [p, q, g, y, x], (gcryMpiPrint m).length < 2 ^ 16

/-- A number that is inverted modulo `m` is not zero modulo `m`. -/
theorem pos_of_mul_mod {a b m : Nat} (h : a * b % m = 1) : 0 < b % m := by
  apply Nat.pos_of_ne_zero
  intro hzero
  have hdvd : m ∣ a * b := (Nat.dvd_of_mod_eq_zero hzero).mul_left a
  rw [Nat.mod_eq_zero_of_dvd hdvd] at h
  exact absurd h (by decide)

theorem PrivateKey.Gcrypt.storable (h : key.Gcrypt) : key.Storable := by
  cases key with
  | rsa n e d p q u =>
    obtain ⟨hp, hq, hodd, hlt, rfl, hed, hed', hu, hinv, hsize⟩ := h
    have hpu : 0 < u := by
      apply Nat.pos_of_ne_zero
      rintro rfl
      rw [Nat.mul_zero, Nat.zero_mod] at hinv
      exact absurd hinv (by decide)
    have hexp : 0 < d % (p - 1) := pos_of_mul_mod hed
    have hexp' : 0 < d % (q - 1) := pos_of_mul_mod hed'
    have hd : 0 < d := Nat.lt_of_lt_of_le hexp (Nat.mod_le _ _)
    have he : 0 < e := by
      apply Nat.pos_of_ne_zero
      rintro rfl
      rw [Nat.zero_mul, Nat.zero_mod] at hed
      exact absurd hed (by decide)
    have hbound : d % (p - 1) ≤ d ∧ d % (q - 1) ≤ d := ⟨Nat.mod_le _ _, Nat.mod_le _ _⟩
    have hdsize := hsize d (by simp)
    exact
      { modulus := ⟨Nat.mul_pos hp.pos hq.pos, hsize _ (by simp)⟩
        publicExponent := ⟨he, hsize _ (by simp)⟩
        privateExponent := ⟨hd, hdsize⟩
        prime1 := ⟨hp.pos, hsize _ (by simp)⟩
        prime2 := ⟨hq.pos, hsize _ (by simp)⟩
        coefficient := ⟨hpu, hsize _ (by simp)⟩
        exponent1 := ⟨hexp, Nat.lt_of_le_of_lt (length_gcryMpiPrint_le hbound.1) hdsize⟩
        exponent2 := ⟨hexp', Nat.lt_of_le_of_lt (length_gcryMpiPrint_le hbound.2) hdsize⟩ }
  | dsa p q g y x =>
    obtain ⟨hp, hq, hg, hx, -, hsize⟩ := h
    exact
      { prime := ⟨hp, hsize _ (by simp)⟩
        subprime := ⟨hq, hsize _ (by simp)⟩
        base := ⟨hg, hsize _ (by simp)⟩
        value := ⟨hx, hsize _ (by simp)⟩ }

/-- The primes are in order and the coefficient is recomputed, so that the key is as before. -/
theorem PrivateKey.Gcrypt.reread_eq (h : key.Gcrypt) : key.reread = key := by
  cases key with
  | rsa n e d p q u =>
    obtain ⟨-, hq, hodd, hlt, -, -, -, hu, hinv, -⟩ := h
    rw [PrivateKey.reread, gcryptRsa, if_neg (by omega), gcryMpiInvm_eq hq.one_lt hu hinv]
  | dsa p q g y x =>
    obtain ⟨-, -, -, -, hy, -⟩ := h
    rw [PrivateKey.reread, ← hy]

/-- A key can be read from its plain form and from its encrypted form. -/
def KeyFileRoundTrip (crypto : Crypto) (readTime : TimeReader) (fuel : Nat)
    (key : PrivateKey) (password : Option Bytes) (salt : Bytes) (iterations : Nat) : Prop :=
  (∃ data, gkmDataDerWritePrivatePkcs8Plain readTime fuel key = .ok (some data) ∧
    gkmDataDerReadPrivatePkcs8 crypto readTime fuel data password = .ok (.success, some key)) ∧
  ∃ data, gkmDataDerWritePrivatePkcs8Crypted crypto readTime fuel key password salt iterations =
      .ok (some data) ∧
    gkmDataDerReadPrivatePkcs8 crypto readTime fuel data password = .ok (.success, some key)

/-- The plain form is always read. -/
theorem plain_round_trip (hfuel : 2 < fuel) (h : key.Gcrypt) (password : Option Bytes) :
    ∃ data, gkmDataDerWritePrivatePkcs8Plain readTime fuel key = .ok (some data) ∧
      gkmDataDerReadPrivatePkcs8 crypto readTime fuel data password = .ok (.success, some key) := by
  refine ⟨_, writePlain_eq readTime h.storable (by omega), ?_⟩
  rw [gkmDataDerReadPrivatePkcs8, readCrypted_plain readTime hfuel h.storable, ok_bind, if_pos rfl,
    readPlain_eq readTime h.storable hfuel, h.reread_eq]

/-- A password that a key can be derived from: none, or text. -/
def passwordValid (password : Option Bytes) : Bool := (password.map utf8Validate).getD true

theorem generate_eq {password : Option Bytes} (salt : Bytes) {iterations : Nat}
    (hpos : 0 < iterations) :
    eggSymkeyGeneratePkcs12 crypto password salt iterations =
      if passwordValid password then some (crypto.derive password salt iterations) else none := by
  have hsign : ¬ ((iterations : Int) ≤ 0) := by omega
  rw [eggSymkeyGeneratePkcs12, if_neg hsign, ← passwordValid, Int.toNat_natCast]
  cases passwordValid password with
  | true => rfl
  | false => rfl

/-- A number of iterations that is drawn is written whole, unless its last byte is zero. -/
theorem writable_iterations (hlow : 1000 ≤ iterations) (hhigh : iterations < 2000)
    (h : iterations % 256 ≠ 0) : Writable iterations := by
  have hdigits : Nat.digits 256 iterations = [iterations % 256, iterations / 256] := by
    rw [Nat.digits_def' (by decide) (by omega), Nat.digits_of_lt 256 _ (by omega) (by omega)]
  rw [Writable, hdigits]
  refine ⟨?_, ?_, by omega⟩
  · simp only [mem_cons, not_mem_nil, or_false, not_or]
    omega
  · simp only [length_cons, length_nil]
    omega

theorem writeIntegerUlong_of_mod {value : Nat} (h : value % 256 = 0) : anodeWriteIntegerUlong value = [0] := by
  rw [anodeWriteIntegerUlong_eq, bytesUpToZero_succ, if_pos h, max_eq_left (Nat.zero_le 1),
    encode_succ_last, h]
  rfl

/-- Without an algorithm that is unknown, or without a key, nothing is written. -/
theorem writeCrypted_none (hfuel : 0 < fuel) (h : key.Storable)
    (hprepare : prepareAndEncodePkcs8Cipher crypto readTime fuel encryptedPrivateKeyInfo password salt
      iterations = .ok none) :
    gkmDataDerWritePrivatePkcs8Crypted crypto readTime fuel key password salt iterations = .ok none := by
  rw [gkmDataDerWritePrivatePkcs8Crypted, writePlain_eq readTime h hfuel, ok_bind]
  dsimp only
  rw [hprepare, ok_bind]
  rfl

/-- A multiple of 256 is read as zero, and no key is derived with zero iterations. -/
theorem read_multiple_fails (hlawful : crypto.Lawful) (hfuel : 2 < fuel) (hkey : key.Storable)
    (hsalt : salt.length = 8) (hmultiple : iterations % 256 = 0) (hpos : 0 < iterations)
    (hpassword : passwordValid password = true) (hquark : crypto.algoError crypto.quark = true)
    {data : Bytes}
    (hwrite : gkmDataDerWritePrivatePkcs8Crypted crypto readTime fuel key password salt iterations =
      .ok (some data)) :
    gkmDataDerReadPrivatePkcs8 crypto readTime fuel data password ≠ .ok (.success, some key) := by
  intro hread
  have hgenerate := @generate_eq crypto password salt iterations hpos
  rw [if_pos hpassword] at hgenerate
  have hfuel' : 0 < fuel := by omega
  have hfile := writeCrypted_eq readTime hlawful hquark hfuel' hkey hsalt hgenerate
  rw [hfile] at hwrite
  cases hwrite
  have hzero : anodeReadIntegerAsUlong (anodeWriteIntegerUlong iterations) = some 0 := by
    rw [writeIntegerUlong_of_mod hmultiple]
    decide
  have hfailed := readCrypted_eq readTime hlawful hfuel password hsalt hzero
    (length_encrypted hlawful hkey (crypto.derive password salt iterations)).2
  have hnone : eggSymkeyGeneratePkcs12 crypto password salt (gint ((0 : Nat) : Int)) = none := rfl
  rw [hnone] at hfailed
  rw [gkmDataDerReadPrivatePkcs8, hfailed, ok_bind, if_neg (by decide)] at hread
  exact absurd (congrArg Prod.fst (Except.ok.inj hread))
    (show GkmDataResult.failure ≠ GkmDataResult.success by decide)

variable (crypto)

/-- A private key comes back from the files that `gkm_data_der_write_private_pkcs8_plain` and
`gkm_data_der_write_private_pkcs8_crypted` write exactly if the number of iterations that was drawn is no
multiple of 256, the password is text, and the quark of the scheme is not the number of a cipher. -/
theorem private_key_file_round_trip_iff (hlawful : crypto.Lawful) (fuel : Nat) (hfuel : 2 < fuel)
    (key : PrivateKey) (hkey : key.Gcrypt) (password : Option Bytes) (salt : Bytes)
    (hsalt : salt.length = 8) (iterations : Nat) (hlow : 1000 ≤ iterations) (hhigh : iterations < 2000) :
    KeyFileRoundTrip crypto readTime fuel key password salt iterations ↔
      iterations % 256 ≠ 0 ∧ passwordValid password = true ∧ crypto.algoError crypto.quark = true := by
  have hpos : 0 < fuel := by omega
  have hgenerate := @generate_eq crypto password salt iterations (by omega)
  constructor
  · rintro ⟨-, data, hwrite, hread⟩
    have hquark : crypto.algoError crypto.quark = true := by
      by_contra hquark
      have hprepare : prepareAndEncodePkcs8Cipher crypto readTime fuel encryptedPrivateKeyInfo password salt
          iterations = .ok none := by
        rw [prepareAndEncodePkcs8Cipher, if_neg hquark]
      rw [writeCrypted_none readTime hpos hkey.storable hprepare] at hwrite
      exact absurd (Except.ok.inj hwrite).symm (Option.some_ne_none _)
    have hpassword : passwordValid password = true := by
      by_contra hpassword
      rw [if_neg hpassword] at hgenerate
      have hprepare : prepareAndEncodePkcs8Cipher crypto readTime fuel encryptedPrivateKeyInfo password salt
          iterations = .ok none := by
        rw [prepareAndEncodePkcs8Cipher, hquark, if_pos rfl, hgenerate]
      rw [writeCrypted_none readTime hpos hkey.storable hprepare] at hwrite
      exact absurd (Except.ok.inj hwrite).symm (Option.some_ne_none _)
    refine ⟨?_, hpassword, hquark⟩
    intro hmultiple
    exact read_multiple_fails readTime hlawful hfuel hkey.storable hsalt hmultiple (by omega) hpassword hquark
      hwrite hread
  · rintro ⟨hcount, hpassword, hquark⟩
    refine ⟨plain_round_trip readTime hfuel hkey password, ?_⟩
    rw [if_pos hpassword] at hgenerate
    refine ⟨_, writeCrypted_eq readTime hlawful hquark hpos hkey.storable hsalt hgenerate, ?_⟩
    obtain ⟨hblocks, hsmall⟩ := length_encrypted hlawful hkey.storable
      (crypto.derive password salt iterations)
    have hread := readCrypted_eq readTime hlawful hfuel password hsalt
      (anodeReadIntegerAsUlong_write (writable_iterations hlow hhigh hcount)) hsmall
    have hgint : gint iterations = iterations := gint_of_lt (by omega)
    have hdecrypt : gcryCipherDecrypt crypto (crypto.derive password salt iterations)
        (crypto.encrypt (crypto.derive password salt iterations)
          (padBlock (Value.sequence key.items).bytes)) =
        some (padBlock (Value.sequence key.items).bytes) := by
      rw [gcryCipherDecrypt, if_pos hblocks,
        hlawful.inverts _ _ (length_padBlock (Value.sequence key.items).bytes).1]
    rw [hgint, hgenerate] at hread
    dsimp only at hread
    rw [hdecrypt] at hread
    dsimp only at hread
    rw [readDecrypted_eq readTime hfuel hkey.storable, hkey.reread_eq] at hread
    rw [gkmDataDerReadPrivatePkcs8, hread, ok_bind]
    rfl

end Crypted

/-- A cipher that adds a fixed number to every byte, in place of triple DES, with the numbers of the ciphers
of `libgcrypt`. -/
def sampleCrypto : Crypto where
  algoError n := !([1, 2, 3, 4, 7, 8, 9, 10, 301, 302, 303, 304, 305, 306, 307, 308].contains n)
  quark := 77
  derive password salt iterations := ((password.getD []) ++ salt, BigEndian.encode 8 iterations)
  encrypt _ data := data.map (· + 92)
  decrypt _ data := data.map (· - 92)
  otherScheme _ _ _ := none

theorem lawful_sampleCrypto : sampleCrypto.Lawful where
  available := rfl
  inverts _ data _ := by
    have hbyte : ∀ b : UInt8, b + 92 - 92 = b := fun b => UInt8.add_sub_cancel b 92
    dsimp only [sampleCrypto]
    rw [map_map]
    conv_rhs => rw [← map_id data]
    exact map_congr_left fun b _ => hbyte b
  length _ data _ := length_map _

/-- A small RSA key. -/
def sampleKey : PrivateKey := .rsa 33 3 7 3 11 4

theorem gcrypt_sampleKey : sampleKey.Gcrypt := by
  refine ⟨by decide, by decide, by decide, by decide, by decide, by decide, by decide, by decide,
    by decide, ?_⟩
  intro m hm
  have hsmall : m ≤ 33 := by
    simp only [mem_cons, not_mem_nil, or_false] at hm
    omega
  refine Nat.lt_of_le_of_lt (length_gcryMpiPrint_le hsmall) ?_
  rw [length_gcryMpiPrint]
  norm_num

/-- The salt of eight zeros. -/
def sampleSalt : Bytes := replicate 8 0

theorem private_key_file_round_trip_at_1001 :
    KeyFileRoundTrip sampleCrypto (fun _ _ => false) 3 sampleKey (some (ascii "pw")) sampleSalt 1001 ↔
      1001 % 256 ≠ 0 ∧ passwordValid (some (ascii "pw")) = true ∧
        sampleCrypto.algoError sampleCrypto.quark = true :=
  private_key_file_round_trip_iff sampleCrypto (fun _ _ => false) lawful_sampleCrypto 3 (by decide) sampleKey
    gcrypt_sampleKey (some (ascii "pw")) sampleSalt rfl 1001 (by decide) (by decide)

/-- With 1024 iterations the file that was written cannot be read. -/
theorem private_key_file_1024_not_read :
    ¬ KeyFileRoundTrip sampleCrypto (fun _ _ => false) 3 sampleKey (some (ascii "pw")) sampleSalt 1024 := by
  rintro ⟨-, data, hwrite, hread⟩
  exact read_multiple_fails (fun _ _ => false) lawful_sampleCrypto (by decide) gcrypt_sampleKey.storable rfl
    (by decide) (by decide) (by decide) (by decide) hwrite hread

end MateKeyring.Gkm
