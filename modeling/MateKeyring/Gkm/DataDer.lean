import Mathlib.Data.Nat.Prime.Basic
import MateKeyring.Asn1x.Integers

/-!
# Private keys in DER

`gkm-data-der.c`, as far as private keys are written and read: RSA keys, DSA keys in two parts, and PKCS#8
around them, plain and encrypted. The numbers of `libgcrypt` are natural numbers, and its cipher and the
derivation of its key are a `Crypto`.
-/

set_option autoImplicit false

namespace MateKeyring.Gkm

open Lib Asn1x

/-! ## Numbers -/

/-- `gcry_mpi_print` with `GCRYMPI_FMT_STD`: two's complement in as few bytes as possible, none for zero. -/
def gcryMpiPrint (n : Nat) : Bytes := BigEndian.encode (Nat.digits 256 (2 * n)).length n

/-- `gcry_mpi_scan` with `GCRYMPI_FMT_STD`. A negative number is an error. -/
def gcryMpiScan (content : Bytes) : Option Nat :=
  if content.headD 0 &&& 0x80 = 0 then some (BigEndian.decode content) else none

/-- `gcry_mpi_invm`. -/
def gcryMpiInvm (a m : Nat) : Nat := (Nat.gcdA a m % m).toNat

/-- `gkm_data_asn1_read_mpi`. -/
def gkmDataAsn1ReadMpi (asn : Option Node) : Option Nat :=
  (asn.bind eggAsn1xGetRawValue).bind gcryMpiScan

/-- `gkm_data_asn1_write_mpi`. -/
def gkmDataAsn1WriteMpi (mpi : Nat) : Setter := fun asn =>
  step (eggAsn1xSetIntegerAsRaw (gcryMpiPrint mpi) asn)

/-! ## Definitions -/

/-- A row with a name. -/
def row (name : String) (kind : Kind) : Def := { name := some (ascii name), kind := kind }

/-- An `INTEGER` with a name. -/
def integerNode (name : String) : Node := .mk { row := row name .integer } []

/-- A constant with its value. -/
def constant (name value : String) : Def :=
  { name := some (ascii name), kind := .constant, value := some (ascii value) }

/-- A row that refers to another definition. -/
def reference (name target : String) : Def :=
  { name := some (ascii name), kind := .identifier, value := some (ascii target) }

/-- A row without a name that refers to another definition. -/
def unnamed (target : String) : Def := { kind := .identifier, value := some (ascii target) }

/-- A version: an `INTEGER` that is one of some constants. -/
def versionNode (target : String) (constants : List Def) : Node :=
  .mk { row := reference "version" target,
        join := some { name := some (ascii target), kind := .integer, flags := { list := true } },
        opts := constants } []

/-- The `OtherPrimeInfo` of `RSAPrivateKey`. -/
def otherPrimeInfo : Node :=
  .mk { row := unnamed "OtherPrimeInfo", join := some (row "OtherPrimeInfo" .sequence) }
    [integerNode "prime", integerNode "exponent", integerNode "coefficient"]

/-- `otherPrimeInfos`. -/
def otherPrimeInfos : Node :=
  .mk { row := { reference "otherPrimeInfos" "OtherPrimeInfos" with flags := { option := true } },
        join := some { row "OtherPrimeInfos" .sequenceOf with flags := { size := true } },
        opts := [{ name := some (ascii "MAX"), kind := .size, flags := { minMax := true },
                   value := some (ascii "1") }] }
    [otherPrimeInfo]

/-- `RSAPrivateKey`. -/
def rsaPrivateKey : Node :=
  .mk { row := row "RSAPrivateKey" .sequence }
    [versionNode "Version" [constant "two-prime" "0", constant "multi" "1"], integerNode "modulus",
      integerNode "publicExponent", integerNode "privateExponent", integerNode "prime1",
      integerNode "prime2", integerNode "exponent1", integerNode "exponent2", integerNode "coefficient",
      otherPrimeInfos]

/-- `DSAPrivatePart`. -/
def dsaPrivatePart : Node := integerNode "DSAPrivatePart"

/-- `DSAParameters`. -/
def dsaParameters : Node :=
  .mk { row := row "DSAParameters" .sequence } [integerNode "p", integerNode "q", integerNode "g"]

/-- `DSAPrivateKey`. -/
def dsaPrivateKey : Node :=
  .mk { row := row "DSAPrivateKey" .sequence }
    [integerNode "version", integerNode "p", integerNode "q", integerNode "g", integerNode "Y",
      integerNode "priv"]

/-- The `algorithm` of `AlgorithmIdentifier`. -/
def oidNode : Node := .mk { row := row "algorithm" .objectId } []

/-- The `parameters` of `AlgorithmIdentifier`. -/
def paramsNode : Node :=
  .mk { row := { row "parameters" .any with flags := { option := true } },
        opts := [row "algorithm" .constant] } []

/-- An `AlgorithmIdentifier` with a name. -/
def algorithmNode (name : String) : Node :=
  .mk { row := reference name "AlgorithmIdentifier", join := some (row "AlgorithmIdentifier" .sequence) }
    [oidNode, paramsNode]

/-- An `OCTET STRING` that is defined elsewhere. -/
def octetsNode (name target : String) : Node :=
  .mk { row := reference name target, join := some (row target .octetString) } []

/-- The `Attribute` of `pkcs-8-PrivateKeyInfo`. -/
def attributeNode : Node :=
  .mk { row := unnamed "Attribute", join := some (row "Attribute" .sequence) }
    [.mk { row := reference "type" "AttributeType", join := some (row "AttributeType" .objectId) } [],
      .mk { row := row "values" .setOf }
        [.mk { row := unnamed "AttributeValue", join := some (row "AttributeValue" .any),
               opts := [row "type" .constant] } []]]

/-- `attributes`. -/
def attributesNode : Node :=
  .mk { row := { reference "attributes" "Attributes" with flags := { tag := true, option := true } },
        join := some (row "Attributes" .setOf),
        opts := [{ kind := .tag, flags := { implicit := true }, value := some (ascii "0") }] }
    [attributeNode]

/-- `pkcs-8-PrivateKeyInfo`. -/
def privateKeyInfo : Node :=
  .mk { row := row "pkcs-8-PrivateKeyInfo" .sequence }
    [versionNode "pkcs-8-Version" [constant "v1" "0"], algorithmNode "privateKeyAlgorithm",
      octetsNode "privateKey" "pkcs-8-PrivateKey", attributesNode]

/-- `pkcs-8-EncryptedPrivateKeyInfo`. -/
def encryptedPrivateKeyInfo : Node :=
  .mk { row := row "pkcs-8-EncryptedPrivateKeyInfo" .sequence }
    [algorithmNode "encryptionAlgorithm", octetsNode "encryptedData" "pkcs-8-EncryptedData"]

/-- The `salt` of `pkcs-12-PbeParams`. -/
def saltNode : Node := .mk { row := row "salt" .octetString } []

/-- `pkcs-12-PbeParams`. -/
def pbeParams : Node :=
  .mk { row := row "pkcs-12-PbeParams" .sequence } [saltNode, integerNode "iterations"]

/-- `OID_PKIX1_RSA` -/
def oidPkix1Rsa : Bytes := ascii "1.2.840.113549.1.1.1"
/-- `OID_PKIX1_DSA` -/
def oidPkix1Dsa : Bytes := ascii "1.2.840.10040.4.1"
/-- `OID_PKCS12_PBE_3DES_SHA1` -/
def oidPkcs12Pbe3desSha1 : Bytes := ascii "1.2.840.113549.1.12.1.3"

/-! ## Keys -/

/-- A private key, as an S-expression holds its numbers. -/
inductive PrivateKey where
  | rsa (n e d p q u : Nat)
  | dsa (p q g y x : Nat)
  deriving DecidableEq, Repr

/-- `GkmDataResult`. -/
inductive GkmDataResult where
  | failure
  | locked
  | unrecognized
  | success
  deriving DecidableEq, Repr

/-- What a reader returns. -/
abbrev Read := Except Halt (GkmDataResult × Option PrivateKey)

section Der

variable (readTime : TimeReader) (fuel : Nat)

/-- `egg_asn1x_create_and_decode`, of a definition that was created. -/
def createAndDecode (asn : Node) (data : Bytes) : Except Halt (Option Node) := do
  let r ← eggAsn1xDecode readTime fuel asn data
  pure (if r.1 then some r.2 else none)

/-- The node with a name. -/
def field (asn : Node) (name : String) : Option Node := eggAsn1xNode asn [ascii name]

/-- The key of `gkm_data_der_read_private_key_rsa`: the primes are put in order. -/
def gcryptRsa (n e d p q u : Nat) : PrivateKey :=
  if q < p then .rsa n e d q p u else .rsa n e d p q (gcryMpiInvm p q)

/-- `gkm_data_der_read_private_key_rsa`. -/
def gkmDataDerReadPrivateKeyRsa (data : Bytes) : Read := do
  match ← createAndDecode readTime fuel rsaPrivateKey data with
  | none => pure (.unrecognized, none)
  | some asn =>
    match (field asn "version").bind eggAsn1xGetIntegerAsUlong with
    | none => pure (.failure, none)
    | some version =>
      -- we only support simple version
      if version ≠ 0 then pure (.unrecognized, none)
      else
        match gkmDataAsn1ReadMpi (field asn "modulus"), gkmDataAsn1ReadMpi (field asn "publicExponent"),
          gkmDataAsn1ReadMpi (field asn "privateExponent"), gkmDataAsn1ReadMpi (field asn "prime1"),
          gkmDataAsn1ReadMpi (field asn "prime2"), gkmDataAsn1ReadMpi (field asn "coefficient") with
        | some n, some e, some d, some p, some q, some u =>
          pure (.success, some (gcryptRsa n e d p q u))
        | _, _, _, _, _, _ => pure (.failure, none)

/-- `gkm_data_der_read_private_key_dsa`. -/
def gkmDataDerReadPrivateKeyDsa (data : Bytes) : Read := do
  match ← createAndDecode readTime fuel dsaPrivateKey data with
  | none => pure (.unrecognized, none)
  | some asn =>
    match gkmDataAsn1ReadMpi (field asn "p"), gkmDataAsn1ReadMpi (field asn "q"),
      gkmDataAsn1ReadMpi (field asn "g"), gkmDataAsn1ReadMpi (field asn "Y"),
      gkmDataAsn1ReadMpi (field asn "priv") with
    | some p, some q, some g, some y, some x => pure (.success, some (.dsa p q g y x))
    | _, _, _, _, _ => pure (.failure, none)

/-- `gkm_data_der_read_private_key_dsa_parts`. -/
def gkmDataDerReadPrivateKeyDsaParts (keydata params : Bytes) : Read := do
  let asnParams ← createAndDecode readTime fuel dsaParameters params
  let asnKey ← createAndDecode readTime fuel dsaPrivatePart keydata
  match asnParams, asnKey with
  | some asnParams, some asnKey =>
    match gkmDataAsn1ReadMpi (field asnParams "p"), gkmDataAsn1ReadMpi (field asnParams "q"),
      gkmDataAsn1ReadMpi (field asnParams "g"), gkmDataAsn1ReadMpi (some asnKey) with
    | some p, some q, some g, some x => pure (.success, some (.dsa p q g (g ^ x % p) x))
    | _, _, _, _ => pure (.failure, none)
  | _, _ => pure (.unrecognized, none)

/-- The key of `gkm_data_der_read_private_pkcs8_plain`, once its parts are known. -/
def readKeyParts (algorithm keydata : Bytes) (params : Option Bytes) : Read :=
  if algorithm = oidPkix1Rsa then gkmDataDerReadPrivateKeyRsa readTime fuel keydata
  else do
    -- try the normal one block format, otherwise the two part format
    let r ← gkmDataDerReadPrivateKeyDsa readTime fuel keydata
    match r.1, params with
    | .unrecognized, some params =>
      if params = [] then pure r else gkmDataDerReadPrivateKeyDsaParts readTime fuel keydata params
    | _, _ => pure r

/-- `gkm_data_der_read_private_pkcs8_plain`. -/
def gkmDataDerReadPrivatePkcs8Plain (data : Bytes) : Read := do
  match ← createAndDecode readTime fuel privateKeyInfo data with
  | none => pure (.unrecognized, none)
  | some asn =>
    match (eggAsn1xNode asn [ascii "privateKeyAlgorithm", ascii "algorithm"]).bind
      eggAsn1xGetOidAsString with
    | none => pure (.failure, none)
    | some algorithm =>
      if algorithm ≠ oidPkix1Rsa ∧ algorithm ≠ oidPkix1Dsa then pure (.unrecognized, none)
      else
        match (field asn "privateKey").bind eggAsn1xGetRawValue with
        | none => pure (.failure, none)
        | some keydata =>
          readKeyParts readTime fuel algorithm keydata
            ((eggAsn1xNode asn [ascii "privateKeyAlgorithm", ascii "parameters"]).bind
              eggAsn1xGetRawElement)

/-! ## Writing keys -/

/-- Some setters, one after the other, until one of them fails. -/
def setAll : List Setter → Setter
  | [], asn => .ok (some asn)
  | f :: fs, asn => do
      match ← f asn with
      | none => pure none
      | some asn => setAll fs asn

/-- Set the node with a name. -/
def setField (name : String) (f : Setter) : Setter := setAt f [ascii name]

/-- `egg_asn1x_encode` of a tree, if there is one. -/
def encodeTree (asn : Option Node) : Except Halt (Option Bytes) :=
  match asn with
  | none => .ok none
  | some asn => step (eggAsn1xEncode readTime asn)

/-- `egg_asn1x_set_integer_as_ulong`, which does not fail. -/
def setUlong (value : Nat) : Setter := fun asn => do
  let asn ← step (eggAsn1xSetIntegerAsUlong value asn)
  pure (some asn)

/-- The number zero as a version. -/
def setVersion : Setter := setUlong 0

/-- `gkm_data_der_write_private_key_rsa`. -/
def gkmDataDerWritePrivateKeyRsa (n e d p q u : Nat) : Except Halt (Option Bytes) := do
  let asn ← setAll
    [setField "modulus" (gkmDataAsn1WriteMpi n), setField "publicExponent" (gkmDataAsn1WriteMpi e),
      setField "privateExponent" (gkmDataAsn1WriteMpi d), setField "prime1" (gkmDataAsn1WriteMpi p),
      setField "prime2" (gkmDataAsn1WriteMpi q), setField "coefficient" (gkmDataAsn1WriteMpi u),
      setField "exponent1" (gkmDataAsn1WriteMpi (d % (p - 1))),
      setField "exponent2" (gkmDataAsn1WriteMpi (d % (q - 1))), setField "version" setVersion] rsaPrivateKey
  encodeTree readTime asn

/-- `gkm_data_der_write_private_key_dsa_part`. -/
def gkmDataDerWritePrivateKeyDsaPart (x : Nat) : Except Halt (Option Bytes) := do
  let asn ← gkmDataAsn1WriteMpi x dsaPrivatePart
  encodeTree readTime asn

/-- `gkm_data_der_write_private_key_dsa_params`. -/
def gkmDataDerWritePrivateKeyDsaParams (p q g : Nat) : Except Halt (Option Bytes) := do
  let asn ← setAll
    [setField "p" (gkmDataAsn1WriteMpi p), setField "q" (gkmDataAsn1WriteMpi q),
      setField "g" (gkmDataAsn1WriteMpi g)] dsaParameters
  encodeTree readTime asn

/-- A setter that may also fail to decode. -/
def setRawElement (data : Bytes) : Setter := fun asn => do
  let r ← eggAsn1xSetRawElement fuel data asn
  pure (if r.1 then some r.2 else none)

/-- The algorithm, the key and the parameters of `gkm_data_der_write_private_pkcs8_plain`. -/
def writeKeyParts : PrivateKey → Except Halt (Bytes × Option Bytes × Option Bytes)
  | .rsa n e d p q u => do
      let key ← gkmDataDerWritePrivateKeyRsa readTime n e d p q u
      pure (oidPkix1Rsa, key, none)
  | .dsa p q g _ x => do
      let key ← gkmDataDerWritePrivateKeyDsaPart readTime x
      let params ← gkmDataDerWritePrivateKeyDsaParams readTime p q g
      pure (oidPkix1Dsa, key, params)

/-- A setter for what may be missing. -/
def setOptional (f : Bytes → Setter) : Option Bytes → Setter
  | none, asn => .ok (some asn)
  | some data, asn => f data asn

/-- `egg_asn1x_set_oid_as_quark`. -/
def setOid (oid : Bytes) : Setter := fun asn => step (eggAsn1xSetOidAsString oid asn)

/-- `egg_asn1x_set_string_as_raw`, which fails without data. -/
def setString : Option Bytes → Setter
  | none, _ => .ok none
  | some data, asn => do
      let asn ← step (eggAsn1xSetStringAsRaw data asn)
      pure (some asn)

/-- `gkm_data_der_write_private_pkcs8_plain`. -/
def gkmDataDerWritePrivatePkcs8Plain (skey : PrivateKey) : Except Halt (Option Bytes) := do
  let parts ← writeKeyParts readTime skey
  let asn ← setAll
    [setField "version" setVersion,
      setAt (setOid parts.1) [ascii "privateKeyAlgorithm", ascii "algorithm"],
      setOptional (fun params => setAt (setRawElement fuel params)
        [ascii "privateKeyAlgorithm", ascii "parameters"]) parts.2.2,
      setField "privateKey" (setString parts.2.1)] privateKeyInfo
  encodeTree readTime asn

end Der

/-! ## Encrypted keys -/

/-- What lies in `libgcrypt` and in the derivation of keys. -/
structure Crypto where
  /-- Whether `gcry_cipher_algo_info` has an error for the number of a cipher. -/
  algoError : Nat → Bool
  /-- The number of the quark of `OID_PKCS12_PBE_3DES_SHA1`. -/
  quark : Nat
  /-- The key and the initialization vector that `generate_pkcs12` derives from a password, a salt and a
  number of iterations. -/
  derive : Option Bytes → Bytes → Nat → Bytes × Bytes
  /-- Triple DES in CBC mode, with a key and an initialization vector. -/
  encrypt : Bytes × Bytes → Bytes → Bytes
  decrypt : Bytes × Bytes → Bytes → Bytes
  /-- How the schemes that are not used for writing decrypt, from the password and the parameters. -/
  otherScheme : Bytes → Option Bytes → Bytes → Option (Bytes → Option Bytes)

/-- `GCRY_CIPHER_3DES` -/
def gcryCipher3des : Nat := 2

/-- The length of a block of triple DES. -/
def blockLength : Nat := 8

section Crypted

variable (crypto : Crypto)

/-- `egg_symkey_generate_pkcs12`. -/
def eggSymkeyGeneratePkcs12 (password : Option Bytes) (salt : Bytes) (iterations : Int) :
    Option (Bytes × Bytes) :=
  if iterations ≤ 0 then none
  else if (password.map utf8Validate).getD true = false then none
  else some (crypto.derive password salt iterations.toNat)

/-- `gcry_cipher_encrypt`: the length has to be a multiple of the length of a block. -/
def gcryCipherEncrypt (key : Bytes × Bytes) (data : Bytes) : Option Bytes :=
  if data.length % blockLength = 0 then some (crypto.encrypt key data) else none

/-- `gcry_cipher_decrypt`. -/
def gcryCipherDecrypt (key : Bytes × Bytes) (data : Bytes) : Option Bytes :=
  if data.length % blockLength = 0 then some (crypto.decrypt key data) else none

variable (readTime : TimeReader) (fuel : Nat)

/-- `read_cipher_pkcs12_pbe`, with triple DES. -/
def readCipherPkcs12Pbe (password : Option Bytes) (data : Bytes) :
    Except Halt (Option (Bytes → Option Bytes)) :=
  if crypto.algoError gcryCipher3des then .ok none
  else do
    match ← createAndDecode readTime fuel pbeParams data with
    | none => pure none
    | some asn =>
      match (field asn "salt").bind eggAsn1xGetRawValue,
        (field asn "iterations").bind eggAsn1xGetIntegerAsUlong with
      | some salt, some iterations =>
        pure ((eggSymkeyGeneratePkcs12 crypto password salt (gint iterations)).map
          (gcryCipherDecrypt crypto))
      | _, _ => pure none

/-- `egg_symkey_read_cipher`. -/
def eggSymkeyReadCipher (scheme : Bytes) (password : Option Bytes) (data : Bytes) :
    Except Halt (Option (Bytes → Option Bytes)) :=
  if data = [] then .ok none
  else if scheme = oidPkcs12Pbe3desSha1 then readCipherPkcs12Pbe crypto readTime fuel password data
  else .ok (crypto.otherScheme scheme password data)

/-- The end of `gkm_data_der_read_private_pkcs8_crypted`, with what was decrypted. -/
def readDecrypted (data : Bytes) : Read := do
  match ← step (eggAsn1xElementLength data) with
  | none => pure (.locked, none)
  | some length =>
    if length = 0 ∨ data.length < length then pure (.locked, none)
    else do
      let r ← gkmDataDerReadPrivatePkcs8Plain readTime fuel (data.take length)
      -- if unrecognized we assume bad password
      pure (if r.1 = .unrecognized then (.locked, r.2) else r)

/-- `gkm_data_der_read_private_pkcs8_crypted`. -/
def gkmDataDerReadPrivatePkcs8Crypted (data : Bytes) (password : Option Bytes) : Read := do
  match ← createAndDecode readTime fuel encryptedPrivateKeyInfo data with
  | none => pure (.unrecognized, none)
  | some asn =>
    match (eggAsn1xNode asn [ascii "encryptionAlgorithm", ascii "algorithm"]).bind eggAsn1xGetOidAsString,
      (eggAsn1xNode asn [ascii "encryptionAlgorithm", ascii "parameters"]).bind eggAsn1xGetRawElement with
    | some scheme, some params => do
        match ← eggSymkeyReadCipher crypto readTime fuel scheme password params with
        | none => pure (.failure, none)
        | some decrypt => do
            match ← step (match field asn "encryptedData" with
              | none => .ok none
              | some node => eggAsn1xGetStringAsRaw node) with
            | none => pure (.failure, none)
            | some crypted =>
              match decrypt crypted with
              | none => pure (.failure, none)
              | some data => readDecrypted readTime fuel data
    | _, _ => pure (.failure, none)

/-- `gkm_data_der_read_private_pkcs8`. -/
def gkmDataDerReadPrivatePkcs8 (data : Bytes) (password : Option Bytes) : Read := do
  let r ← gkmDataDerReadPrivatePkcs8Crypted crypto readTime fuel data password
  if r.1 = .unrecognized then gkmDataDerReadPrivatePkcs8Plain readTime fuel data else pure r

/-- The parameters of `prepare_and_encode_pkcs8_cipher`. -/
def encodePbeParams (salt : Bytes) (iterations : Nat) : Except Halt (Option Bytes) := do
  let asn ← setAll
    [setField "salt" (setString (some salt)),
      setField "iterations" (setUlong iterations)] pbeParams
  encodeTree readTime asn

/-- `prepare_and_encode_pkcs8_cipher`, with the salt and the number of iterations that it draws. The check of
the algorithm hands the quark to `libgcrypt`, and goes on if there is an error. -/
def prepareAndEncodePkcs8Cipher (asn : Node) (password : Option Bytes) (salt : Bytes)
    (iterations : Nat) : Except Halt (Option (Node × (Bytes × Bytes))) :=
  if crypto.algoError crypto.quark then
    match eggSymkeyGeneratePkcs12 crypto password salt iterations with
    | none => .ok none
    | some key => do
        match ← encodePbeParams readTime salt iterations with
        | none => pure none
        | some portion => do
            let asn ← setAll
              [setAt (setOid oidPkcs12Pbe3desSha1) [ascii "encryptionAlgorithm", ascii "algorithm"],
                setAt (setRawElement fuel portion) [ascii "encryptionAlgorithm", ascii "parameters"]] asn
            pure (asn.map fun asn => (asn, key))
  else .ok none

/-- The padding of `gkm_data_der_write_private_pkcs8_crypted`. -/
def padBlock (data : Bytes) : Bytes :=
  let pad := blockLength - data.length % blockLength
  data ++ List.replicate pad (UInt8.ofNat pad)

/-- `gkm_data_der_write_private_pkcs8_crypted`, with the salt and the number of iterations that are drawn. -/
def gkmDataDerWritePrivatePkcs8Crypted (skey : PrivateKey) (password : Option Bytes)
    (salt : Bytes) (iterations : Nat) : Except Halt (Option Bytes) := do
  match ← gkmDataDerWritePrivatePkcs8Plain readTime fuel skey with
  | none => pure none
  | some key => do
      match ← prepareAndEncodePkcs8Cipher crypto readTime fuel encryptedPrivateKeyInfo password salt
        iterations with
      | none => pure none
      | some (asn, cih) =>
        match gcryCipherEncrypt crypto cih (padBlock key) with
        | none => pure none
        | some crypted => do
            let asn ← setField "encryptedData" (setString (some crypted)) asn
            encodeTree readTime asn

end Crypted

end MateKeyring.Gkm
