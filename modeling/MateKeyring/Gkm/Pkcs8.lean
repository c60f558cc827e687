import MateKeyring.Gkm.DataDer

/-!
# Private key files can be read again

What the writers of `gkm-data-der.c` put into their trees are values (`rsaValue`, `plainValue`,
`cryptedValue`), so that writing and reading meet in the bytes of a value. A key comes back from its plain
form, and from its encrypted form unless the number of iterations that was drawn is a multiple of 256: such a
number is written as zero, and no cipher is made of it.
-/

set_option autoImplicit false

namespace MateKeyring.Gkm

open Lib Asn1x BigEndian List

variable {fuel : Nat} {n e d p q u : Nat} {node : Node} {content : Bytes}

/-! ## Numbers -/

theorem length_gcryMpiPrint (n : Nat) : (gcryMpiPrint n).length = (Nat.digits 256 (2 * n)).length := by
  rw [gcryMpiPrint, length_encode]

theorem gcryMpiPrint_ne_nil {n : Nat} (h : 0 < n) : gcryMpiPrint n ≠ [] := by
  apply length_pos_iff.1
  rw [length_gcryMpiPrint]
  exact length_pos_iff.2 (Nat.digits_ne_nil_iff_ne_zero.2 (by omega))

theorem decode_gcryMpiPrint (n : Nat) : decode (gcryMpiPrint n) = n := by
  have hlt : 2 * n < 256 ^ (Nat.digits 256 (2 * n)).length := Nat.lt_base_pow_length_digits (by decide)
  exact decode_encode_of_lt (by omega)

/-- A smaller number does not take more bytes. -/
theorem length_gcryMpiPrint_le {m n : Nat} (h : m ≤ n) :
    (gcryMpiPrint m).length ≤ (gcryMpiPrint n).length := by
  rw [length_gcryMpiPrint, length_gcryMpiPrint]
  exact Nat.le_length_digits_le 256 _ _ (by omega)

/-- The sign of a number that was printed is clear. -/
theorem head_gcryMpiPrint (n : Nat) : (gcryMpiPrint n).headD 0 &&& 0x80 = 0 := by
  have hlt : 2 * n < 256 ^ (Nat.digits 256 (2 * n)).length := Nat.lt_base_pow_length_digits (by decide)
  rw [gcryMpiPrint]
  cases hk : (Nat.digits 256 (2 * n)).length with
  | zero =>
    rw [encode]
    decide
  | succ k =>
    rw [hk, Nat.pow_succ] at hlt
    have hdigit : n / 256 ^ k < 128 := by
      rw [Nat.div_lt_iff_lt_mul (Nat.pow_pos (by decide))]
      omega
    have hlow : ∀ m, m < 128 → UInt8.ofNat m &&& 0x80 = 0 := by decide
    rw [encode, headD_cons, Nat.mod_eq_of_lt (hdigit.trans (by decide))]
    exact hlow _ hdigit

theorem gcryMpiScan_print (n : Nat) : gcryMpiScan (gcryMpiPrint n) = some n := by
  rw [gcryMpiScan, if_pos (head_gcryMpiPrint n), decode_gcryMpiPrint]

/-- An inverse that is small enough is the one that `gcry_mpi_invm` finds. -/
theorem gcryMpiInvm_eq {a m u : Nat} (hm : 1 < m) (hu : u < m) (h : a * u % m = 1) :
    gcryMpiInvm a m = u := by
  have hcop : Nat.Coprime a m := by
    rw [Nat.coprime_iff_gcd_eq_one]
    have hdvd : a.gcd m ∣ 1 := by
      have hmul : a.gcd m ∣ a * u := (Nat.gcd_dvd_left a m).mul_right u
      have hmod : a.gcd m ∣ a * u % m := (Nat.dvd_mod_iff (Nat.gcd_dvd_right a m)).2 hmul
      rwa [h] at hmod
    exact Nat.dvd_one.1 hdvd
  have hbezout : (a : Int) * Nat.gcdA a m % m = 1 := by
    have hgcd := Nat.gcd_eq_gcd_ab a m
    rw [hcop] at hgcd
    have hsub : (a : Int) * Nat.gcdA a m = 1 - m * Nat.gcdB a m := by
      push_cast at hgcd
      omega
    rw [hsub, Int.sub_mul_emod_self_left]
    exact Int.emod_eq_of_lt (by decide) (by exact_mod_cast hm)
  -- two inverses of `a` are equal
  have hcongr : Nat.gcdA a m % m = (u : Int) := by
    have hleft : Nat.gcdA a m ≡ (u : Int) [ZMOD m] := by
      have hone : (a : Int) * u ≡ 1 [ZMOD m] := by
        have : ((a * u : Nat) : Int) % (m : Int) = ((1 : Nat) : Int) := by
          rw [← Int.natCast_emod, h]
        rw [Int.ModEq]
        push_cast at this
        rw [this]
        exact (Int.emod_eq_of_lt (by decide) (by exact_mod_cast hm)).symm
      have hone' : (a : Int) * Nat.gcdA a m ≡ 1 [ZMOD m] := by
        rw [Int.ModEq, hbezout]
        exact (Int.emod_eq_of_lt (by decide) (by exact_mod_cast hm)).symm
      calc Nat.gcdA a m = Nat.gcdA a m * 1 := (Int.mul_one _).symm
        _ ≡ Nat.gcdA a m * (a * u) [ZMOD m] := hone.symm.mul_left _
        _ = (a * Nat.gcdA a m) * u := by ring
        _ ≡ 1 * u [ZMOD m] := hone'.mul_right _
        _ = u := Int.one_mul _
    rw [hleft]
    exact Int.emod_eq_of_lt (Int.natCast_nonneg u) (by exact_mod_cast hu)
  rw [gcryMpiInvm, hcongr, Int.toNat_natCast]

/-! ## Values of nodes -/

/-- The contents of an `INTEGER`. -/
def integerValue (content : Bytes) : Value := .element asn1ClassUniversal 2 content

/-- A number as an `INTEGER`. -/
def numberValue (n : Nat) : Value := integerValue (gcryMpiPrint n)

/-- An `OCTET STRING`. -/
def octetsValue (data : Bytes) : Value := .element asn1ClassUniversal 4 data

/-- An `OBJECT IDENTIFIER`, from its text. -/
def oidValue (oid : Bytes) : Value := .element asn1ClassUniversal 6 ((anodeWriteOid oid).getD [])

/-- A number that an S-expression can hold, other than zero: the lengths in it have 16 bits. -/
def Held (n : Nat) : Prop := 0 < n ∧ (gcryMpiPrint n).length < 2 ^ 16

theorem plainInteger_integerNode (name : String) : PlainInteger (integerNode name) :=
  ⟨⟨rfl, rfl⟩, rfl, rfl, rfl, rfl⟩

theorem fits_number (name : String) {n : Nat} (h : Held n) : Fits (integerNode name) (numberValue n) :=
  fits_integer (plainInteger_integerNode name) (gcryMpiPrint_ne_nil h.1)

/-- `gkm_data_asn1_write_mpi` loads a node with a number. -/
theorem writeMpi_load (name : String) {n : Nat} (h : Held n) :
    gkmDataAsn1WriteMpi n (integerNode name) =
      .ok (some (loaded (numberValue n) (integerNode name))) := by
  have hhead := head_gcryMpiPrint n
  have hne := gcryMpiPrint_ne_nil h.1
  have hload := encodeTlvAndEnc_load (fits_number name h) (show Kind.integer ≠ Kind.any by decide)
    (h.2.trans (by decide))
  rw [numberValue, integerValue]
  cases hprint : gcryMpiPrint n with
  | nil => exact absurd hprint hne
  | cons first rest =>
    rw [hprint] at hhead hload
    have hsign : ¬ (first &&& 0x80 ≠ 0) := not_not.2 hhead
    rw [gkmDataAsn1WriteMpi, hprint, eggAsn1xSetIntegerAsRaw, if_neg hsign, hload]
    rfl

theorem readMpi_filled (name : String) (n : Nat) (rest : Bytes) :
    gkmDataAsn1ReadMpi (some (filled (numberValue n) (integerNode name) rest)) = some n := by
  rw [gkmDataAsn1ReadMpi, Option.bind_some, numberValue, integerValue, getRawValue_filled (by decide),
    Option.bind_some, gcryMpiScan_print]

theorem FitsList.cons {child : Node} {children : List Node} {v : Value} {vs : List Value}
    (hchild : Fits child v) (hpresent : v.isAbsent = false) (hrest : FitsList children vs) :
    FitsList (child :: children) (v :: vs) := by
  rw [FitsList]
  exact ⟨hchild, fun h => absurd h (by rw [hpresent]; decide), hrest⟩

theorem FitsList.last {child : Node} {v : Value} (hchild : Fits child v) : FitsList [child] [v] := by
  rw [FitsList, FitsList]
  exact ⟨hchild, fun _ => rfl, trivial⟩

theorem setAll_cons {f : Setter} {asn asn' : Node} (h : f asn = .ok (some asn')) (fs : List Setter) :
    setAll (f :: fs) asn = setAll fs asn' := by
  rw [setAll, h, ok_bind]

/-- A number is set in a tree that is partly loaded. -/
theorem setNumber {name : String} {n : Nat} (h : Held n) {items : List Value} {i : Nat}
    (hi : node.children.findIdx? (named (ascii name)) = some i)
    (hchild : node.children[i]? = some (integerNode name)) (hitem : items[i]? = some .absent) :
    setField name (gkmDataAsn1WriteMpi n) (loaded (.sequence items) node) =
      .ok (some (loaded (.sequence (items.set i (numberValue n))) node)) :=
  setAt_sequence hi hchild hitem (writeMpi_load name h)

/-- A number is read from a tree that was filled. -/
theorem readNumber {name : String} {n : Nat} {items : List Value} {i : Nat}
    (hi : node.children.findIdx? (named (ascii name)) = some i)
    (hchild : node.children[i]? = some (integerNode name)) (hitem : items[i]? = some (numberValue n))
    (rest : Bytes) :
    gkmDataAsn1ReadMpi (field (filled (.sequence items) node rest) name) = some n := by
  obtain ⟨rest', hnode⟩ := node_filled [] hi hchild hitem rest
  rw [field, hnode]
  exact readMpi_filled name n rest'

/-- The number zero is written in one byte. -/
theorem writeIntegerUlong_zero : anodeWriteIntegerUlong 0 = [0] := by decide

section

variable {target : String} {constants : List Def}
  (hfits : Fits (versionNode target constants) (integerValue [0]))

include hfits

/-- A version that may be zero is loaded with it. -/
theorem setVersion_load :
    setVersion (versionNode target constants) =
      .ok (some (loaded (integerValue [0]) (versionNode target constants))) := by
  have hload := encodeTlvAndEnc_load hfits (show Kind.integer ≠ Kind.any by decide) (by decide)
  rw [setVersion, setUlong, eggAsn1xSetIntegerAsUlong, writeIntegerUlong_zero, hload]
  rfl

/-- The version of a tree that is partly loaded is set. -/
theorem setVersion_field {items : List Value}
    (hi : node.children.findIdx? (named (ascii "version")) = some 0)
    (hchild : node.children[0]? = some (versionNode target constants)) (hitem : items[0]? = some .absent) :
    setField "version" setVersion (loaded (.sequence items) node) =
      .ok (some (loaded (.sequence (items.set 0 (integerValue [0]))) node)) :=
  setAt_sequence hi hchild hitem (setVersion_load hfits)

end

/-! ## RSA keys -/

/-- The numbers of an RSA key in the order of `RSAPrivateKey`. -/
def rsaItems (n e d p q u : Nat) : List Value :=
  [integerValue [0], numberValue n, numberValue e, numberValue d, numberValue p, numberValue q,
    numberValue (d % (p - 1)), numberValue (d % (q - 1)), numberValue u, .absent]

/-- The numbers of an RSA key that can be written. -/
structure RsaHeld (n e d p q u : Nat) : Prop where
  modulus : Held n
  publicExponent : Held e
  privateExponent : Held d
  prime1 : Held p
  prime2 : Held q
  coefficient : Held u
  exponent1 : Held (d % (p - 1))
  exponent2 : Held (d % (q - 1))

theorem fits_rsaVersion : Fits (versionNode "Version" [constant "two-prime" "0", constant "multi" "1"])
    (integerValue [0]) := by
  rw [integerValue, Fits]
  exact ⟨⟨rfl, rfl⟩, rfl, rfl, by decide, by decide, by decide, by decide⟩

theorem fits_otherPrimeInfos : Fits otherPrimeInfos .absent := by
  rw [Fits]
  exact ⟨⟨rfl, rfl⟩, rfl, rfl, rfl⟩

theorem fits_rsa (h : RsaHeld n e d p q u) :
    Fits rsaPrivateKey (.sequence (rsaItems n e d p q u)) := by
  rw [Fits]
  refine ⟨⟨rfl, rfl⟩, rfl, rfl, rfl, ?_⟩
  apply FitsList.cons fits_rsaVersion rfl
  apply FitsList.cons (fits_number _ h.modulus) rfl
  apply FitsList.cons (fits_number _ h.publicExponent) rfl
  apply FitsList.cons (fits_number _ h.privateExponent) rfl
  apply FitsList.cons (fits_number _ h.prime1) rfl
  apply FitsList.cons (fits_number _ h.prime2) rfl
  apply FitsList.cons (fits_number _ h.exponent1) rfl
  apply FitsList.cons (fits_number _ h.exponent2) rfl
  apply FitsList.cons (fits_number _ h.coefficient) rfl
  exact FitsList.last fits_otherPrimeInfos

/-- The tree of `gkm_data_der_write_private_key_rsa`. -/
theorem setAll_rsa (h : RsaHeld n e d p q u) :
    setAll
      [setField "modulus" (gkmDataAsn1WriteMpi n), setField "publicExponent" (gkmDataAsn1WriteMpi e),
        setField "privateExponent" (gkmDataAsn1WriteMpi d), setField "prime1" (gkmDataAsn1WriteMpi p),
        setField "prime2" (gkmDataAsn1WriteMpi q), setField "coefficient" (gkmDataAsn1WriteMpi u),
        setField "exponent1" (gkmDataAsn1WriteMpi (d % (p - 1))),
        setField "exponent2" (gkmDataAsn1WriteMpi (d % (q - 1))), setField "version" setVersion]
        rsaPrivateKey =
      .ok (some (loaded (.sequence (rsaItems n e d p q u)) rsaPrivateKey)) := by
  change setAll _ (loaded (.sequence (replicate 10 .absent)) rsaPrivateKey) = _
  rw [setAll_cons (setNumber (i := 1) h.modulus rfl rfl rfl), setAll_cons (setNumber (i := 2) h.publicExponent rfl rfl rfl),
    setAll_cons (setNumber (i := 3) h.privateExponent rfl rfl rfl), setAll_cons (setNumber (i := 4) h.prime1 rfl rfl rfl),
    setAll_cons (setNumber (i := 5) h.prime2 rfl rfl rfl), setAll_cons (setNumber (i := 8) h.coefficient rfl rfl rfl),
    setAll_cons (setNumber (i := 6) h.exponent1 rfl rfl rfl), setAll_cons (setNumber (i := 7) h.exponent2 rfl rfl rfl)]
  rw [setAll_cons (setVersion_field fits_rsaVersion rfl rfl rfl)]
  rfl

theorem length_element_le (cls : UInt8) {tag : Nat} (htag : tag < 31) (content : Bytes) :
    (element cls tag content).length ≤ content.length + 10 := by
  have hdigits := length_lengthDigits 8 content.length
  rw [length_element, length_anodeEncodeClsTagLen cls htag, anodeEncodeLength]
  split
  · rw [length_singleton]
    omega
  · rw [length_cons, length_reverse]
    omega

/-- The room that a sequence takes. -/
theorem length_sequence_le (items : List Value) :
    (Value.sequence items).bytes.length ≤ (Value.bytesList items).length + 10 := by
  rw [Value.bytes]
  exact length_element_le _ (by decide) _

theorem sequence_ne_nil (content : Bytes) : element asn1ClassStructured 16 content ≠ [] := by
  have hpos := length_element_pos asn1ClassStructured (show 16 < 31 by decide) content
  rw [← length_pos_iff, length_element]
  omega

theorem length_numberValue {n : Nat} (h : Held n) : (numberValue n).bytes.length < 2 ^ 16 + 10 := by
  have hle := length_element_le asn1ClassUniversal (show 2 < 31 by decide) (gcryMpiPrint n)
  have hlt := h.2
  rw [numberValue, integerValue, Value.bytes]
  omega

/-- An RSA key is small. -/
theorem length_rsa (h : RsaHeld n e d p q u) :
    (Value.sequence (rsaItems n e d p q u)).bytes.length < 2 ^ 24 := by
  have hle := length_sequence_le (rsaItems n e d p q u)
  have hversion : (integerValue [0]).bytes.length = 3 := by decide
  have h1 := length_numberValue h.modulus
  have h2 := length_numberValue h.publicExponent
  have h3 := length_numberValue h.privateExponent
  have h4 := length_numberValue h.prime1
  have h5 := length_numberValue h.prime2
  have h6 := length_numberValue h.exponent1
  have h7 := length_numberValue h.exponent2
  have h8 := length_numberValue h.coefficient
  have habsent : Value.absent.bytes.length = 0 := rfl
  simp only [rsaItems, Value.bytesList, length_append, length_nil] at hle ⊢
  omega

/-- `gkm_data_der_write_private_key_rsa` writes the value of a key. -/
theorem writePrivateKeyRsa_eq (readTime : TimeReader) (h : RsaHeld n e d p q u) :
    gkmDataDerWritePrivateKeyRsa readTime n e d p q u =
      .ok (some (Value.sequence (rsaItems n e d p q u)).bytes) := by
  have hencode := eggAsn1xEncode_value readTime (fits_rsa h) rfl ((length_rsa h).trans (by decide))
  rw [gkmDataDerWritePrivateKeyRsa, setAll_rsa h, ok_bind, encodeTree, hencode]
  rfl

theorem createAndDecode_value (readTime : TimeReader) {v : Value} (hfits : Fits node v)
    (hpresent : v.isAbsent = false) (hclear : eggAsn1xClear node = node) (hfuel : v.depth < fuel)
    (hsize : v.bytes.length < 2 ^ 31) :
    createAndDecode readTime fuel node v.bytes = .ok (some (filled v node [])) := by
  rw [createAndDecode, eggAsn1xDecode_value readTime hfits hpresent hclear hfuel hsize, ok_bind]
  rfl

/-- `gkm_data_der_read_private_key_rsa` reads the value of a key. -/
theorem readPrivateKeyRsa_eq (readTime : TimeReader) (hfuel : 1 < fuel)
    (h : RsaHeld n e d p q u) :
    gkmDataDerReadPrivateKeyRsa readTime fuel (Value.sequence (rsaItems n e d p q u)).bytes =
      .ok (.success, some (gcryptRsa n e d p q u)) := by
  have hdecode := createAndDecode_value readTime (fits_rsa h) rfl rfl hfuel
    ((length_rsa h).trans (by decide))
  generalize hasn : filled (.sequence (rsaItems n e d p q u)) rsaPrivateKey [] = asn at hdecode
  have hversion : (field asn "version").bind eggAsn1xGetIntegerAsUlong = some 0 := by
    obtain ⟨rest, hnode⟩ := @node_filled [] (ascii "version") rsaPrivateKey _ (rsaItems n e d p q u) 0 _
      rfl rfl rfl []
    rw [field, ← hasn, hnode, eggAsn1xNode, Option.bind_some, integerValue, getInteger_filled]
    decide
  have hnumber : ∀ {name : String} {i m : Nat},
      rsaPrivateKey.children.findIdx? (named (ascii name)) = some i →
      rsaPrivateKey.children[i]? = some (integerNode name) →
      (rsaItems n e d p q u)[i]? = some (numberValue m) →
      gkmDataAsn1ReadMpi (field asn name) = some m := by
    intro name i m hi hchild hitem
    rw [← hasn]
    exact readNumber hi hchild hitem []
  have h1 : gkmDataAsn1ReadMpi (field asn "modulus") = some n := @hnumber _ 1 _ rfl rfl rfl
  have h2 : gkmDataAsn1ReadMpi (field asn "publicExponent") = some e := @hnumber _ 2 _ rfl rfl rfl
  have h3 : gkmDataAsn1ReadMpi (field asn "privateExponent") = some d := @hnumber _ 3 _ rfl rfl rfl
  have h4 : gkmDataAsn1ReadMpi (field asn "prime1") = some p := @hnumber _ 4 _ rfl rfl rfl
  have h5 : gkmDataAsn1ReadMpi (field asn "prime2") = some q := @hnumber _ 5 _ rfl rfl rfl
  have h6 : gkmDataAsn1ReadMpi (field asn "coefficient") = some u := @hnumber _ 8 _ rfl rfl rfl
  rw [gkmDataDerReadPrivateKeyRsa, hdecode, ok_bind]
  dsimp only
  rw [hversion]
  dsimp only
  rw [if_neg (by decide), h1, h2, h3, h4, h5, h6]
  rfl

/-! ## DSA keys -/

/-- The parameters of a DSA key. -/
def dsaItems (p q g : Nat) : List Value := [numberValue p, numberValue q, numberValue g]

/-- The numbers of a DSA key that can be written. -/
structure DsaHeld (p q g x : Nat) : Prop where
  prime : Held p
  subprime : Held q
  base : Held g
  value : Held x

theorem fits_dsa {p q g x : Nat} (h : DsaHeld p q g x) : Fits dsaParameters (.sequence (dsaItems p q g)) := by
  rw [Fits]
  refine ⟨⟨rfl, rfl⟩, rfl, rfl, rfl, ?_⟩
  apply FitsList.cons (fits_number _ h.prime) rfl
  apply FitsList.cons (fits_number _ h.subprime) rfl
  exact FitsList.last (fits_number _ h.base)

theorem length_dsa {p q g x : Nat} (h : DsaHeld p q g x) :
    (Value.sequence (dsaItems p q g)).bytes.length < 2 ^ 24 := by
  have hle := length_sequence_le (dsaItems p q g)
  have h1 := length_numberValue h.prime
  have h2 := length_numberValue h.subprime
  have h3 := length_numberValue h.base
  simp only [dsaItems, Value.bytesList, length_append, length_nil] at hle ⊢
  omega

section

variable (readTime : TimeReader)

include readTime

/-- `gkm_data_der_write_private_key_dsa_params` writes the value of the parameters. -/
theorem writePrivateKeyDsaParams_eq {p q g x : Nat} (h : DsaHeld p q g x) :
    gkmDataDerWritePrivateKeyDsaParams readTime p q g =
      .ok (some (Value.sequence (dsaItems p q g)).bytes) := by
  have hset : setAll [setField "p" (gkmDataAsn1WriteMpi p), setField "q" (gkmDataAsn1WriteMpi q),
      setField "g" (gkmDataAsn1WriteMpi g)] dsaParameters =
        .ok (some (loaded (.sequence (dsaItems p q g)) dsaParameters)) := by
    change setAll _ (loaded (.sequence (replicate 3 .absent)) dsaParameters) = _
    rw [setAll_cons (setNumber (i := 0) h.prime rfl rfl rfl),
      setAll_cons (setNumber (i := 1) h.subprime rfl rfl rfl),
      setAll_cons (setNumber (i := 2) h.base rfl rfl rfl)]
    rfl
  have hencode := eggAsn1xEncode_value readTime (fits_dsa h) rfl ((length_dsa h).trans (by decide))
  rw [gkmDataDerWritePrivateKeyDsaParams, hset, ok_bind, encodeTree, hencode]
  rfl

/-- `gkm_data_der_write_private_key_dsa_part` writes the private number. -/
theorem writePrivateKeyDsaPart_eq {x : Nat} (h : Held x) :
    gkmDataDerWritePrivateKeyDsaPart readTime x = .ok (some (numberValue x).bytes) := by
  have hencode := eggAsn1xEncode_value readTime (fits_number "DSAPrivatePart" h) rfl
    ((length_numberValue h).trans (by decide))
  rw [gkmDataDerWritePrivateKeyDsaPart, dsaPrivatePart, writeMpi_load "DSAPrivatePart" h, ok_bind, encodeTree,
    hencode]
  rfl

/-- An element with another tag is not a `SEQUENCE` that has to be there. -/
theorem createAndDecode_other {cls : UInt8} {tag : Nat}
    (hcls : cls &&& 0xe0 = cls) (htag : tag < 31) (hother : tag ≠ 16) (hclear : eggAsn1xClear node = node)
    (hkind : node.kind = .sequence) (hflags : node.flags = {}) (hfuel : 0 < fuel)
    (hsize : (element cls tag content).length < 2 ^ 31) :
    createAndDecode readTime fuel node (element cls tag content) = .ok none := by
  have hpos := length_element_pos cls htag content
  have hlength := length_element cls tag content
  have hne : element cls tag content ≠ [] := length_pos_iff.1 (by omega)
  have hfound := decodeTlvForData_found content [] hcls htag (Nat.le_refl _) hsize
  rw [append_nil] at hfound
  obtain ⟨fuel, rfl⟩ : ∃ k, fuel = k + 1 := ⟨fuel - 1, by omega⟩
  have hmiss : anodeDecodeAnything (anodeDecodeAnythingForFlags (fuel + 1)) node
      (foundTlv cls tag content []) = .ok (false, node, foundTlv cls tag content []) := by
    have htag' : anodeCalcTagForFlags node node.flags = some 16 := by
      rw [anodeCalcTagForFlags, hflags, if_neg Bool.false_ne_true, hkind]
      rfl
    have hmismatch : (foundTlv cls tag content []).off = 0 ∨
        (anodeCalcTagForFlags node node.flags).getD (foundTlv cls tag content []).tag ≠
          (foundTlv cls tag content []).tag := by
      rw [htag']
      exact .inr (Ne.symm hother)
    rw [anodeDecodeAnything, anodeDecodeAnythingForFlags, if_pos hmismatch, hflags, ok_bind]
    rfl
  rw [createAndDecode, eggAsn1xDecode, if_neg hne]
  dsimp only
  rw [hclear, hfound, step_ok, ok_bind]
  dsimp only
  rw [hmiss, ok_bind]
  rfl

/-- A `SEQUENCE` whose first item has another tag than the first child is not decoded. -/
theorem createAndDecode_firstOther {node child other : Node}
    {children : List Node} (hfits : Fits other (integerValue content)) (items : List Value)
    (hclear : eggAsn1xClear node = node) (hkind : node.kind = .sequence) (hflags : node.flags = {})
    (hsize : (element asn1ClassStructured 16 (Value.bytesList (integerValue content :: items))).length <
      2 ^ 31) (hchildren : node.children = child :: children) (hchildKind : child.kind = .sequence)
    (hchildFlags : child.flags = {}) :
    createAndDecode readTime (fuel + 2) node
      (element asn1ClassStructured 16 (Value.bytesList (integerValue content :: items))) = .ok none := by
  have hlength := length_element asn1ClassStructured 16 (Value.bytesList (integerValue content :: items))
  have hne := sequence_ne_nil (Value.bytesList (integerValue content :: items))
  have hfound := @decodeTlvForData_found asn1ClassStructured 16 _
    (Value.bytesList (integerValue content :: items)) [] (by decide) (by decide) (Nat.le_refl _) hsize
  rw [append_nil] at hfound
  have htag : ∀ n : Node, n.kind = .sequence → n.flags = {} → anodeCalcTagForFlags n n.flags = some 16 := by
    intro n hk hf
    rw [anodeCalcTagForFlags, hf, if_neg Bool.false_ne_true, hk]
    rfl
  have hbytes : Value.bytesList (integerValue content :: items) ++ [] =
      (integerValue content).bytes ++ (Value.bytesList items ++ []) := by
    rw [Value.bytesList, append_assoc]
  -- the first item is found, and it is not what the first child is
  have hitem : anodeDecodeTlvForContents
      { foundTlv asn1ClassStructured 16 (Value.bytesList (integerValue content :: items)) [] with len := 0 }
      ((integerValue content).bytes ++ (Value.bytesList items ++ [])) =
      .ok (some ((integerValue content).tlv (Value.bytesList items ++ []))) := by
    refine decodeTlvForContents_value hfits
      (anodeEncodeClsTagLen asn1ClassStructured 16 (Value.bytesList (integerValue content :: items)).length)
      (Value.bytesList items) [] (fun h => absurd h Bool.false_ne_true) ?_ hlength hsize
    rw [← hbytes]
    exact append_assoc _ _ _
  have hmiss : anodeDecodeAnything (anodeDecodeAnythingForFlags (fuel + 1)) child
      ((integerValue content).tlv (Value.bytesList items ++ [])) =
      .ok (false, child, (integerValue content).tlv (Value.bytesList items ++ [])) := by
    have hmismatch : ((integerValue content).tlv (Value.bytesList items ++ [])).off = 0 ∨
        (anodeCalcTagForFlags child child.flags).getD
          ((integerValue content).tlv (Value.bytesList items ++ [])).tag ≠
          ((integerValue content).tlv (Value.bytesList items ++ [])).tag := by
      rw [htag child hchildKind hchildFlags]
      exact .inr (show 16 ≠ 2 by decide)
    rw [anodeDecodeAnything, anodeDecodeAnythingForFlags, if_pos hmismatch, hchildFlags, ok_bind]
    rfl
  have hexplicit : anodeCalcExplicitForFlags node node.flags = false := by
    rw [anodeCalcExplicitForFlags, hflags]
    rfl
  have hmatch : (anodeCalcTagForFlags node node.flags).getD 16 = 16 := by
    rw [htag node hkind hflags]
    rfl
  have hdecode : anodeDecodeAnything (anodeDecodeAnythingForFlags (fuel + 2)) node
      (foundTlv asn1ClassStructured 16 (Value.bytesList (integerValue content :: items)) []) =
      .ok (false, node.withChildren (child :: children),
        { foundTlv asn1ClassStructured 16 (Value.bytesList (integerValue content :: items)) [] with
          len := 0 }) := by
    rw [anodeDecodeAnything, decodeForFlags_found _ [] (fuel + 1) (by decide) hmatch, if_pos (by decide),
      anodeDecodeStructured, hexplicit, if_neg Bool.false_ne_true, anodeDecodeContents, hkind]
    dsimp only
    rw [drop_foundTlv, hchildren, hbytes, anodeDecodeSequenceOrSet]
    dsimp only [foundTlv] at hitem ⊢
    rw [hitem, step_ok, ok_bind]
    dsimp only
    rw [hmiss, ok_bind]
    dsimp only
    rw [if_neg Bool.false_ne_true, pure_eq_ok, ok_bind, pure_eq_ok, ok_bind]
    dsimp only
    rw [if_neg Bool.false_ne_true, pure_eq_ok, ok_bind]
    dsimp only
    rw [if_neg Bool.false_ne_true, hflags]
    rfl
  rw [createAndDecode, eggAsn1xDecode, if_neg hne]
  dsimp only
  rw [hclear, hfound, step_ok, ok_bind]
  dsimp only
  rw [hdecode, ok_bind]
  rfl

/-- The two parts of a DSA key are read. -/
theorem readPrivateKeyDsaParts_eq (hfuel : 1 < fuel) {p q g x : Nat} (h : DsaHeld p q g x) :
    gkmDataDerReadPrivateKeyDsaParts readTime fuel (numberValue x).bytes
        (Value.sequence (dsaItems p q g)).bytes =
      .ok (.success, some (.dsa p q g (g ^ x % p) x)) := by
  have hparams := createAndDecode_value readTime (fits_dsa h) rfl rfl hfuel
    ((length_dsa h).trans (by decide))
  have hkey := createAndDecode_value readTime (fits_number "DSAPrivatePart" h.value) rfl rfl
    (show (numberValue x).depth < fuel by rw [numberValue, integerValue, Value.depth]; omega)
    ((length_numberValue h.value).trans (by decide))
  have hx := readMpi_filled "DSAPrivatePart" x []
  generalize hasn : filled (.sequence (dsaItems p q g)) dsaParameters [] = asn at hparams
  have hnumber : ∀ {name : String} {i m : Nat},
      dsaParameters.children.findIdx? (named (ascii name)) = some i →
      dsaParameters.children[i]? = some (integerNode name) →
      (dsaItems p q g)[i]? = some (numberValue m) →
      gkmDataAsn1ReadMpi (field asn name) = some m := by
    intro name i m hi hchild hitem
    rw [← hasn]
    exact readNumber hi hchild hitem []
  have h1 : gkmDataAsn1ReadMpi (field asn "p") = some p := @hnumber _ 0 _ rfl rfl rfl
  have h2 : gkmDataAsn1ReadMpi (field asn "q") = some q := @hnumber _ 1 _ rfl rfl rfl
  have h3 : gkmDataAsn1ReadMpi (field asn "g") = some g := @hnumber _ 2 _ rfl rfl rfl
  rw [gkmDataDerReadPrivateKeyDsaParts, hparams, ok_bind, dsaPrivatePart, hkey, ok_bind]
  dsimp only
  rw [h1, h2, h3, hx]
  rfl

end

/-! ## Algorithms -/

/-- An identifier that is read as it was written. -/
def Readable (oid : Bytes) : Prop :=
  (anodeReadObjectId ((anodeWriteOid oid).getD [])) = some oid ∧ (anodeWriteOid oid).isSome = true ∧
    ((anodeWriteOid oid).getD []).length < 2 ^ 16

theorem readable_rsa : Readable oidPkix1Rsa := by
  refine ⟨?_, ?_, ?_⟩ <;> decide

theorem readable_dsa : Readable oidPkix1Dsa := by
  refine ⟨?_, ?_, ?_⟩ <;> decide

theorem readable_pbe : Readable oidPkcs12Pbe3desSha1 := by
  refine ⟨?_, ?_, ?_⟩ <;> decide

/-- Parameters of an algorithm, which are a `SEQUENCE`. -/
def paramsValue : Option Bytes → Value
  | none => .absent
  | some content => .element asn1ClassStructured 16 content

/-- An `AlgorithmIdentifier`. -/
def algorithmItems (oid : Bytes) (params : Option Bytes) : List Value :=
  [oidValue oid, paramsValue params]

theorem fits_oid {oid : Bytes} (h : Readable oid) : Fits oidNode (oidValue oid) := by
  rw [oidValue, Fits]
  refine ⟨⟨rfl, rfl⟩, rfl, rfl, by decide, by decide, by decide, ?_⟩
  change (anodeReadObjectId ((anodeWriteOid oid).getD [])).isSome = true
  rw [h.1]
  rfl

theorem fits_params (params : Option Bytes) : Fits paramsNode (paramsValue params) := by
  cases params with
  | none =>
    rw [paramsValue, Fits]
    exact ⟨⟨rfl, rfl⟩, rfl, rfl, rfl⟩
  | some content =>
    rw [paramsValue, Fits]
    exact ⟨⟨rfl, rfl⟩, rfl, rfl, by decide, by decide, by decide, rfl⟩

theorem fits_algorithm (name : String) {oid : Bytes} (h : Readable oid) (params : Option Bytes) :
    Fits (algorithmNode name) (.sequence (algorithmItems oid params)) := by
  rw [Fits]
  refine ⟨⟨rfl, rfl⟩, rfl, rfl, rfl, ?_⟩
  apply FitsList.cons (fits_oid h) rfl
  exact FitsList.last (fits_params params)

/-- `egg_asn1x_set_oid_as_quark` loads an identifier. -/
theorem setOid_load {oid : Bytes} (h : Readable oid) :
    setOid oid oidNode = .ok (some (loaded (oidValue oid) oidNode)) := by
  obtain ⟨bytes, hbytes⟩ := Option.isSome_iff_exists.1 h.2.1
  have hload := encodeTlvAndEnc_load (fits_oid h) (show Kind.objectId ≠ Kind.any by decide)
    (h.2.2.trans (by decide))
  rw [hbytes, Option.getD_some] at hload
  rw [setOid, eggAsn1xSetOidAsString, hbytes]
  dsimp only
  rw [hload, oidValue, hbytes, Option.getD_some]
  rfl

/-- The parameters are loaded. -/
theorem setRawElement_params (hfuel : 0 < fuel)
    (hsize : (element asn1ClassStructured 16 content).length < 2 ^ 31) :
    setRawElement fuel (element asn1ClassStructured 16 content) paramsNode =
      .ok (some (loaded (paramsValue (some content)) paramsNode)) := by
  have hload := setRawElement_load (fits_params (some content)) rfl hfuel hsize
  rw [setRawElement, hload, ok_bind]
  rfl

/-- The identifier of an algorithm is set. -/
theorem setAlgorithm {oid : Bytes} (h : Readable oid) {name : String} {node : Node} {items : List Value}
    {i : Nat} {params : Value} (hi : node.children.findIdx? (named (ascii name)) = some i)
    (hchild : node.children[i]? = some (algorithmNode name))
    (hitem : items[i]? = some (.sequence [.absent, params])) :
    setAt (setOid oid) [ascii name, ascii "algorithm"] (loaded (.sequence items) node) =
      .ok (some (loaded (.sequence (items.set i (.sequence [oidValue oid, params]))) node)) :=
  setAt_sequence hi hchild hitem
    (@setAt_sequence _ [] _ _ oidNode _ 0 (oidValue oid) _ rfl rfl rfl (setOid_load h))

/-- The parameters of an algorithm are set. -/
theorem setParams {fuel : Nat} (hfuel : 0 < fuel) {content : Bytes}
    (hsize : (element asn1ClassStructured 16 content).length < 2 ^ 31) {name : String} {node : Node}
    {items : List Value} {i : Nat} {oid : Value} (hi : node.children.findIdx? (named (ascii name)) = some i)
    (hchild : node.children[i]? = some (algorithmNode name))
    (hitem : items[i]? = some (.sequence [oid, .absent])) :
    setAt (setRawElement fuel (element asn1ClassStructured 16 content)) [ascii name, ascii "parameters"]
        (loaded (.sequence items) node) =
      .ok (some (loaded (.sequence (items.set i (.sequence [oid, paramsValue (some content)]))) node)) :=
  setAt_sequence hi hchild hitem
    (@setAt_sequence _ [] _ _ paramsNode _ 1 (paramsValue (some content)) _ rfl rfl rfl
      (setRawElement_params hfuel hsize))

/-- The identifier of an algorithm is read. -/
theorem readAlgorithm {oid : Bytes} (h : Readable oid) {params : Option Bytes} {name : String}
    {node : Node} {items : List Value} {i : Nat}
    (hi : node.children.findIdx? (named (ascii name)) = some i)
    (hchild : node.children[i]? = some (algorithmNode name))
    (hitem : items[i]? = some (.sequence (algorithmItems oid params))) (rest : Bytes) :
    (eggAsn1xNode (filled (.sequence items) node rest) [ascii name, ascii "algorithm"]).bind
      eggAsn1xGetOidAsString = some oid := by
  obtain ⟨rest', houter⟩ := node_filled [ascii "algorithm"] hi hchild hitem rest
  obtain ⟨rest'', hinner⟩ := @node_filled [] (ascii "algorithm") (algorithmNode name) oidNode
    (algorithmItems oid params) 0 (oidValue oid) rfl rfl rfl rest'
  rw [houter, hinner, eggAsn1xNode, Option.bind_some, oidValue, getOid_filled]
  exact h.1

/-- The parameters of an algorithm are read. -/
theorem readParams {oid : Bytes} {params : Option Bytes} {name : String} {node : Node}
    {items : List Value} {i : Nat} (hi : node.children.findIdx? (named (ascii name)) = some i)
    (hchild : node.children[i]? = some (algorithmNode name))
    (hitem : items[i]? = some (.sequence (algorithmItems oid params))) (rest : Bytes) :
    (eggAsn1xNode (filled (.sequence items) node rest) [ascii name, ascii "parameters"]).bind
      eggAsn1xGetRawElement = params.map (element asn1ClassStructured 16) := by
  obtain ⟨rest', houter⟩ := node_filled [ascii "parameters"] hi hchild hitem rest
  obtain ⟨rest'', hinner⟩ := @node_filled [] (ascii "parameters") (algorithmNode name) paramsNode
    (algorithmItems oid params) 1 (paramsValue params) rfl rfl rfl rest'
  rw [houter, hinner, eggAsn1xNode, Option.bind_some]
  cases params with
  | none =>
    rw [paramsValue, filled]
    rfl
  | some content => exact getRawElement_filled rfl _ _ _ _

/-! ## Plain keys -/

/-- An `OCTET STRING` without a size. -/
theorem fits_octets (name target : String) (data : Bytes) :
    Fits (octetsNode name target) (octetsValue data) := by
  rw [octetsValue, Fits]
  exact ⟨⟨rfl, rfl⟩, rfl, rfl, by decide, by decide, rfl, rfl⟩

theorem setString_load (name target : String) {data : Bytes} (h : data.length < 2 ^ 31) :
    setString (some data) (octetsNode name target) =
      .ok (some (loaded (octetsValue data) (octetsNode name target))) := by
  have hload := encodeTlvAndEnc_load (fits_octets name target data)
    (show Kind.octetString ≠ Kind.any by decide) h
  rw [setString, eggAsn1xSetStringAsRaw, hload]
  rfl

/-- A string is set in a tree that is partly loaded. -/
theorem setString_field {name target : String} {data : Bytes} (h : data.length < 2 ^ 31) {node : Node}
    {items : List Value} {i : Nat} (hi : node.children.findIdx? (named (ascii name)) = some i)
    (hchild : node.children[i]? = some (octetsNode name target)) (hitem : items[i]? = some .absent) :
    setField name (setString (some data)) (loaded (.sequence items) node) =
      .ok (some (loaded (.sequence (items.set i (octetsValue data))) node)) :=
  setAt_sequence hi hchild hitem (setString_load name target h)

/-- A `pkcs-8-PrivateKeyInfo`. -/
def plainItems (oid : Bytes) (params : Option Bytes) (keydata : Bytes) : List Value :=
  [integerValue [0], .sequence (algorithmItems oid params), octetsValue keydata, .absent]

theorem fits_plainVersion : Fits (versionNode "pkcs-8-Version" [constant "v1" "0"]) (integerValue [0]) := by
  rw [integerValue, Fits]
  exact ⟨⟨rfl, rfl⟩, rfl, rfl, by decide, by decide, by decide, by decide⟩

theorem fits_attributes : Fits attributesNode .absent := by
  have hblank : Blank attributesNode := by
    simp [attributesNode, attributeNode, Blank, BlankList]
  rw [Fits]
  exact ⟨⟨rfl, rfl⟩, rfl, rfl, sort_blank _ hblank⟩

theorem fits_plain {oid : Bytes} (h : Readable oid) (params : Option Bytes)
    (keydata : Bytes) : Fits privateKeyInfo (.sequence (plainItems oid params keydata)) := by
  rw [Fits]
  refine ⟨⟨rfl, rfl⟩, rfl, rfl, rfl, ?_⟩
  apply FitsList.cons fits_plainVersion rfl
  apply FitsList.cons (fits_algorithm _ h params) rfl
  apply FitsList.cons (fits_octets _ _ keydata) rfl
  exact FitsList.last fits_attributes

/-- The room that an algorithm takes. -/
theorem length_algorithm {oid : Bytes} (h : Readable oid) {params : Option Bytes}
    (hparams : (paramsValue params).bytes.length < 2 ^ 24) :
    (Value.sequence (algorithmItems oid params)).bytes.length < 2 ^ 25 := by
  have hle := length_sequence_le (algorithmItems oid params)
  have hoid := length_element_le asn1ClassUniversal (show 6 < 31 by decide) ((anodeWriteOid oid).getD [])
  have hsmall := h.2.2
  have hvalue : (oidValue oid).bytes.length ≤ ((anodeWriteOid oid).getD []).length + 10 := by
    rw [oidValue, Value.bytes]
    exact hoid
  simp only [algorithmItems, Value.bytesList, length_append, length_nil] at hle ⊢
  omega

theorem length_plain {oid : Bytes} (h : Readable oid) {params : Option Bytes}
    {keydata : Bytes} (hparams : (paramsValue params).bytes.length < 2 ^ 24)
    (hkey : keydata.length < 2 ^ 24) :
    (Value.sequence (plainItems oid params keydata)).bytes.length < 2 ^ 27 := by
  have hle := length_sequence_le (plainItems oid params keydata)
  have hversion : (integerValue [0]).bytes.length = 3 := by decide
  have halgorithm := length_algorithm h hparams
  have hdata := length_element_le asn1ClassUniversal (show 4 < 31 by decide) keydata
  have hvalue : (octetsValue keydata).bytes.length = (element asn1ClassUniversal 4 keydata).length := rfl
  have habsent : Value.absent.bytes.length = 0 := rfl
  simp only [plainItems, Value.bytesList, length_append, length_nil] at hle ⊢
  omega

/-- The tree of `gkm_data_der_write_private_pkcs8_plain`. -/
theorem setAll_plain (hfuel : 0 < fuel) {oid : Bytes} (h : Readable oid) {params : Option Bytes}
    {keydata : Bytes} (hparams : (paramsValue params).bytes.length < 2 ^ 24)
    (hkey : keydata.length < 2 ^ 24) :
    setAll
      [setField "version" setVersion,
        setAt (setOid oid) [ascii "privateKeyAlgorithm", ascii "algorithm"],
        setOptional (fun params => setAt (setRawElement fuel params)
          [ascii "privateKeyAlgorithm", ascii "parameters"])
          (params.map (element asn1ClassStructured 16)),
        setField "privateKey" (setString (some keydata))] privateKeyInfo =
      .ok (some (loaded (.sequence (plainItems oid params keydata)) privateKeyInfo)) := by
  change setAll _ (loaded (.sequence [.absent, .sequence [.absent, .absent], .absent, .absent])
    privateKeyInfo) = _
  rw [setAll_cons (setVersion_field fits_plainVersion rfl rfl rfl),
    setAll_cons (setAlgorithm (i := 1) h rfl rfl rfl)]
  change setAll _ (loaded (.sequence [integerValue [0], .sequence [oidValue oid, .absent], .absent, .absent])
    privateKeyInfo) = _
  have hoptional : setOptional (fun params => setAt (setRawElement fuel params)
      [ascii "privateKeyAlgorithm", ascii "parameters"]) (params.map (element asn1ClassStructured 16))
      (loaded (.sequence [integerValue [0], .sequence [oidValue oid, .absent], .absent, .absent])
        privateKeyInfo) =
        .ok (some (loaded (.sequence [integerValue [0], .sequence (algorithmItems oid params), .absent,
          .absent]) privateKeyInfo)) := by
    cases params with
    | none => rfl
    | some content =>
      rw [paramsValue, Value.bytes] at hparams
      have hsize := hparams.trans (show 2 ^ 24 < 2 ^ 31 by decide)
      rw [Option.map_some, setOptional]
      exact setParams (i := 1) hfuel hsize rfl rfl rfl
  rw [setAll_cons hoptional]
  rw [setAll_cons (setString_field (i := 2) (hkey.trans (by decide)) rfl rfl rfl)]
  rfl

namespace PrivateKey

/-- The identifier of the algorithm of a key. -/
def oid : PrivateKey → Bytes
  | rsa _ _ _ _ _ _ => oidPkix1Rsa
  | dsa _ _ _ _ _ => oidPkix1Dsa

/-- The bytes of the key in PKCS#8. -/
def keydata : PrivateKey → Bytes
  | rsa n e d p q u => (Value.sequence (rsaItems n e d p q u)).bytes
  | dsa _ _ _ _ x => (numberValue x).bytes

/-- The contents of the parameters of the algorithm. -/
def params : PrivateKey → Option Bytes
  | rsa _ _ _ _ _ _ => none
  | dsa p q g _ _ => some (Value.bytesList (dsaItems p q g))

/-- A key whose numbers can be written. -/
def Storable : PrivateKey → Prop
  | rsa n e d p q u => RsaHeld n e d p q u
  | dsa p q g _ x => DsaHeld p q g x

/-- The key that is read. -/
def reread : PrivateKey → PrivateKey
  | rsa n e d p q u => gcryptRsa n e d p q u
  | dsa p q g _ x => .dsa p q g (g ^ x % p) x

/-- The value of a key in PKCS#8. -/
def items (key : PrivateKey) : List Value := plainItems key.oid key.params key.keydata

theorem readable_oid (key : PrivateKey) : Readable key.oid := by
  cases key with
  | rsa n e d p q u => exact readable_rsa
  | dsa p q g y x => exact readable_dsa

theorem length_keydata {key : PrivateKey} (h : key.Storable) : key.keydata.length < 2 ^ 24 := by
  cases key with
  | rsa n e d p q u => exact length_rsa h
  | dsa p q g y x => exact (length_numberValue (DsaHeld.value h)).trans (by decide)

theorem length_params {key : PrivateKey} (h : key.Storable) :
    (paramsValue key.params).bytes.length < 2 ^ 24 := by
  cases key with
  | rsa n e d p q u => exact Nat.two_pow_pos 24
  | dsa p q g y x =>
    have hlt := length_dsa h
    rw [Value.bytes] at hlt
    rw [params, paramsValue, Value.bytes]
    exact hlt

end PrivateKey

section Plain

variable (readTime : TimeReader) {key : PrivateKey} (h : key.Storable)

include h

theorem writeKeyParts_eq : writeKeyParts readTime key =
    .ok (key.oid, some key.keydata, key.params.map (element asn1ClassStructured 16)) := by
  cases key with
  | rsa n e d p q u =>
    rw [writeKeyParts, writePrivateKeyRsa_eq readTime h, ok_bind]
    rfl
  | dsa p q g y x =>
    rw [writeKeyParts, writePrivateKeyDsaPart_eq readTime (DsaHeld.value h), ok_bind,
      writePrivateKeyDsaParams_eq readTime h, ok_bind, Value.bytes]
    rfl

/-- `gkm_data_der_write_private_pkcs8_plain` writes the value of a key. -/
theorem writePlain_eq (hfuel : 0 < fuel) :
    gkmDataDerWritePrivatePkcs8Plain readTime fuel key = .ok (some (Value.sequence key.items).bytes) := by
  have hset := setAll_plain hfuel key.readable_oid (PrivateKey.length_params h) (PrivateKey.length_keydata h)
  have hsize := length_plain key.readable_oid (PrivateKey.length_params h) (PrivateKey.length_keydata h)
  have hencode := eggAsn1xEncode_value readTime (fits_plain key.readable_oid key.params key.keydata) rfl
    (hsize.trans (by decide))
  rw [gkmDataDerWritePrivatePkcs8Plain, writeKeyParts_eq readTime h, ok_bind]
  dsimp only
  rw [hset, ok_bind, encodeTree, hencode]
  rfl

/-- The key in a PKCS#8 file is read. -/
theorem readKeyParts_eq (hfuel : 1 < fuel) :
    readKeyParts readTime fuel key.oid key.keydata (key.params.map (element asn1ClassStructured 16)) =
      .ok (.success, some key.reread) := by
  cases key with
  | rsa n e d p q u =>
    rw [readKeyParts, PrivateKey.oid, if_pos rfl]
    exact readPrivateKeyRsa_eq readTime hfuel h
  | dsa p q g y x =>
    have hother : oidPkix1Dsa ≠ oidPkix1Rsa := by decide
    have hsmall : (numberValue x).bytes.length < 2 ^ 31 :=
      (length_numberValue (DsaHeld.value h)).trans (by decide)
    have hblock : gkmDataDerReadPrivateKeyDsa readTime fuel (numberValue x).bytes =
        .ok (.unrecognized, none) := by
      rw [numberValue, integerValue, Value.bytes] at hsmall ⊢
      rw [gkmDataDerReadPrivateKeyDsa, createAndDecode_other readTime (by decide) (by decide) (by decide)
        rfl rfl rfl (by omega) hsmall, ok_bind]
      rfl
    have hparts := readPrivateKeyDsaParts_eq readTime hfuel h
    rw [Value.bytes] at hparts
    rw [readKeyParts, PrivateKey.oid, if_neg hother, PrivateKey.keydata, hblock, ok_bind, PrivateKey.params,
      Option.map_some]
    dsimp only
    rw [if_neg (sequence_ne_nil _)]
    exact hparts

/-- `gkm_data_der_read_private_pkcs8_plain` reads the value of a key. -/
theorem readPlain_eq (hfuel : 2 < fuel) :
    gkmDataDerReadPrivatePkcs8Plain readTime fuel (Value.sequence key.items).bytes =
      .ok (.success, some key.reread) := by
  have hsize := length_plain key.readable_oid (PrivateKey.length_params h) (PrivateKey.length_keydata h)
  have hdepth : (Value.sequence key.items).depth < fuel := by
    have : (Value.sequence key.items).depth = 2 := by
      cases key <;> rfl
    omega
  have hdecode := createAndDecode_value readTime (fits_plain key.readable_oid key.params key.keydata) rfl rfl
    hdepth (hsize.trans (by decide))
  have halgorithm := @readAlgorithm _ key.readable_oid key.params "privateKeyAlgorithm" privateKeyInfo
    key.items 1 rfl rfl rfl []
  have hparams := @readParams key.oid key.params "privateKeyAlgorithm" privateKeyInfo key.items 1 rfl rfl
    rfl []
  have hkeydata : (field (filled (.sequence key.items) privateKeyInfo []) "privateKey").bind
      eggAsn1xGetRawValue = some key.keydata := by
    obtain ⟨rest, hnode⟩ := @node_filled [] (ascii "privateKey") privateKeyInfo _ key.items 2 _ rfl rfl rfl []
    rw [field, hnode, eggAsn1xNode, Option.bind_some]
    exact getRawValue_filled (by decide) _ _ _ _
  have hknown : ¬ (key.oid ≠ oidPkix1Rsa ∧ key.oid ≠ oidPkix1Dsa) := by
    cases key with
    | rsa n e d p q u => exact fun hne => hne.1 rfl
    | dsa p q g y x => exact fun hne => hne.2 rfl
  rw [gkmDataDerReadPrivatePkcs8Plain]
  rw [PrivateKey.items] at halgorithm hparams hkeydata ⊢
  rw [hdecode, ok_bind]
  dsimp only
  rw [halgorithm]
  dsimp only
  rw [if_neg hknown, hkeydata]
  dsimp only
  rw [hparams]
  exact readKeyParts_eq readTime h (by omega)

end Plain

end MateKeyring.Gkm
