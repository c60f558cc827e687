import Mathlib.Data.Nat.Factors
import MateKeyring.Gkm.KeyFiles

/-!
# The numbers of an `RSAPrivateKey`

In an `RSAPrivateKey` the coefficient inverts the second prime modulo the first, while the `u` of `libgcrypt`
inverts the first modulo the second. `gkm_data_der_read_private_key_rsa` changes the one into the other, by an
exchange of the primes or by computing `u` again. `gkm_data_der_write_private_key_rsa` writes the primes and `u`
as they are, which is right only if `u` is both inverses at once (`writer_right_iff`).
-/

set_option autoImplicit false

namespace MateKeyring.Gkm

open Lib Asn1x List

/-! ## Structures -/

/-- An `OtherPrimeInfo`. -/
structure OtherPrime where
  prime : Nat
  exponent : Nat
  coefficient : Nat

/-- The numbers of an `RSAPrivateKey`. -/
structure RsaStructure where
  modulus : Nat
  publicExponent : Nat
  privateExponent : Nat
  prime1 : Nat
  prime2 : Nat
  exponent1 : Nat
  exponent2 : Nat
  coefficient : Nat
  otherPrimes : List OtherPrime

/-- The value of an `OtherPrimeInfo`. -/
def OtherPrime.value (other : OtherPrime) : Value :=
  .sequence [numberValue other.prime, numberValue other.exponent, numberValue other.coefficient]

namespace RsaStructure

/-- The version and the `OtherPrimeInfos`: both tell whether there are more than two primes. -/
def ends (s : RsaStructure) : Value × Value :=
  match s.otherPrimes with
  | [] => (integerValue [0], .absent)
  | others => (integerValue [1], .sequence (others.map OtherPrime.value))

/-- The values of a structure, in order. -/
def items (s : RsaStructure) : List Value :=
  [s.ends.1, numberValue s.modulus, numberValue s.publicExponent, numberValue s.privateExponent,
    numberValue s.prime1, numberValue s.prime2, numberValue s.exponent1, numberValue s.exponent2,
    numberValue s.coefficient, s.ends.2]

/-- The encoding of a structure. -/
def bytes (s : RsaStructure) : Bytes := (Value.sequence s.items).bytes

/-- The primes of a structure. -/
def primes (s : RsaStructure) : List Nat := s.prime1 :: s.prime2 :: s.otherPrimes.map OtherPrime.prime

/-- How the exponents and the coefficient belong to the private exponent and the two primes. -/
structure Related (s : RsaStructure) : Prop where
  exponent1 : s.exponent1 = s.privateExponent % (s.prime1 - 1)
  exponent2 : s.exponent2 = s.privateExponent % (s.prime2 - 1)
  coefficient : s.coefficient * s.prime2 % s.prime1 = 1

/-- How those of the further primes do, where `product` is that of the primes before. -/
def OthersRelated (d : Nat) : Nat → List OtherPrime → Prop
  | _, [] => True
  | product, other :: others =>
    other.exponent = d % (other.prime - 1) ∧ other.coefficient < other.prime ∧
      other.coefficient * product % other.prime = 1 ∧ OthersRelated d (product * other.prime) others

/-- A structure as RFC 8017 has it. -/
structure Rfc8017 (s : RsaStructure) : Prop extends s.Related where
  prime : ∀ r ∈ s.primes, r.Prime ∧ 2 < r
  distinct : s.primes.Nodup
  modulus : s.modulus = s.primes.prod
  exponents : s.publicExponent * s.privateExponent ≡ 1 [MOD (s.primes.map (· - 1)).foldr Nat.lcm 1]
  small : s.coefficient < s.prime1
  others : OthersRelated s.privateExponent (s.prime1 * s.prime2) s.otherPrimes

/-- The numbers that an S-expression is made of fit into it. -/
def Sized (s : RsaStructure) : Prop :=
  ∀ m ∈ [s.modulus, s.publicExponent, s.privateExponent], (gcryMpiPrint m).length < 2 ^ 16

end RsaStructure

/-- An RSA key as `libgcrypt` has it, in an S-expression. -/
structure RsaForm (n e d p q u : Nat) : Prop where
  first : p.Prime
  second : q.Prime
  odd : 2 < p
  order : p < q
  modulus : n = p * q
  exponents : e * d ≡ 1 [MOD Nat.lcm (p - 1) (q - 1)]
  inverse : p * u % q = 1
  small : u < q
  sized : ∀ m ∈ [n, e, d], (gcryMpiPrint m).length < 2 ^ 16

/-! ## What is right -/

/-- A structure that has the relations of RFC 8017 is written. -/
def WriterRight (readTime : TimeReader) (n e d p q u : Nat) : Prop :=
  ∃ s : RsaStructure, gkmDataDerWritePrivateKeyRsa readTime n e d p q u = .ok (some s.bytes) ∧ s.Related

/-- A structure is read as a key with the same modulus and exponents. -/
def ReaderRight (readTime : TimeReader) (fuel : Nat) (s : RsaStructure) : Prop :=
  ∃ p q u, gkmDataDerReadPrivateKeyRsa readTime fuel s.bytes =
      .ok (.success, some (.rsa s.modulus s.publicExponent s.privateExponent p q u)) ∧
    RsaForm s.modulus s.publicExponent s.privateExponent p q u

/-! ## Numbers -/

/-- The inverse that `gcry_mpi_invm` finds. -/
theorem gcryMpiInvm_spec {a m : Nat} (hm : 1 < m) (h : a.Coprime m) :
    a * gcryMpiInvm a m % m = 1 ∧ gcryMpiInvm a m < m := by
  obtain ⟨u, hu, hinv⟩ := Nat.exists_mul_mod_eq_one_of_coprime h hm
  rw [gcryMpiInvm_eq hm hu hinv]
  exact ⟨hinv, hu⟩

/-- An inverse modulo a number is one modulo its factors. -/
theorem mod_eq_one {a m : Nat} (hm : 1 < m) : a % m = 1 ↔ a ≡ 1 [MOD m] := by
  rw [Nat.ModEq, Nat.mod_eq_of_lt hm]

section Form

variable {n e d p q u : Nat}

theorem RsaForm.coprime (h : RsaForm n e d p q u) : p.Coprime q :=
  (Nat.coprime_primes h.first h.second).2 h.order.ne

/-- The key as it is written and read elsewhere. -/
theorem RsaForm.gcrypt (h : RsaForm n e d p q u) : (PrivateKey.rsa n e d p q u).Gcrypt := by
  have hp := h.first.pos
  have hq := h.second.pos
  have hodd := h.odd
  have hlt := h.order
  have hu := h.small
  have hleft : e * d % (p - 1) = 1 := by
    rw [mod_eq_one (by omega)]
    exact h.exponents.of_dvd (Nat.dvd_lcm_left _ _)
  have hright : e * d % (q - 1) = 1 := by
    rw [mod_eq_one (by omega)]
    exact h.exponents.of_dvd (Nat.dvd_lcm_right _ _)
  -- the primes and `u` are not longer than the modulus
  have hple : p ≤ n := h.modulus ▸ Nat.le_mul_of_pos_right p hq
  have hqle : q ≤ n := h.modulus ▸ Nat.le_mul_of_pos_left q hp
  have hsized : ∀ m, m ≤ n → (gcryMpiPrint m).length < 2 ^ 16 := fun m hm =>
    Nat.lt_of_le_of_lt (length_gcryMpiPrint_le hm) (h.sized n (by simp))
  refine ⟨h.first, h.second, hodd, hlt, h.modulus, hleft, hright, hu, h.inverse, ?_⟩
  intro m hm
  simp only [mem_cons, not_mem_nil, or_false] at hm
  rcases hm with rfl | rfl | rfl | rfl | rfl | rfl
  · exact h.sized _ (by simp)
  · exact h.sized _ (by simp)
  · exact h.sized _ (by simp)
  · exact hsized _ hple
  · exact hsized _ hqle
  · exact hsized _ (by omega)

theorem RsaForm.held (h : RsaForm n e d p q u) : RsaHeld n e d p q u := PrivateKey.Gcrypt.storable h.gcrypt

/-- Both inverses at once are the inverse of the sum of the primes. -/
theorem sum_inverse_iff (h : RsaForm n e d p q u) :
    u * q % p = 1 ↔ ∃ v, v < q ∧ v * (p + q) % n = 1 := by
  have hodd := h.odd
  have hlt := h.order
  have hn : 1 < p * q := Nat.one_lt_mul_iff.2 ⟨h.first.pos, h.second.pos, .inl h.first.one_lt⟩
  have hsplit : ∀ v, v * (p + q) % n = 1 ↔ v * q % p = 1 ∧ v * p % q = 1 := by
    intro v
    rw [h.modulus, mod_eq_one hn, ← Nat.modEq_and_modEq_iff_modEq_mul h.coprime, mod_eq_one (by omega),
      mod_eq_one (by omega)]
    have hfirst : v * (p + q) ≡ v * q [MOD p] := by
      rw [Nat.mul_add, Nat.ModEq, Nat.mul_comm v p, Nat.mul_add_mod]
    have hsecond : v * (p + q) ≡ v * p [MOD q] := by
      rw [Nat.mul_add, Nat.ModEq, Nat.mul_comm v q, Nat.add_mul_mod_self_left]
    exact and_congr ⟨hfirst.symm.trans, hfirst.trans⟩ ⟨hsecond.symm.trans, hsecond.trans⟩
  constructor
  · intro hinv
    refine ⟨u, h.small, (hsplit u).2 ⟨hinv, ?_⟩⟩
    rw [Nat.mul_comm]
    exact h.inverse
  · rintro ⟨v, hv, hsum⟩
    obtain ⟨hfirst, hsecond⟩ := (hsplit v).1 hsum
    rw [Nat.mul_comm] at hsecond
    have hsame : v = u := by
      rw [← gcryMpiInvm_eq h.second.one_lt hv hsecond, gcryMpiInvm_eq h.second.one_lt h.small h.inverse]
    rwa [hsame] at hfirst

end Form

/-! ## Writing -/

/-- An element in front of other octets determines its contents and those octets. -/
theorem element_append_inj {cls : UInt8} {tag : Nat} {content content' rest rest' : Bytes}
    (hcls : cls &&& 0xe0 = cls) (htag : tag < 31) (hlt : (element cls tag content ++ rest).length < 2 ^ 31)
    (h : element cls tag content ++ rest = element cls tag content' ++ rest') :
    content = content' ∧ rest = rest' := by
  have hleft := @decodeTlvForData_found cls tag _ content rest hcls htag
    (by rw [length_append]; exact Nat.le_add_right _ _) hlt
  have hright := @decodeTlvForData_found cls tag _ content' rest' hcls htag
    (by rw [h, length_append]; exact Nat.le_add_right _ _) hlt
  rw [← h, hleft] at hright
  have htlv := Option.some.inj (Except.ok.inj hright)
  constructor
  · calc content = (foundTlv cls tag content rest).content := (content_foundTlv cls tag content rest).symm
      _ = (foundTlv cls tag content' rest').content := by rw [htlv]
      _ = content' := content_foundTlv cls tag content' rest'
  · calc rest = (foundTlv cls tag content rest).stop := (stop_foundTlv cls tag content rest).symm
      _ = (foundTlv cls tag content' rest').stop := by rw [htlv]
      _ = rest' := stop_foundTlv cls tag content' rest'

/-- A number in front of other values determines itself and what follows. -/
theorem number_inj {m m' : Nat} {vs vs' : List Value} (hlt : (Value.bytesList (numberValue m :: vs)).length < 2 ^ 31)
    (h : Value.bytesList (numberValue m :: vs) = Value.bytesList (numberValue m' :: vs')) :
    m = m' ∧ Value.bytesList vs = Value.bytesList vs' ∧ (Value.bytesList vs).length < 2 ^ 31 := by
  rw [Value.bytesList] at hlt
  have hlength := hlt
  rw [length_append] at hlength
  obtain ⟨hprint, hrest⟩ := @element_append_inj asn1ClassUniversal 2 _ _ _ _ (by decide) (by decide) hlt h
  refine ⟨?_, hrest, by omega⟩
  rw [← decode_gcryMpiPrint m, hprint, decode_gcryMpiPrint]

/-- Two structures with one encoding have the same numbers. -/
theorem RsaStructure.numbers_inj {s s' : RsaStructure} (hlt : s.bytes.length < 2 ^ 31) (h : s.bytes = s'.bytes) :
    s.prime1 = s'.prime1 ∧ s.prime2 = s'.prime2 ∧ s.coefficient = s'.coefficient := by
  have hitems : Value.bytesList s.items = Value.bytesList s'.items :=
    element_inj (by decide) (by decide) hlt h
  have hsize : (Value.bytesList s.items).length < 2 ^ 31 := by
    rw [bytes, Value.bytes, length_element] at hlt
    omega
  have hversion : ∀ s : RsaStructure, ∃ b, s.ends.1 = integerValue [b] := by
    intro s
    rw [ends]
    split
    · exact ⟨0, rfl⟩
    · exact ⟨1, rfl⟩
  obtain ⟨b, hb⟩ := hversion s
  obtain ⟨b', hb'⟩ := hversion s'
  rw [items, items, hb, hb', Value.bytesList, Value.bytesList] at hitems
  rw [items, hb, Value.bytesList] at hsize
  have hrest := (@element_append_inj asn1ClassUniversal 2 _ _ _ _ (by decide) (by decide) hsize hitems).2
  rw [length_append] at hsize
  obtain ⟨-, h1, hlt1⟩ := number_inj (by omega) hrest
  obtain ⟨-, h2, hlt2⟩ := number_inj hlt1 h1
  obtain ⟨-, h3, hlt3⟩ := number_inj hlt2 h2
  obtain ⟨hp, h4, hlt4⟩ := number_inj hlt3 h3
  obtain ⟨hq, h5, hlt5⟩ := number_inj hlt4 h4
  obtain ⟨-, h6, hlt6⟩ := number_inj hlt5 h5
  obtain ⟨-, h7, hlt7⟩ := number_inj hlt6 h6
  obtain ⟨hu, -, -⟩ := number_inj hlt7 h7
  exact ⟨hp, hq, hu⟩

/-- The structure that is written. -/
def writtenStructure (n e d p q u : Nat) : RsaStructure where
  modulus := n
  publicExponent := e
  privateExponent := d
  prime1 := p
  prime2 := q
  exponent1 := d % (p - 1)
  exponent2 := d % (q - 1)
  coefficient := u
  otherPrimes := []

theorem bytes_writtenStructure (n e d p q u : Nat) :
    (writtenStructure n e d p q u).bytes = (Value.sequence (rsaItems n e d p q u)).bytes := rfl

/-- What is written has the relations exactly if `u` inverts the second prime as well. -/
theorem writer_right_iff (readTime : TimeReader) {n e d p q u : Nat} (h : RsaForm n e d p q u) :
    WriterRight readTime n e d p q u ↔ ∃ v, v < q ∧ v * (p + q) % n = 1 := by
  have hwrite := writePrivateKeyRsa_eq readTime h.held
  rw [← sum_inverse_iff h]
  constructor
  · rintro ⟨s, hrun, hrelated⟩
    have hbytes : (writtenStructure n e d p q u).bytes = s.bytes := by
      rw [hwrite] at hrun
      rw [bytes_writtenStructure]
      exact Option.some.inj (Except.ok.inj hrun)
    have hlt : (writtenStructure n e d p q u).bytes.length < 2 ^ 31 := by
      rw [bytes_writtenStructure]
      exact (length_rsa h.held).trans (by decide)
    obtain ⟨hp, hq, hu⟩ := RsaStructure.numbers_inj hlt hbytes
    have hinv := hrelated.coefficient
    rwa [← hp, ← hq, ← hu] at hinv
  · intro hinv
    exact ⟨writtenStructure n e d p q u, hwrite, ⟨rfl, rfl, hinv⟩⟩

/-! ## Reading -/

/-- A structure of two primes is the one that is written for its numbers. -/
theorem RsaStructure.bytes_two {s : RsaStructure} (h : s.Related) (hothers : s.otherPrimes = []) :
    s.bytes = (Value.sequence (rsaItems s.modulus s.publicExponent s.privateExponent s.prime1 s.prime2
      s.coefficient)).bytes := by
  rw [bytes, items, ends, hothers, h.exponent1, h.exponent2]
  rfl

section TwoPrimes

variable {s : RsaStructure} (h : s.Rfc8017) (hsized : s.Sized) (hothers : s.otherPrimes = [])

include h hothers

theorem RsaStructure.Rfc8017.two :
    s.prime1.Prime ∧ s.prime2.Prime ∧ 2 < s.prime1 ∧ 2 < s.prime2 ∧ s.prime1 ≠ s.prime2 ∧
      s.modulus = s.prime1 * s.prime2 ∧
      s.publicExponent * s.privateExponent ≡ 1 [MOD Nat.lcm (s.prime1 - 1) (s.prime2 - 1)] := by
  have hprimes : s.primes = [s.prime1, s.prime2] := by rw [primes, hothers, map_nil]
  have hprime := h.prime
  have hdistinct := h.distinct
  have hmodulus := h.modulus
  have hexponents := h.exponents
  rw [hprimes] at hprime hdistinct hmodulus hexponents
  obtain ⟨hp, hodd⟩ := hprime s.prime1 (by simp)
  obtain ⟨hq, hodd'⟩ := hprime s.prime2 (by simp)
  refine ⟨hp, hq, hodd, hodd', by simpa using hdistinct, by simpa using hmodulus, ?_⟩
  simpa using hexponents

include hsized

/-- The key of a structure of two primes, with its primes in order. -/
theorem RsaStructure.Rfc8017.form : ∃ p q u,
    gcryptRsa s.modulus s.publicExponent s.privateExponent s.prime1 s.prime2 s.coefficient =
      .rsa s.modulus s.publicExponent s.privateExponent p q u ∧
    RsaForm s.modulus s.publicExponent s.privateExponent p q u := by
  obtain ⟨hp, hq, hodd, hodd', hne, hmodulus, hexponents⟩ := h.two hothers
  by_cases hswap : s.prime2 < s.prime1
  · -- the coefficient becomes `u`
    refine ⟨s.prime2, s.prime1, s.coefficient, by rw [gcryptRsa, if_pos hswap], ?_⟩
    have hinv := h.coefficient
    rw [Nat.mul_comm] at hinv hmodulus
    rw [Nat.lcm_comm] at hexponents
    exact ⟨hq, hp, hodd', hswap, hmodulus, hexponents, hinv, h.small, hsized⟩
  · -- `u` is computed again
    have hlt : s.prime1 < s.prime2 := by omega
    obtain ⟨hinv, hsmall⟩ := gcryMpiInvm_spec hq.one_lt ((Nat.coprime_primes hp hq).2 hne)
    refine ⟨s.prime1, s.prime2, gcryMpiInvm s.prime1 s.prime2, by rw [gcryptRsa, if_neg hswap], ?_⟩
    exact ⟨hp, hq, hodd, hlt, hmodulus, hexponents, hinv, hsmall, hsized⟩

/-- The numbers of a structure of two primes can be written. -/
theorem RsaStructure.Rfc8017.held :
    RsaHeld s.modulus s.publicExponent s.privateExponent s.prime1 s.prime2 s.coefficient := by
  obtain ⟨hp, hq, hodd, hodd', hne, hmodulus, hexponents⟩ := h.two hothers
  obtain ⟨p, q, u, -, hform⟩ := h.form hsized hothers
  have hkey := hform.held
  have hleft : s.publicExponent * s.privateExponent % (s.prime1 - 1) = 1 := by
    rw [mod_eq_one (by omega)]
    exact hexponents.of_dvd (Nat.dvd_lcm_left _ _)
  have hright : s.publicExponent * s.privateExponent % (s.prime2 - 1) = 1 := by
    rw [mod_eq_one (by omega)]
    exact hexponents.of_dvd (Nat.dvd_lcm_right _ _)
  have hple : s.prime1 ≤ s.modulus := hmodulus ▸ Nat.le_mul_of_pos_right _ hq.pos
  have hqle : s.prime2 ≤ s.modulus := hmodulus ▸ Nat.le_mul_of_pos_left _ hp.pos
  have hpos : 0 < s.coefficient := by
    apply Nat.pos_of_ne_zero
    intro hzero
    have hinv := h.coefficient
    rw [hzero, Nat.zero_mul, Nat.zero_mod] at hinv
    exact absurd hinv (by decide)
  have hsmall := h.small
  have hbelow : ∀ {m k : Nat}, 0 < m → m ≤ k → Held k → Held m := fun hm hle hk =>
    ⟨hm, Nat.lt_of_le_of_lt (length_gcryMpiPrint_le hle) hk.2⟩
  exact
    { modulus := hkey.modulus
      publicExponent := hkey.publicExponent
      privateExponent := hkey.privateExponent
      prime1 := hbelow hp.pos hple hkey.modulus
      prime2 := hbelow hq.pos hqle hkey.modulus
      coefficient := hbelow hpos (by omega) hkey.modulus
      exponent1 := hbelow (pos_of_mul_mod hleft) (Nat.mod_le _ _) hkey.privateExponent
      exponent2 := hbelow (pos_of_mul_mod hright) (Nat.mod_le _ _) hkey.privateExponent }

end TwoPrimes

/-- A product of more than two primes is no product of two. -/
theorem RsaStructure.Rfc8017.two_of_form {s : RsaStructure} (h : s.Rfc8017) {e d p q u : Nat}
    (hform : RsaForm s.modulus e d p q u) : s.otherPrimes = [] := by
  have hmany := Nat.primeFactorsList_unique h.modulus.symm fun r hr => (h.prime r hr).1
  have htwo : [p, q].prod = s.modulus := by
    rw [hform.modulus, prod_cons, prod_singleton]
  have hboth := Nat.primeFactorsList_unique htwo fun r hr => by
    rcases mem_cons.1 hr with rfl | hr
    · exact hform.first
    · rw [mem_singleton.1 hr]
      exact hform.second
  have hlength := (hmany.trans hboth.symm).length_eq
  rw [primes, length_cons, length_cons, length_map, length_cons, length_singleton] at hlength
  exact length_eq_zero_iff.1 (by omega)

/-- The structures of two primes are read. -/
theorem reader_right_iff (readTime : TimeReader) {fuel : Nat} (hfuel : 1 < fuel) {s : RsaStructure}
    (h : s.Rfc8017) (hsized : s.Sized) : ReaderRight readTime fuel s ↔ s.otherPrimes = [] := by
  constructor
  · rintro ⟨p, q, u, -, hform⟩
    exact h.two_of_form hform
  · intro hothers
    obtain ⟨p, q, u, hkey, hform⟩ := h.form hsized hothers
    refine ⟨p, q, u, ?_, hform⟩
    rw [RsaStructure.bytes_two h.toRelated hothers, readPrivateKeyRsa_eq readTime hfuel (h.held hsized hothers),
      hkey]

/-- Which keys are written with the relations of RFC 8017, and which structures that have them are read. -/
theorem rsa_relations_right_iff (readTime : TimeReader) (fuel : Nat) (hfuel : 1 < fuel) :
    (∀ n e d p q u, RsaForm n e d p q u →
        (WriterRight readTime n e d p q u ↔ ∃ v, v < q ∧ v * (p + q) % n = 1)) ∧
      ∀ s : RsaStructure, s.Rfc8017 → s.Sized → (ReaderRight readTime fuel s ↔ s.otherPrimes = []) :=
  ⟨fun _ _ _ _ _ _ h => writer_right_iff readTime h, fun _ h hsized => reader_right_iff readTime hfuel h hsized⟩

/-- Small numbers fit into an S-expression. -/
theorem sized_small {ms : List Nat} (h : ∀ m ∈ ms, m ≤ 100) : ∀ m ∈ ms, (gcryMpiPrint m).length < 2 ^ 16 := by
  intro m hm
  refine Nat.lt_of_le_of_lt (length_gcryMpiPrint_le (h m hm)) ?_
  rw [length_gcryMpiPrint]
  norm_num

/-- The key of the primes 3 and 5. -/
theorem form_fifteen : RsaForm 15 3 3 3 5 2 :=
  ⟨by decide, by decide, by decide, by decide, by decide, by decide, by decide, by decide,
    sized_small (by decide)⟩

/-- Its structure has the relations: 2 inverts each of its primes modulo the other. -/
theorem rfc8017_fifteen : (writtenStructure 15 3 3 3 5 2).Rfc8017 where
  exponent1 := rfl
  exponent2 := rfl
  coefficient := rfl
  prime := by decide
  distinct := by decide
  modulus := rfl
  exponents := by decide
  small := by decide
  others := trivial

theorem rsa_relations_right_sample :
    (1 < 2 ∧ RsaForm 15 3 3 3 5 2 ∧ (writtenStructure 15 3 3 3 5 2).Rfc8017 ∧
        (writtenStructure 15 3 3 3 5 2).Sized) ∧
      (WriterRight (fun _ _ => false) 15 3 3 3 5 2 ↔ ∃ v, v < 5 ∧ v * (3 + 5) % 15 = 1) ∧
      (ReaderRight (fun _ _ => false) 2 (writtenStructure 15 3 3 3 5 2) ↔
        (writtenStructure 15 3 3 3 5 2).otherPrimes = []) :=
  ⟨⟨by decide, form_fifteen, rfc8017_fifteen, sized_small (by decide)⟩,
    (rsa_relations_right_iff (fun _ _ => false) 2 (by decide)).1 15 3 3 3 5 2 form_fifteen,
    (rsa_relations_right_iff (fun _ _ => false) 2 (by decide)).2 (writtenStructure 15 3 3 3 5 2) rfc8017_fifteen
      (sized_small (by decide))⟩

/-- The key of the primes 3 and 11. -/
theorem form_thirty_three : RsaForm 33 3 7 3 11 4 :=
  ⟨by decide, by decide, by decide, by decide, by decide, by decide, by decide, by decide,
    sized_small (by decide)⟩

/-- For the primes 3 and 11, the coefficient 4 is written, which does not invert 11 modulo 3. -/
theorem coefficient_not_converted :
    RsaForm 33 3 7 3 11 4 ∧ ¬ WriterRight (fun _ _ => false) 33 3 7 3 11 4 := by
  refine ⟨form_thirty_three, ?_⟩
  rw [writer_right_iff _ form_thirty_three]
  decide

end MateKeyring.Gkm
