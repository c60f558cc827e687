import Mathlib.Data.Nat.Size
import MateKeyring.Lib.BigEndian

/-!
# Diffie-Hellman key pairs

`egg_dh_gen_pair` of `egg-dh.c`. The numbers of `libgcrypt` are natural numbers here, but for the base, which
may be negative. The draws come from a source of random bytes, and an allocation of `libgcrypt` may fail.

The loop draws again while the number is zero, but the high bits are cleared after it, which can make a number
zero that was none: `gen_pair_right_iff`.
-/

set_option autoImplicit false

namespace MateKeyring.Egg.Dh

open Lib

variable {prime bits : Nat}

/-! ## `libgcrypt` -/

/-- `gcry_mpi_get_nbits`. -/
def gcryMpiGetNbits (a : Nat) : Nat := a.size

/-- `gcry_mpi_clear_highbit`: the bit at `n` and those above it. -/
def gcryMpiClearHighbit (a n : Nat) : Nat := a % 2 ^ n

/-- `gcry_mpi_powm`. -/
def gcryMpiPowm (base : Int) (exp m : Nat) : Nat := (base ^ exp % (m : Int)).toNat

/-- What `libgcrypt` draws from: the bytes of each request, and whether there is memory for a number of that
many bits. -/
structure Gcry where
  random : Nat → (n : Nat) → Octets n
  snew : Nat → Bool
  new : Nat → Bool

/-- What `gcry_mpi_randomize` makes of the request `k`: the number has whole bytes. -/
def gcryMpiRandomize (gcry : Gcry) (k bits : Nat) : Nat :=
  BigEndian.decode (gcry.random k ((bits + 7) / 8)).toList

/-! ## The generator -/

/-- What `egg_dh_gen_pair` gives back. -/
structure KeyPair where
  pub : Nat
  priv : Nat
  deriving DecidableEq, Repr

/-- How `egg_dh_gen_pair` ends; `drawing` is a run that needs more draws. -/
inductive Outcome where
  | drawing
  | asserted
  | refused
  | generated (pair : KeyPair)
  deriving DecidableEq, Repr

/-- `while (gcry_mpi_cmp_ui (*priv, 0) == 0)`: what is in `*priv` after it. -/
def drawPriv (gcry : Gcry) (bits : Nat) : Nat → Nat → Nat → Option Nat
  | 0, _, _ => none
  | fuel + 1, k, priv =>
    if priv = 0 then drawPriv gcry bits fuel (k + 1) (gcryMpiRandomize gcry k bits) else some priv

/-- The bits that are asked for: zero stands for the size of the prime. -/
def wantedBits (prime bits : Nat) : Nat := if bits = 0 then gcryMpiGetNbits prime else bits

/-- A number is cut to `n` bits where it has more. -/
def cutBits (a n : Nat) : Nat := if n < gcryMpiGetNbits a then gcryMpiClearHighbit a n else a

/-- `egg_dh_gen_pair` behind the loop. -/
def finishPair (gcry : Gcry) (prime : Nat) (base : Int) (bits priv : Nat) : Outcome :=
  let priv := cutBits (cutBits priv bits) (gcryMpiGetNbits prime - 1)
  if ¬ priv < prime then .asserted
  else if gcry.new (gcryMpiGetNbits priv) = false then .refused
  else .generated ⟨gcryMpiPowm base priv prime, priv⟩

/-- `egg_dh_gen_pair` of pointers that are not null. -/
def eggDhGenPair (gcry : Gcry) (fuel prime : Nat) (base : Int) (bits : Nat) : Outcome :=
  if ¬ 1 < gcryMpiGetNbits prime then .refused
  else if gcryMpiGetNbits prime < bits then .refused
  else if gcry.snew (wantedBits prime bits) = false then .refused
  else
    match drawPriv gcry (wantedBits prime bits) fuel 0 0 with
    | none => .drawing
    | some priv => finishPair gcry prime base (wantedBits prime bits) priv

/-! ## What a pair should be -/

/-- A private value that is not zero, of at most the wanted bits and below half of the prime's power of two,
with the public value that belongs to it. -/
structure KeyPair.Right (pair : KeyPair) (prime : Nat) (base : Int) (bits : Nat) : Prop where
  pos : 0 < pair.priv
  size : gcryMpiGetNbits pair.priv ≤ wantedBits prime bits
  half : pair.priv < 2 ^ (gcryMpiGetNbits prime - 1)
  pub : (pair.pub : Int) = base ^ pair.priv % (prime : Int)

/-- `egg_dh_gen_pair` refuses or gives a right pair, after some number of draws. -/
def GenPairRight (gcry : Gcry) (prime : Nat) (base : Int) (bits : Nat) : Prop :=
  ∃ fuel, eggDhGenPair gcry fuel prime base bits = .refused ∨
    ∃ pair, eggDhGenPair gcry fuel prime base bits = .generated pair ∧ pair.Right prime base bits

/-- The draw `k` is the first that is not zero. -/
def FirstDraw (gcry : Gcry) (bits k : Nat) : Prop :=
  gcryMpiRandomize gcry k bits ≠ 0 ∧ ∀ j < k, gcryMpiRandomize gcry j bits = 0

/-- The number of bits that are kept of a draw. -/
def keptBits (prime bits : Nat) : Nat := min (wantedBits prime bits) (gcryMpiGetNbits prime - 1)

/-! ## The loop -/

variable {gcry : Gcry}

theorem drawPriv_of_ne_zero {bits k priv : Nat} (fuel : Nat) (h : priv ≠ 0) :
    drawPriv gcry bits (fuel + 1) k priv = some priv := by
  rw [drawPriv, if_neg h]

/-- One round of the loop. -/
theorem drawPriv_zero (gcry : Gcry) (bits fuel k : Nat) :
    drawPriv gcry bits (fuel + 1) k 0 = drawPriv gcry bits fuel (k + 1) (gcryMpiRandomize gcry k bits) := by
  rw [drawPriv, if_pos rfl]

/-- The loop ends with the first draw that is not zero. -/
theorem of_drawPriv {bits fuel k v : Nat} (h : drawPriv gcry bits fuel k 0 = some v) :
    ∃ j, k ≤ j ∧ gcryMpiRandomize gcry j bits = v ∧ v ≠ 0 ∧
      ∀ i, k ≤ i → i < j → gcryMpiRandomize gcry i bits = 0 := by
  induction fuel generalizing k with
  | zero =>
    rw [drawPriv] at h
    cases h
  | succ fuel ih =>
    rw [drawPriv_zero] at h
    by_cases hzero : gcryMpiRandomize gcry k bits = 0
    · rw [hzero] at h
      obtain ⟨j, hkj, hv, hne, hbefore⟩ := ih h
      refine ⟨j, by omega, hv, hne, ?_⟩
      intro i hki hij
      by_cases heq : i = k
      · rw [heq, hzero]
      · exact hbefore i (by omega) hij
    · cases fuel with
      | zero =>
        rw [drawPriv] at h
        cases h
      | succ fuel =>
        rw [drawPriv_of_ne_zero fuel hzero] at h
        have hv := Option.some.inj h
        refine ⟨k, Nat.le_refl k, hv, hv ▸ hzero, ?_⟩
        intro i hki hik
        omega

/-- Enough rounds reach the first draw that is not zero. -/
theorem drawPriv_reaches {gcry : Gcry} {bits : Nat} (n k : Nat)
    (hne : gcryMpiRandomize gcry (k + n) bits ≠ 0)
    (hbefore : ∀ i, k ≤ i → i < k + n → gcryMpiRandomize gcry i bits = 0) :
    drawPriv gcry bits (n + 2) k 0 = some (gcryMpiRandomize gcry (k + n) bits) := by
  induction n generalizing k with
  | zero =>
    rw [drawPriv_zero]
    exact drawPriv_of_ne_zero 0 hne
  | succ n ih =>
    have hshift : k + (n + 1) = k + 1 + n := by omega
    rw [hshift] at hne hbefore ⊢
    rw [drawPriv_zero, hbefore k (Nat.le_refl k) (by omega)]
    apply ih (k + 1) hne
    intro i hki hin
    exact hbefore i (by omega) hin

theorem drawPriv_firstDraw {bits k : Nat} (h : FirstDraw gcry bits k) :
    drawPriv gcry bits (k + 2) 0 0 = some (gcryMpiRandomize gcry k bits) := by
  have hreach := @drawPriv_reaches gcry bits k 0
  rw [Nat.zero_add] at hreach
  exact hreach h.1 (fun i _ hi => h.2 i hi)

theorem firstDraw_of_drawPriv {bits fuel v : Nat} (h : drawPriv gcry bits fuel 0 0 = some v) :
    ∃ k, FirstDraw gcry bits k ∧ gcryMpiRandomize gcry k bits = v := by
  obtain ⟨k, -, hv, hne, hbefore⟩ := of_drawPriv h
  refine ⟨k, ⟨hv ▸ hne, ?_⟩, hv⟩
  intro j hj
  exact hbefore j (Nat.zero_le j) hj

/-! ## Cutting bits -/

/-- A cut is a remainder, whether there is something to cut or not. -/
theorem cutBits_eq (a n : Nat) : cutBits a n = a % 2 ^ n := by
  rw [cutBits, gcryMpiGetNbits]
  split
  · rfl
  · rename_i h
    rw [Nat.mod_eq_of_lt (Nat.size_le.1 (Nat.not_lt.1 h))]

theorem cutBits_cutBits (a m n : Nat) : cutBits (cutBits a m) n = a % 2 ^ min m n := by
  rw [cutBits_eq, cutBits_eq]
  rcases Nat.le_total m n with h | h
  · rw [Nat.min_eq_left h]
    apply Nat.mod_eq_of_lt
    exact Nat.lt_of_lt_of_le (Nat.mod_lt _ (Nat.two_pow_pos m)) (Nat.pow_le_pow_right (by decide) h)
  · rw [Nat.min_eq_right h]
    exact Nat.mod_mod_of_dvd a (Nat.pow_dvd_pow 2 h)

/-- A number of some bits is not below half of its power of two. -/
theorem half_le {prime : Nat} (h : 0 < gcryMpiGetNbits prime) : 2 ^ (gcryMpiGetNbits prime - 1) ≤ prime := by
  apply Nat.lt_size.1
  show gcryMpiGetNbits prime - 1 < gcryMpiGetNbits prime
  omega

/-- What is kept of a draw is below half of the prime's power of two. -/
theorem kept_lt_half (prime bits v : Nat) :
    v % 2 ^ keptBits prime bits < 2 ^ (gcryMpiGetNbits prime - 1) := by
  have hlt := Nat.mod_lt v (Nat.two_pow_pos (keptBits prime bits))
  exact Nat.lt_of_lt_of_le hlt (Nat.pow_le_pow_right (by decide) (Nat.min_le_right _ _))

/-- The assertion on `prime` never fails. -/
theorem finishPair_eq (gcry : Gcry) {prime : Nat} (base : Int) (bits v : Nat)
    (hprime : 0 < gcryMpiGetNbits prime) :
    finishPair gcry prime base (wantedBits prime bits) v =
      if gcry.new (gcryMpiGetNbits (v % 2 ^ keptBits prime bits)) = false then .refused
      else .generated ⟨gcryMpiPowm base (v % 2 ^ keptBits prime bits) prime, v % 2 ^ keptBits prime bits⟩ := by
  have hlt : v % 2 ^ keptBits prime bits < prime :=
    Nat.lt_of_lt_of_le (kept_lt_half prime bits v) (half_le hprime)
  rw [finishPair, cutBits_cutBits]
  exact if_neg (not_not_intro hlt)

/-- What is kept of a draw makes a right pair unless it is zero. -/
theorem right_of_kept {prime : Nat} (base : Int) (bits v : Nat) (hprime : 0 < gcryMpiGetNbits prime)
    (hpos : v % 2 ^ keptBits prime bits ≠ 0) :
    KeyPair.Right ⟨gcryMpiPowm base (v % 2 ^ keptBits prime bits) prime, v % 2 ^ keptBits prime bits⟩
      prime base bits := by
  have hprimePos : 0 < prime := Nat.lt_of_lt_of_le (Nat.two_pow_pos _) (half_le hprime)
  refine ⟨Nat.pos_of_ne_zero hpos, ?_, kept_lt_half prime bits v, ?_⟩
  · apply Nat.size_le.2
    have hlt := Nat.mod_lt v (Nat.two_pow_pos (keptBits prime bits))
    exact Nat.lt_of_lt_of_le hlt (Nat.pow_le_pow_right (by decide) (Nat.min_le_left _ _))
  · apply Int.toNat_of_nonneg
    apply Int.emod_nonneg
    omega

/-! ## The whole function -/

/-- What `egg_dh_gen_pair` refuses without a draw. -/
def RefusesAtOnce (gcry : Gcry) (prime bits : Nat) : Prop :=
  gcryMpiGetNbits prime ≤ 1 ∨ gcryMpiGetNbits prime < bits ∨ gcry.snew (wantedBits prime bits) = false

theorem eggDhGenPair_refuses (fuel : Nat) (base : Int) (h : RefusesAtOnce gcry prime bits) :
    eggDhGenPair gcry fuel prime base bits = .refused := by
  rw [eggDhGenPair]
  rcases h with h | h | h
  · rw [if_pos (Nat.not_lt.2 h)]
  · rw [if_pos h, ite_self]
  · rw [if_pos h, ite_self, ite_self]

theorem eggDhGenPair_draws (fuel : Nat) (base : Int) (h : ¬ RefusesAtOnce gcry prime bits) :
    eggDhGenPair gcry fuel prime base bits =
      match drawPriv gcry (wantedBits prime bits) fuel 0 0 with
      | none => .drawing
      | some v =>
        if gcry.new (gcryMpiGetNbits (v % 2 ^ keptBits prime bits)) = false then .refused
        else .generated ⟨gcryMpiPowm base (v % 2 ^ keptBits prime bits) prime,
          v % 2 ^ keptBits prime bits⟩ := by
  have hprime : 1 < gcryMpiGetNbits prime := Nat.not_le.1 fun hle => h (.inl hle)
  have hbits : ¬ gcryMpiGetNbits prime < bits := fun hlt => h (.inr (.inl hlt))
  have hroom : ¬ gcry.snew (wantedBits prime bits) = false := fun hno => h (.inr (.inr hno))
  rw [eggDhGenPair, if_neg (not_not_intro hprime), if_neg hbits, if_neg hroom]
  cases drawPriv gcry (wantedBits prime bits) fuel 0 0 with
  | none => rfl
  | some v => exact finishPair_eq gcry base bits v (by omega)

/-- Whatever is drawn, `g_assert (gcry_mpi_cmp (prime, *priv) > 0)` holds. -/
theorem eggDhGenPair_ne_asserted (gcry : Gcry) (fuel prime : Nat) (base : Int) (bits : Nat) :
    eggDhGenPair gcry fuel prime base bits ≠ .asserted := by
  by_cases href : RefusesAtOnce gcry prime bits
  · rw [eggDhGenPair_refuses fuel base href]
    simp
  · rw [eggDhGenPair_draws fuel base href]
    cases drawPriv gcry (wantedBits prime bits) fuel 0 0 with
    | none => simp
    | some v =>
      dsimp only
      split
      · simp
      · simp

/-- The condition: a refusal at once, or a first draw of which bits are kept, or for which there is no room. -/
def DrawsWell (gcry : Gcry) (prime bits : Nat) : Prop :=
  RefusesAtOnce gcry prime bits ∨
    ∃ k, FirstDraw gcry (wantedBits prime bits) k ∧
      (gcryMpiRandomize gcry k (wantedBits prime bits) % 2 ^ keptBits prime bits ≠ 0 ∨ gcry.new 0 = false)

/-- A draw of which nothing is kept gives no right pair. -/
theorem kept_ne_zero_or {prime bits v : Nat} {base : Int} {o : Outcome}
    (ho : o = if gcry.new (gcryMpiGetNbits (v % 2 ^ keptBits prime bits)) = false then .refused
      else .generated ⟨gcryMpiPowm base (v % 2 ^ keptBits prime bits) prime, v % 2 ^ keptBits prime bits⟩)
    (h : o = .refused ∨ ∃ pair, o = .generated pair ∧ pair.Right prime base bits) :
    v % 2 ^ keptBits prime bits ≠ 0 ∨ gcry.new 0 = false := by
  by_cases hzero : v % 2 ^ keptBits prime bits = 0
  · right
    rw [hzero] at ho
    by_cases hroom : gcry.new 0 = false
    · exact hroom
    · have hsize : gcryMpiGetNbits 0 = 0 := Nat.size_zero
      rw [hsize, if_neg hroom] at ho
      subst ho
      rcases h with h | ⟨pair, hpair, hright⟩
      · cases h
      · have hpriv := hright.pos
        rw [← Outcome.generated.inj hpair] at hpriv
        exact absurd hpriv (Nat.lt_irrefl 0)
  · exact .inl hzero

theorem drawsWell_of_right {base : Int} (h : GenPairRight gcry prime base bits) : DrawsWell gcry prime bits := by
  by_cases href : RefusesAtOnce gcry prime bits
  · exact .inl href
  · right
    obtain ⟨fuel, h⟩ := h
    rw [eggDhGenPair_draws fuel base href] at h
    cases hdraw : drawPriv gcry (wantedBits prime bits) fuel 0 0 with
    | none =>
      rw [hdraw] at h
      rcases h with h | ⟨pair, h, -⟩ <;> cases h
    | some v =>
      rw [hdraw] at h
      obtain ⟨k, hk, rfl⟩ := firstDraw_of_drawPriv hdraw
      exact ⟨k, hk, kept_ne_zero_or rfl h⟩

theorem right_of_drawsWell (base : Int) (h : DrawsWell gcry prime bits) :
    GenPairRight gcry prime base bits := by
  by_cases href : RefusesAtOnce gcry prime bits
  · exact ⟨0, .inl (eggDhGenPair_refuses 0 base href)⟩
  · rcases h with h | ⟨k, hk, hkept⟩
    · exact absurd h href
    · have hprime : 0 < gcryMpiGetNbits prime := by
        by_contra hsmall
        exact href (.inl (by omega))
      refine ⟨k + 2, ?_⟩
      rw [eggDhGenPair_draws (k + 2) base href, drawPriv_firstDraw hk]
      dsimp only
      split
      · exact .inl rfl
      · rename_i hroom
        refine .inr ⟨_, rfl, ?_⟩
        apply right_of_kept base bits _ hprime
        intro hzero
        rcases hkept with hne | hno
        · exact hne hzero
        · rw [hzero] at hroom
          exact hroom hno

/-- **Key generation.** It refuses or gives a right pair if and only if the first draw that is not zero has a
bit that is kept. -/
theorem gen_pair_right_iff (gcry : Gcry) (prime : Nat) (base : Int) (bits : Nat) :
    GenPairRight gcry prime base bits ↔ DrawsWell gcry prime bits :=
  ⟨drawsWell_of_right, right_of_drawsWell base⟩

/-- A source of random bytes that begins with `0x10`, with memory for everything. -/
def sixteen : Gcry := ⟨fun _ n => Vector.replicate n 0x10, fun _ => true, fun _ => true⟩

/-- For the prime 11, of four bits, the draw 16 becomes the private value zero. -/
theorem sixteen_makes_zero : ¬ GenPairRight sixteen 11 2 0 := by
  intro hright
  rcases drawsWell_of_right hright with h | ⟨k, -, hkept⟩
  · have hno : ¬ RefusesAtOnce sixteen 11 0 := by
      rw [RefusesAtOnce]
      decide
    exact hno h
  · have hzero : ¬ (gcryMpiRandomize sixteen k (wantedBits 11 0) % 2 ^ keptBits 11 0 ≠ 0 ∨
        sixteen.new 0 = false) := by
      rw [show gcryMpiRandomize sixteen k = gcryMpiRandomize sixteen 0 from rfl]
      decide
    exact hzero hkept

end MateKeyring.Egg.Dh
