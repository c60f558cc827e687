import Mathlib.Data.Nat.ModEq
import Mathlib.Tactic.Ring
import MateKeyring.Lib.Bytes

/-!
# Fixed-width big-endian numerals and reads at an offset

`encode k v` is the list of the `k` low base-256 digits of `v`, most significant first, and
`decode` is the value of such a list. `decode_encode` gives the residue modulo `256 ^ k`, so a
numeral below the bound comes back exactly (`decode_encode_of_lt`).

A read at an offset (`sliceAt`, `readAt`) succeeds exactly when the requested octets lie inside
the list. The lemmas `sliceAt_append` and `readAt_encode` say that a reader positioned at the end
of a prefix sees what was appended after it; round-trip proofs of length-prefixed formats chain
them.
-/

set_option autoImplicit false

namespace MateKeyring.Lib.BigEndian

open List

variable {off : Nat} {bs : Bytes}

/-- The `k` low base-256 digits of `v`, most significant first. -/
def encode : Nat → Nat → Bytes
  | 0, _ => []
  | k + 1, v => UInt8.ofNat (v / 256 ^ k % 256) :: encode k v

/-- The value of a list of base-256 digits, most significant first. -/
def decode : Bytes → Nat
  | [] => 0
  | b :: bs => b.toNat * 256 ^ bs.length + decode bs

@[simp] theorem length_encode (k v : Nat) : (encode k v).length = k := by
  induction k with
  | zero => rfl
  | succ k ih => simp [encode, ih]

/-- Decoding an encoded number gives its residue modulo `256 ^ k`. -/
theorem decode_encode (k v : Nat) : decode (encode k v) = v % 256 ^ k := by
  induction k with
  | zero => simp [encode, decode, Nat.mod_one]
  | succ k ih =>
    have hdigit : (UInt8.ofNat (v / 256 ^ k % 256)).toNat = v / 256 ^ k % 256 := by
      simp
    rw [encode, decode, length_encode, ih, hdigit, pow_succ, Nat.mod_mul]
    ring

theorem decode_encode_of_lt {k v : Nat} (h : v < 256 ^ k) : decode (encode k v) = v := by
  rw [decode_encode, Nat.mod_eq_of_lt h]

/-- Only the low digits are written. -/
theorem encode_mod {k j : Nat} (h : k ≤ j) (v : Nat) : encode k (v % 256 ^ j) = encode k v := by
  induction k with
  | zero => rfl
  | succ k ih =>
    have hsplit : 256 ^ j = 256 ^ k * 256 ^ (j - k) := by
      rw [← pow_add]
      congr 1
      omega
    have hdvd : 256 ∣ 256 ^ (j - k) := dvd_pow_self 256 (by omega)
    rw [encode, encode, ih (by omega), hsplit, Nat.mod_mul_right_div_self,
      Nat.mod_mod_of_dvd _ hdvd]

theorem decode_lt (bs : Bytes) : decode bs < 256 ^ bs.length := by
  induction bs with
  | nil => simp [decode]
  | cons b bs ih =>
    have hb : b.toNat < 256 := b.toNat_lt
    rw [decode, length_cons, pow_succ]
    calc b.toNat * 256 ^ bs.length + decode bs
        < b.toNat * 256 ^ bs.length + 256 ^ bs.length := by omega
      _ = (b.toNat + 1) * 256 ^ bs.length := by ring
      _ ≤ 256 * 256 ^ bs.length := Nat.mul_le_mul_right _ hb
      _ = 256 ^ bs.length * 256 := by ring

/-- The digits of a list are the list. -/
theorem encode_decode (bs : Bytes) : encode bs.length (decode bs) = bs := by
  induction bs with
  | nil => rfl
  | cons b bs ih =>
    have hlt := decode_lt bs
    have hpos : 0 < 256 ^ bs.length := Nat.pow_pos (by decide)
    have hfirst : (b.toNat * 256 ^ bs.length + decode bs) / 256 ^ bs.length = b.toNat := by
      rw [Nat.mul_comm, Nat.mul_add_div hpos, Nat.div_eq_of_lt hlt, Nat.add_zero]
    have hrest : encode bs.length (b.toNat * 256 ^ bs.length + decode bs) = bs := by
      rw [← encode_mod (Nat.le_refl bs.length), Nat.mul_comm, Nat.mul_add_mod, Nat.mod_eq_of_lt hlt, ih]
    rw [length_cons, encode, decode, hfirst, hrest, Nat.mod_eq_of_lt b.toNat_lt, UInt8.ofNat_toNat]

theorem decode_append (xs ys : Bytes) :
    decode (xs ++ ys) = decode xs * 256 ^ ys.length + decode ys := by
  induction xs with
  | nil => simp [decode]
  | cons b xs ih =>
    rw [cons_append, decode, ih, decode, length_append, pow_add]
    ring

/-! ## Reads at an offset -/

/-- The `n` elements starting at `off`, when they all lie inside the list. -/
def sliceAt {α : Type*} (bs : List α) (off n : Nat) : Option (List α) :=
  if off + n ≤ bs.length then some ((bs.drop off).take n) else none

/-- The number written in the `k` octets starting at `off`. -/
def readAt (k : Nat) (bs : Bytes) (off : Nat) : Option Nat :=
  (sliceAt bs off k).map decode

variable {α : Type*}

theorem sliceAt_eq_some_iff {bs out : List α} {off n : Nat} :
    sliceAt bs off n = some out ↔ off + n ≤ bs.length ∧ (bs.drop off).take n = out := by
  unfold sliceAt
  split <;> simp_all

theorem sliceAt_eq_none_iff {bs : List α} {off n : Nat} :
    sliceAt bs off n = none ↔ bs.length < off + n := by
  unfold sliceAt
  split <;> simp_all

theorem length_of_sliceAt {bs out : List α} {off n : Nat} (h : sliceAt bs off n = some out) :
    out.length = n := by
  obtain ⟨hle, rfl⟩ := sliceAt_eq_some_iff.1 h
  simp only [length_take, length_drop]
  omega

/-- A slice positioned at the end of a prefix is what follows the prefix. -/
theorem sliceAt_append (pre mid post : List α) {off n : Nat} (hoff : off = pre.length)
    (hn : n = mid.length) : sliceAt (pre ++ (mid ++ post)) off n = some mid := by
  subst hoff hn
  simp [sliceAt]

/-- A read positioned at the end of a prefix gives the numeral that follows the prefix. -/
theorem readAt_encode (pre post : Bytes) {k v off : Nat} (hoff : off = pre.length)
    (hv : v < 256 ^ k) : readAt k (pre ++ (encode k v ++ post)) off = some v := by
  rw [readAt, sliceAt_append pre (encode k v) post hoff (by simp)]
  simp [decode_encode_of_lt hv]

theorem readAt_eq_none_iff {k off : Nat} : readAt k bs off = none ↔ bs.length < off + k := by
  simp [readAt, sliceAt_eq_none_iff]

theorem readAt_bounds {k off v : Nat} (h : readAt k bs off = some v) :
    off + k ≤ bs.length ∧ v < 256 ^ k := by
  simp only [readAt, Option.map_eq_some_iff] at h
  obtain ⟨out, hs, rfl⟩ := h
  have hlen := length_of_sliceAt hs
  refine ⟨(sliceAt_eq_some_iff.1 hs).1, ?_⟩
  have hlt := decode_lt out
  rwa [hlen] at hlt

/-- A slice in two pieces. -/
theorem sliceAt_add {bs out out' : List α} {off m n : Nat} (h : sliceAt bs off m = some out)
    (h' : sliceAt bs (off + m) n = some out') : sliceAt bs off (m + n) = some (out ++ out') := by
  obtain ⟨hle, rfl⟩ := sliceAt_eq_some_iff.1 h
  obtain ⟨hle', rfl⟩ := sliceAt_eq_some_iff.1 h'
  refine sliceAt_eq_some_iff.2 ⟨by omega, ?_⟩
  rw [take_add, drop_drop]

/-- A numeral in two pieces. -/
theorem readAt_add {off j k a c : Nat} (h : readAt j bs off = some a) (h' : readAt k bs (off + j) = some c) :
    readAt (j + k) bs off = some (a * 256 ^ k + c) := by
  simp only [readAt, Option.map_eq_some_iff] at h h'
  obtain ⟨x, hx, rfl⟩ := h
  obtain ⟨y, hy, rfl⟩ := h'
  rw [readAt, sliceAt_add hx hy, Option.map_some, decode_append, length_of_sliceAt hy]

/-! ## Contents at an offset -/

/-- The list has `out` at the offset `off`. -/
def HasAt (bs : List α) (off : Nat) (out : List α) : Prop :=
  ∃ pre post, bs = pre ++ (out ++ post) ∧ pre.length = off

theorem HasAt.left {bs x y : List α} (h : HasAt bs off (x ++ y)) : HasAt bs off x := by
  obtain ⟨pre, post, rfl, hlen⟩ := h
  exact ⟨pre, y ++ post, by simp, hlen⟩

theorem HasAt.right {bs x y : List α} (h : HasAt bs off (x ++ y)) :
    HasAt bs (off + x.length) y := by
  obtain ⟨pre, post, rfl, hlen⟩ := h
  exact ⟨pre ++ x, post, by simp, by simp [hlen]⟩

theorem HasAt.tail {bs y : List α} {a : α} (h : HasAt bs off (a :: y)) : HasAt bs (off + 1) y :=
  HasAt.right (x := [a]) h

theorem HasAt.head {bs y : List α} {a : α} (h : HasAt bs off (a :: y)) : bs[off]? = some a := by
  obtain ⟨pre, post, rfl, rfl⟩ := h
  simp

theorem HasAt.sliceAt {bs out : List α} (h : HasAt bs off out) :
    sliceAt bs off out.length = some out := by
  obtain ⟨pre, post, rfl, hlen⟩ := h
  exact sliceAt_append pre out post hlen.symm rfl

theorem HasAt.readAt {off k v : Nat} (h : HasAt bs off (encode k v)) (hv : v < 256 ^ k) :
    readAt k bs off = some v := by
  obtain ⟨pre, post, rfl, hlen⟩ := h
  exact readAt_encode pre post hlen.symm hv

theorem HasAt.length_le {bs out : List α} (h : HasAt bs off out) : out.length ≤ bs.length := by
  obtain ⟨pre, post, rfl, -⟩ := h
  simp
  omega

end MateKeyring.Lib.BigEndian
