import MateKeyring.Lib.BigEndian

/-!
# Octets by the block

Keys are cut from a stream of blocks of one size. `blocks f l` is its first `l` blocks, and as many octets of it
as are wanted are the same of every number of blocks that holds them (`take_blocks`). The blocks of PBKDF2 are sums
over a chain of pseudorandom values.
-/

set_option autoImplicit false

namespace MateKeyring.Lib.KeyStream

open List

variable {α : Type*} {f : Nat → List α} {size : Nat}

/-- The first `l` blocks of a stream. -/
def blocks (f : Nat → List α) (l : Nat) : List α := (List.range l).flatMap f

theorem blocks_succ (f : Nat → List α) (l : Nat) : blocks f (l + 1) = blocks f l ++ f l := by
  rw [blocks, range_succ, flatMap_append, flatMap_singleton]
  rfl

/-- The first block, and those behind it. -/
theorem blocks_succ_left (f : Nat → List α) (l : Nat) : blocks f (l + 1) = f 0 ++ blocks (fun i => f (i + 1)) l := by
  rw [blocks, range_succ_eq_map, flatMap_cons, flatMap_map, blocks]

theorem length_blocks (h : ∀ i, (f i).length = size) (l : Nat) : (blocks f l).length = l * size := by
  induction l with
  | zero => exact (Nat.zero_mul size).symm
  | succ l ih => rw [blocks_succ, length_append, ih, h, Nat.succ_mul]

/-- More blocks than are wanted change nothing. -/
theorem take_blocks (h : ∀ i, (f i).length = size) {n l l' : Nat} (hle : l ≤ l') (hn : n ≤ l * size) :
    (blocks f l').take n = (blocks f l).take n := by
  induction l' with
  | zero =>
    have hzero : l = 0 := Nat.le_zero.1 hle
    rw [hzero]
  | succ l' ih =>
    rcases Nat.lt_or_eq_of_le hle with hlt | rfl
    · have hshort : n ≤ (blocks f l').length := by
        rw [length_blocks h]
        exact hn.trans (Nat.mul_le_mul_right size (Nat.le_of_lt_succ hlt))
      rw [blocks_succ, take_append_of_le_length hshort]
      exact ih (Nat.le_of_lt_succ hlt)
    · rfl

/-! ## PBKDF2 -/

/-- Octet by octet. -/
def xor (x y : Bytes) : Bytes := List.zipWith (· ^^^ ·) x y

theorem length_xor {x y : Bytes} (hx : x.length = size) (hy : y.length = size) : (xor x y).length = size := by
  rw [xor, length_zipWith, hx, hy, Nat.min_self]

theorem zero_xor (x : Bytes) : xor (replicate x.length 0) x = x := by
  induction x with
  | nil => rfl
  | cons b x ih =>
    have hcons : xor (replicate (b :: x).length 0) (b :: x) =
        (0 ^^^ b) :: xor (replicate x.length 0) x := rfl
    rw [hcons, ih, UInt8.zero_xor]

variable (prf : Bytes → Bytes) (first : Bytes)

/-- `U_1` of what comes first is `chain 0`, and every other one is that of the one before. -/
def chain : Nat → Bytes
  | 0 => prf first
  | j + 1 => prf (chain j)

/-- The sum of `U_1` to `U_(j+1)`. -/
def chainSum : Nat → Bytes
  | 0 => chain prf first 0
  | j + 1 => xor (chainSum j) (chain prf first (j + 1))

variable {prf} {first}

theorem length_chain (h : ∀ data, (prf data).length = size) (j : Nat) : (chain prf first j).length = size := by
  cases j with
  | zero => exact h _
  | succ j => exact h _

theorem length_chainSum (h : ∀ data, (prf data).length = size) (j : Nat) :
    (chainSum prf first j).length = size := by
  induction j with
  | zero => exact length_chain h 0
  | succ j ih => exact length_xor ih (length_chain h (j + 1))

/-- The function PBKDF2 of RFC 2898 for a pseudorandom function with values of `size` octets: `count` times for
each block, whose number follows the salt as four octets, and the first `n` octets of the blocks. -/
def pbkdf2 (prf : Bytes → Bytes → Bytes) (size : Nat) (password salt : Bytes)
    (count n : Nat) : Bytes :=
  (blocks (fun i => chainSum (prf password) (salt ++ BigEndian.encode 4 (i + 1)) (count - 1))
    ((n + size - 1) / size)).take n

/-! ## HKDF -/

/-- `T(i)` of HKDF-Expand, for a pseudorandom function that has its key. -/
def expandBlock (prf : Bytes → Bytes) (info : Bytes) : Nat → Bytes
  | 0 => []
  | i + 1 => prf (expandBlock prf info i ++ info ++ [UInt8.ofNat (i + 1)])

theorem length_expandBlock {prf : Bytes → Bytes} (h : ∀ data, (prf data).length = size)
    (info : Bytes) (i : Nat) : (expandBlock prf info (i + 1)).length = size := h _

/-- HKDF-Extract and HKDF-Expand of RFC 5869, to `n` octets. A salt that is not there is a string of zeros. -/
def hkdf (mac : Bytes → Bytes → Bytes) (size : Nat) (salt : Option Bytes)
    (ikm info : Bytes) (n : Nat) : Bytes :=
  let prk := mac (salt.getD (replicate size 0)) ikm
  (blocks (fun i => expandBlock (mac prk) info (i + 1)) ((n + size - 1) / size)).take n

end MateKeyring.Lib.KeyStream
