import MateKeyring.Egg.Buffer
import MateKeyring.Egg.Symkey
import MateKeyring.Lib.KeyStream

/-!
# PBKDF2 of `egg-symkey.c`

`generate_pbkdf2` writes block after block into the memory of the key. The invariant of its two loops is that the
blocks before the `i`-th are in their places, and that the sum over the chain of the `i`-th block goes as far as
its last round. Counters are `guint` here as they are there.
-/

set_option autoImplicit false

namespace MateKeyring.Egg

open Lib BigEndian List
open Lib.KeyStream (xor chain chainSum blocks pbkdf2 length_xor length_chain length_chainSum)

/-- The HMAC of a hash of `libgcrypt`. -/
structure Hmac where
  /-- Whether `gcry_md_open` has no error. -/
  opens : Bool
  /-- `gcry_md_get_algo_dlen` -/
  size : Nat
  mac : Bytes → Bytes → Bytes
  length_mac : ∀ key data, (mac key data).length = size

/-- `memcpy (dest + offset, src, n)` for the `n` octets of `src`. -/
def memcpyAt (dest : Bytes) (offset : Nat) (src : Bytes) : Checked Bytes :=
  if offset + src.length ≤ dest.length then
    .ok (dest.take offset ++ src ++ dest.drop (offset + src.length))
  else .error .outOfBounds

section Loops

variable (hmac : Hmac) (password : Bytes) (nSalt : Nat) (iterations : UInt32)

/-- The loop over `u`, with `buf`, `T` and `U`; `none` is that it is not at an end. -/
def pbkdf2Rounds (i : UInt32) :
    Nat → UInt32 → Bytes → Bytes → Bytes → Checked (Option (Bytes × Bytes × Bytes))
  | 0, _, _, _, _ => .ok none
  | fuel + 1, u, buf, sum, last =>
    if u ≤ iterations then do
      -- the number of the block is added for the first round alone
      let buf ← if u = 1 then memcpyAt buf nSalt (eggBufferEncodeUint32 i.toNat) else pure buf
      let last := hmac.mac password (if u = 1 then buf else last)
      pbkdf2Rounds i fuel (u + 1) buf (xor sum last) last
    else .ok (some (buf, sum, last))

/-- The loop over `i`, for `l` blocks of which the last has `r` octets. -/
def pbkdf2Blocks (bound : Nat) (l : UInt32) (r : Nat) :
    Nat → UInt32 → Bytes → Bytes → Bytes → Checked (Option Bytes)
  | 0, _, _, _, _ => .ok none
  | fuel + 1, i, buf, last, output =>
    if i ≤ l then do
      match ← pbkdf2Rounds hmac password nSalt iterations i bound 1 buf (replicate hmac.size 0) last with
      | none => .ok none
      | some (buf, sum, last) => do
        let output ← memcpyAt output ((i - 1).toNat * hmac.size) (sum.take (if i = l then r else hmac.size))
        pbkdf2Blocks bound l r fuel (i + 1) buf last output
    else .ok (some output)

end Loops

/-- `generate_pbkdf2`, into the memory `output`. `secureAlloc` is whether `egg_secure_alloc` gives memory, and
`none` is that after `bound` turns a loop is not at an end. -/
def generatePbkdf2 (bound : Nat) (secureAlloc : Nat → Bool) (hmac : Hmac) (password salt : Bytes)
    (iterations : UInt32) (output : Bytes) : Checked (Option (Bool × Bytes)) :=
  if iterations = 0 then .ok (some (false, output))
  else if output.length = 0 then .ok (some (false, output))
  else if ¬ output.length < 0xffffffff then .ok (some (false, output))
  else if hmac.size = 0 then .ok (some (false, output))
  else if hmac.opens = false then .ok (some (false, output))
  else if secureAlloc hmac.size = false ∨ secureAlloc (salt.length + 4) = false then .ok (some (false, output))
  else do
    let l : UInt32 := UInt32.ofNat ((output.length - 1) / hmac.size + 1)
    let r := output.length - (l - 1).toNat * hmac.size
    let buf ← memcpyAt (replicate (salt.length + 4) 0) 0 salt
    let result ← pbkdf2Blocks hmac password salt.length iterations bound l r bound 1 buf
      (replicate hmac.size 0) output
    pure (result.map fun output => (true, output))

/-! ## The rounds of one block -/

variable {hmac : Hmac} {password salt : Bytes} {iterations : UInt32}

theorem memcpyAt_eq {before dest src after : Bytes} {offset : Nat} (hoffset : offset = before.length)
    (hsrc : dest.length = src.length) :
    memcpyAt (before ++ dest ++ after) offset src = .ok (before ++ src ++ after) := by
  have hfits : offset + src.length ≤ (before ++ dest ++ after).length := by
    simp only [length_append]
    omega
  have hbehind : (before ++ dest ++ after).drop (offset + src.length) = after := by
    rw [hoffset, ← hsrc, ← length_append, drop_left]
  have hbefore : (before ++ dest ++ after).take offset = before := by
    rw [hoffset, append_assoc, take_left]
  rw [memcpyAt, if_pos hfits, hbehind, hbefore]

/-- A counter that is behind its limit by `k`. -/
theorem ofNat_le_iff {limit : UInt32} {n : Nat} (hn : n < 2 ^ 32) : UInt32.ofNat n ≤ limit ↔ n ≤ limit.toNat := by
  rw [UInt32.le_iff_toNat_le, UInt32.toNat_ofNat_of_lt' hn]

/-- From the second round on the sum goes as far as the round before. -/
theorem pbkdf2Rounds_later {first buf : Bytes} (i : UInt32) {k j bound : Nat}
    (hk : iterations.toNat = j + 1 + k) (hcount : iterations.toNat < 2 ^ 32 - 1) (hbound : k < bound) :
    pbkdf2Rounds hmac password salt.length iterations i bound (UInt32.ofNat (j + 2)) buf
        (chainSum (hmac.mac password) first j) (chain (hmac.mac password) first j) =
      .ok (some (buf, chainSum (hmac.mac password) first (j + k), chain (hmac.mac password) first (j + k))) := by
  induction k generalizing j bound with
  | zero =>
    obtain ⟨bound, rfl⟩ := Nat.exists_eq_add_one_of_ne_zero (by omega : bound ≠ 0)
    rw [pbkdf2Rounds, if_neg]
    · rfl
    · rw [ofNat_le_iff (by omega)]
      omega
  | succ k ih =>
    obtain ⟨bound, rfl⟩ := Nat.exists_eq_add_one_of_ne_zero (by omega : bound ≠ 0)
    have hlater : UInt32.ofNat (j + 2) ≠ 1 := by
      intro h
      have hlt : j + 2 < 2 ^ 32 := by omega
      have hnat := congrArg UInt32.toNat h
      rw [UInt32.toNat_ofNat_of_lt' hlt] at hnat
      exact absurd hnat (by simp)
    have hnext : UInt32.ofNat (j + 2) + 1 = UInt32.ofNat (j + 1 + 2) := (UInt32.ofNat_add (j + 2) 1).symm
    rw [pbkdf2Rounds, if_pos ((ofNat_le_iff (by omega)).2 (by omega)), if_neg hlater, pure_eq_ok, ok_bind]
    dsimp only
    rw [if_neg hlater, hnext]
    have hrest := @ih (j + 1) bound (by omega) (by omega)
    rw [show j + (k + 1) = j + 1 + k by omega]
    exact hrest

/-- All the rounds of the `i`-th block, whose number is put behind the salt. -/
theorem pbkdf2Rounds_eq {i : UInt32} {old last : Bytes} {bound : Nat} (hold : old.length = 4)
    (hpos : 0 < iterations.toNat) (hcount : iterations.toNat < 2 ^ 32 - 1) (hbound : iterations.toNat < bound) :
    ∃ last', pbkdf2Rounds hmac password salt.length iterations i bound 1 (salt ++ old)
        (replicate hmac.size 0) last =
      .ok (some (salt ++ encode 4 i.toNat, chainSum (hmac.mac password)
        (salt ++ encode 4 i.toNat) (iterations.toNat - 1), last')) := by
  obtain ⟨bound, rfl⟩ := Nat.exists_eq_add_one_of_ne_zero (by omega : bound ≠ 0)
  have hnumber : memcpyAt (salt ++ old) salt.length (eggBufferEncodeUint32 i.toNat) =
      .ok (salt ++ encode 4 i.toNat) := by
    have hwrite := @memcpyAt_eq salt old (eggBufferEncodeUint32 i.toNat) [] _ rfl hold
    rw [append_nil, append_nil] at hwrite
    rw [hwrite, eggBufferEncodeUint32_eq]
  have hone : (1 : UInt32) ≤ iterations := by
    rw [UInt32.le_iff_toNat_le]
    exact hpos
  rw [pbkdf2Rounds, if_pos hone, if_pos rfl, hnumber, ok_bind]
  dsimp only
  rw [if_pos rfl]
  -- the sum over no round is the zero that it starts with
  have hsum : xor (replicate hmac.size 0) (hmac.mac password (salt ++ encode 4 i.toNat)) =
      chainSum (hmac.mac password) (salt ++ encode 4 i.toNat) 0 := by
    have hzero := KeyStream.zero_xor (hmac.mac password (salt ++ encode 4 i.toNat))
    rw [hmac.length_mac] at hzero
    exact hzero
  rw [hsum]
  refine ⟨chain (hmac.mac password) (salt ++ encode 4 i.toNat) (iterations.toNat - 1), ?_⟩
  have hlater := @pbkdf2Rounds_later hmac password salt iterations (salt ++ encode 4 i.toNat)
    (salt ++ encode 4 i.toNat) i (iterations.toNat - 1) 0 bound (by omega) hcount (by omega)
  simp only [Nat.zero_add] at hlater
  exact hlater

/-! ## The blocks -/

/-- The block with the number `m + 1`. -/
def pbkdf2Block (hmac : Hmac) (password salt : Bytes) (iterations : UInt32) (m : Nat) : Bytes :=
  chainSum (hmac.mac password) (salt ++ encode 4 (m + 1)) (iterations.toNat - 1)

theorem length_pbkdf2Block (m : Nat) : (pbkdf2Block hmac password salt iterations m).length = hmac.size :=
  length_chainSum (hmac.length_mac password) _

/-- The output with `m` blocks in their places. -/
structure Filled (f : Nat → Bytes) (n m : Nat) (output : Bytes) : Prop where
  length : output.length = n
  eq : ∃ rest, output = (blocks f m).take n ++ rest

/-- One more block, or what there is room for of it, is written behind the others. -/
theorem Filled.write {f : Nat → Bytes} {size n m : Nat} {output : Bytes} (h : Filled f n m output)
    (hf : ∀ i, (f i).length = size) (hroom : m * size ≤ n) :
    ∃ output', memcpyAt output (m * size) ((f m).take (n - m * size)) = .ok output' ∧
      Filled f n (m + 1) output' := by
  obtain ⟨hlength, rest, rfl⟩ := h
  have hblocks : (blocks f m).length = m * size := KeyStream.length_blocks hf m
  have hwhole : (blocks f m).take n = blocks f m := take_of_length_le (hblocks.trans_le hroom)
  rw [hwhole] at hlength ⊢
  rw [length_append, hblocks] at hlength
  have hpiece : ((f m).take (n - m * size)).length ≤ rest.length := by
    rw [length_take]
    omega
  generalize hp : (f m).take (n - m * size) = piece at hpiece ⊢
  refine ⟨blocks f m ++ piece ++ rest.drop piece.length, ?_, ?_, rest.drop piece.length, ?_⟩
  · have hwrite := @memcpyAt_eq (blocks f m) (rest.take piece.length) piece (rest.drop piece.length) (m * size)
      hblocks.symm (length_take_of_le hpiece)
    rw [append_assoc (blocks f m) (rest.take _), take_append_drop] at hwrite
    exact hwrite
  · rw [length_append, length_append, length_drop, hblocks]
    omega
  · rw [KeyStream.blocks_succ, take_append, hwhole, hblocks, hp]

/-- The blocks from the `m`-th on fill what is left of the output. -/
theorem pbkdf2Blocks_eq {l : UInt32} {n k m bound fuel : Nat} {old last output : Bytes}
    (hold : old.length = 4) (hpos : 0 < iterations.toNat) (hcount : iterations.toNat < 2 ^ 32 - 1)
    (hbound : iterations.toNat < bound) (hl : l.toNat = m + k) (hlimit : l.toNat < 2 ^ 32 - 1)
    (hlow : (l.toNat - 1) * hmac.size ≤ n) (hhigh : n ≤ l.toNat * hmac.size)
    (hfilled : Filled (pbkdf2Block hmac password salt iterations) n m output) (hfuel : k < fuel) :
    pbkdf2Blocks hmac password salt.length iterations bound l (n - (l - 1).toNat * hmac.size) fuel
        (UInt32.ofNat (m + 1)) (salt ++ old) last output =
      .ok (some ((blocks (pbkdf2Block hmac password salt iterations) l.toNat).take n)) := by
  induction k generalizing m fuel old last output with
  | zero =>
    obtain ⟨fuel, rfl⟩ := Nat.exists_eq_add_one_of_ne_zero (by omega : fuel ≠ 0)
    rw [pbkdf2Blocks, if_neg]
    · -- the blocks have as many octets as the output
      obtain ⟨hlength, rest, rfl⟩ := hfilled
      have hall : m = l.toNat := by omega
      have hfull : ((blocks (pbkdf2Block hmac password salt iterations) m).take n).length = n := by
        apply length_take_of_le
        rw [KeyStream.length_blocks length_pbkdf2Block, hall]
        exact hhigh
      rw [length_append, hfull] at hlength
      have hrest : rest = [] := length_eq_zero_iff.1 (by omega)
      rw [hrest, append_nil, hall]
    · rw [ofNat_le_iff (by omega)]
      omega
  | succ k ih =>
    obtain ⟨fuel, rfl⟩ := Nat.exists_eq_add_one_of_ne_zero (by omega : fuel ≠ 0)
    obtain ⟨last', hrounds⟩ := @pbkdf2Rounds_eq hmac password salt iterations (UInt32.ofNat (m + 1)) old last
      bound hold hpos hcount hbound
    rw [UInt32.toNat_ofNat_of_lt' (by omega : m + 1 < 2 ^ 32)] at hrounds
    have hplace : (UInt32.ofNat (m + 1) - 1).toNat = m := by
      have hlt : m < 2 ^ 32 := by omega
      have hcancel : UInt32.ofNat m + UInt32.ofNat 1 - 1 = UInt32.ofNat m := UInt32.add_sub_cancel _ _
      rw [UInt32.ofNat_add, hcancel, UInt32.toNat_ofNat_of_lt' hlt]
    have hmul : m * hmac.size ≤ (l.toNat - 1) * hmac.size := Nat.mul_le_mul_right _ (by omega)
    -- the last block is cut, and the others have room for all their octets
    have hpiece : (pbkdf2Block hmac password salt iterations m).take
          (if UInt32.ofNat (m + 1) = l then n - (l - 1).toNat * hmac.size else hmac.size) =
        (pbkdf2Block hmac password salt iterations m).take (n - m * hmac.size) := by
      split
      · rename_i heq
        rw [← heq, hplace]
      · rename_i hne
        have hmore : m + 1 ≤ l.toNat - 1 := by
          have hother : m + 1 ≠ l.toNat := by
            intro heq
            exact hne (by rw [heq, UInt32.ofNat_toNat])
          omega
        have hnext : (m + 1) * hmac.size ≤ (l.toNat - 1) * hmac.size := Nat.mul_le_mul_right _ hmore
        rw [Nat.succ_mul] at hnext
        have hlength := @length_pbkdf2Block hmac password salt iterations m
        rw [take_of_length_le hlength.le, take_of_length_le (by omega)]
    obtain ⟨output', hwrite, hfilled'⟩ := hfilled.write length_pbkdf2Block (hmul.trans hlow)
    have hnext : UInt32.ofNat (m + 1) + 1 = UInt32.ofNat (m + 1 + 1) := (UInt32.ofNat_add (m + 1) 1).symm
    rw [pbkdf2Blocks, if_pos ((ofNat_le_iff (by omega)).2 (by omega)), hrounds, ok_bind]
    dsimp only
    rw [hplace]
    have hsame : chainSum (hmac.mac password) (salt ++ encode 4 (m + 1)) (iterations.toNat - 1) =
      pbkdf2Block hmac password salt iterations m := rfl
    rw [hsame, hpiece, hwrite, ok_bind, hnext]
    exact ih (length_encode _ _) (by omega) hfilled' (by omega)

/-- `generate_pbkdf2` fills the memory of the key, whose length is that of `output`, with the octets of the
function PBKDF2 of RFC 2898. The count is the `int` of `egg_symkey_generate_pbkdf2`, so that `u` does not go
around. -/
theorem pbkdf2_right (secureAlloc : Nat → Bool) (hmac : Hmac) (password salt : Bytes) (iterations : UInt32)
    (output : Bytes) (hpos : 0 < iterations.toNat) (hint : iterations.toNat < 2 ^ 32 - 1)
    (hsome : 0 < output.length) (hlimit : output.length < 2 ^ 32 - 1) (hsize : 0 < hmac.size)
    (hopens : hmac.opens = true) (halloc : secureAlloc hmac.size = true)
    (halloc' : secureAlloc (salt.length + 4) = true) :
    ∃ bound, ∀ more, bound ≤ more → generatePbkdf2 more secureAlloc hmac password salt iterations output =
      .ok (some (true, pbkdf2 hmac.mac hmac.size password salt iterations.toNat output.length)) ∧
        (pbkdf2 hmac.mac hmac.size password salt iterations.toNat output.length).length = output.length := by
  generalize hn : output.length = n at hsome hlimit ⊢
  have hdiv : (n - 1) / hmac.size * hmac.size ≤ n - 1 := Nat.div_mul_le_self _ _
  have hquot : (n - 1) / hmac.size ≤ n - 1 := Nat.div_le_self _ _
  have hup : n - 1 < ((n - 1) / hmac.size + 1) * hmac.size := by
    rw [Nat.mul_comm]
    exact Nat.lt_mul_div_succ (n - 1) hsize
  -- the number of blocks is that of the definition
  have hceil : (n + hmac.size - 1) / hmac.size = (n - 1) / hmac.size + 1 := by
    rw [show n + hmac.size - 1 = n - 1 + hmac.size by omega, Nat.add_div_right _ hsize]
  have hspec : pbkdf2 hmac.mac hmac.size password salt iterations.toNat n =
      (blocks (pbkdf2Block hmac password salt iterations) ((n - 1) / hmac.size + 1)).take n := by
    rw [pbkdf2, hceil]
    rfl
  refine ⟨iterations.toNat + (n - 1) / hmac.size + 2, fun more hmore => ⟨?_, ?_⟩⟩
  · have hcount : (n - 1) / hmac.size + 1 < 2 ^ 32 := by omega
    have hl : (UInt32.ofNat ((n - 1) / hmac.size + 1)).toNat = (n - 1) / hmac.size + 1 :=
      UInt32.toNat_ofNat_of_lt' hcount
    have hsalt : memcpyAt (replicate (salt.length + 4) 0) 0 salt = .ok (salt ++ replicate 4 0) := by
      have hwrite := @memcpyAt_eq [] (replicate salt.length 0) salt (replicate 4 0) 0 rfl
        length_replicate
      rw [nil_append, nil_append, replicate_append_replicate] at hwrite
      exact hwrite
    have hstart : Filled (pbkdf2Block hmac password salt iterations) n 0 output :=
      ⟨hn, output, by rw [blocks, range_zero, flatMap_nil, take_nil, nil_append]⟩
    have hblocks := @pbkdf2Blocks_eq hmac password salt iterations (UInt32.ofNat ((n - 1) / hmac.size + 1)) n
      ((n - 1) / hmac.size + 1) 0 more more (replicate 4 0) (replicate hmac.size 0) output
      length_replicate hpos hint (by omega) (by omega) (by omega) (by rw [hl, Nat.add_sub_cancel]; omega)
      (by rw [hl]; omega) hstart (by omega)
    have hzero : iterations ≠ 0 := by
      rintro rfl
      exact absurd hpos (by decide)
    rw [generatePbkdf2, if_neg hzero, if_neg (by omega), if_neg (by omega), if_neg (by omega), hopens,
      if_neg Bool.true_eq_false.mp, halloc, halloc', if_neg (by decide), hn, hsalt, ok_bind]
    have hone : UInt32.ofNat (0 + 1) = 1 := rfl
    rw [hl, hone] at hblocks
    rw [hspec, hblocks]
    rfl
  · rw [hspec]
    apply length_take_of_le
    rw [KeyStream.length_blocks length_pbkdf2Block]
    omega

/-- HMAC-SHA1 of what is hashed for the password `password`, the salt `salt` and two rounds of one block. -/
def sampleHmac : Hmac where
  opens := true
  size := 20
  mac _ data :=
    if data = ascii "salt" ++ [0, 0, 0, 1] then
      [0x0c, 0x60, 0xc8, 0x0f, 0x96, 0x1f, 0x0e, 0x71, 0xf3, 0xa9, 0xb5, 0x24, 0xaf, 0x60, 0x12, 0x06, 0x2f, 0xe0,
        0x37, 0xa6]
    else
      [0xe6, 0x0c, 0xc9, 0x42, 0x51, 0x32, 0x61, 0xfd, 0x3e, 0xb7, 0x6c, 0x0e, 0x61, 0x7d, 0x53, 0xf6, 0xf7, 0x3e,
        0xbe, 0xf1]
  length_mac := by
    intro key data
    split
    · rfl
    · rfl

theorem pbkdf2_right_sample :
    0 < (2 : UInt32).toNat ∧ 0 < (replicate 20 (0 : UInt8)).length ∧ 0 < sampleHmac.size ∧
      ∃ bound, ∀ more, bound ≤ more →
        generatePbkdf2 more (fun _ => true) sampleHmac (ascii "password") (ascii "salt") 2 (replicate 20 0) =
          .ok (some (true, [0xea, 0x6c, 0x01, 0x4d, 0xc7, 0x2d, 0x6f, 0x8c, 0xcd, 0x1e, 0xd9, 0x2a, 0xce, 0x1d, 0x41,
            0xf0, 0xd8, 0xde, 0x89, 0x57])) := by
  refine ⟨by decide, by decide, by decide, ?_⟩
  obtain ⟨bound, h⟩ := pbkdf2_right (fun _ => true) sampleHmac (ascii "password") (ascii "salt") 2
    (replicate 20 0) (by decide) (by decide) (by decide) (by decide) (by decide) rfl rfl rfl
  refine ⟨bound, fun more hmore => ?_⟩
  rw [(h more hmore).1]
  decide

end MateKeyring.Egg
