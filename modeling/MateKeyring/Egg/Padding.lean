import MateKeyring.Egg.Buffer
import MateKeyring.Lib.CStrings

/-!
# The paddings of `egg-padding.c`

A message is padded to a multiple of a block: with zeros in front of it, with the block types 1 and 2 of
PKCS#1, or as PKCS#7 has it. The sizes are computed in a `gsize`, and memory can always be had.

The PKCS#1 functions round the length of the message and of the three octets that there are at least up to a
multiple of the block, and then assert that no more than a block was added. Where one or two octets are left
over by the last multiple it was more (`pkcs1Pad_faults`).
-/

set_option autoImplicit false

namespace MateKeyring.Egg

open Lib List

/-- A number as a `gsize`. -/
def gsize (n : Nat) : Nat := n % 2 ^ 64

theorem gsize_of_lt {n : Nat} (h : n < 2 ^ 64) : gsize n = n := Nat.mod_eq_of_lt h

/-- `padded[i]` -/
def octetAt (data : Bytes) (i : Nat) : Checked UInt8 :=
  match data[i]? with
  | some b => .ok b
  | none => .error .outOfBounds

/-! ## Random filler -/

/-- The bytes that are drawn after `used` others. -/
def draw (bytes : Nat → UInt8) (used n : Nat) : Bytes := (List.range n).map fun i => bytes (used + i)

/-- The zeros are replaced by the bytes that were drawn for them. -/
def replaceZeros : Bytes → Bytes → Bytes
  | [], _ => []
  | b :: data, rnd =>
    if b ≠ 0 then b :: replaceZeros data rnd
    else
      match rnd with
      -- there is a byte for every zero
      | [] => b :: replaceZeros data []
      | r :: rnd => r :: replaceZeros data rnd

/-- The loop of `fill_random_nonzero` that counts the zeros from the `guint` `i` on; `none` is that it is still
running. -/
def countZeros (data : Bytes) : Nat → Nat → Nat → Option Nat
  | 0, _, _ => none
  | fuel + 1, i, nZero =>
    if i < data.length then
      countZeros data fuel ((i + 1) % 2 ^ 32) (if data[i]? = some 0 then (nZero + 1) % 2 ^ 32 else nZero)
    else some nZero

/-- The loop of `fill_random_nonzero` that replaces the zeros; `none` is that it is still running. -/
def fillLoop (bytes : Nat → UInt8) : Nat → Nat → Nat → Bytes → Option Bytes
  | 0, _, _, _ => none
  | fuel + 1, used, nZero, data =>
    if nZero = 0 then some data
    else
      let data := replaceZeros data (draw bytes used nZero)
      fillLoop bytes fuel (used + nZero) (data.count 0) data

/-- `fill_random_nonzero`; `none` is that it is still running. The zeros are counted in one round more than there
are octets, or never. -/
def fillRandomNonzero (fuel : Nat) (bytes : Nat → UInt8) (n : Nat) : Option Bytes := do
  let data := draw bytes 0 n
  let nZero ← countZeros data (n + 1) 0 0
  fillLoop bytes fuel n nZero data

theorem countZeros_eq {data : Bytes} (hdata : data.length < 2 ^ 32) {left i nZero : Nat}
    (hleft : i + left = data.length) (hzero : nZero ≤ i) :
    countZeros data (left + 1) i nZero = some (nZero + (data.drop i).count 0) := by
  induction left generalizing i nZero with
  | zero =>
    rw [countZeros, if_neg (by omega), drop_eq_nil_of_le (by omega)]
    rfl
  | succ left ih =>
    have hlt : i < data.length := by omega
    rw [countZeros, if_pos hlt, Nat.mod_eq_of_lt (by omega : i + 1 < 2 ^ 32),
      Nat.mod_eq_of_lt (by omega : nZero + 1 < 2 ^ 32), drop_eq_getElem_cons hlt,
      getElem?_eq_getElem hlt, count_cons]
    by_cases hb : data[i] = 0
    · rw [if_pos (by rw [hb]), ih (by omega) (by omega), if_pos (by rw [hb]; rfl)]
      congr 1
      omega
    · rw [if_neg (by simpa using hb), ih (by omega) (by omega), if_neg (by simpa using hb)]
      rfl

/-- A `guint` never gets to `2^32`. -/
theorem countZeros_endless {data : Bytes} (hdata : 2 ^ 32 ≤ data.length) (fuel : Nat) {i : Nat} (hi : i < 2 ^ 32)
    (nZero : Nat) : countZeros data fuel i nZero = none := by
  induction fuel generalizing i nZero with
  | zero => rfl
  | succ fuel ih =>
    rw [countZeros, if_pos (by omega)]
    exact ih (Nat.mod_lt _ (by decide)) _

theorem length_draw (bytes : Nat → UInt8) (used n : Nat) : (draw bytes used n).length = n := by
  rw [draw, length_map, length_range]

/-- Random bytes, among which there are enough that are not zero. -/
structure RandomSource where
  bytes : Nat → UInt8
  rounds : Nat → Nat
  ends : ∀ n < 2 ^ 32, (fillRandomNonzero (rounds n) bytes n).isSome

/-- The zeros of what was drawn are counted. -/
theorem fillRandomNonzero_eq (fuel : Nat) (bytes : Nat → UInt8) {n : Nat} (hn : n < 2 ^ 32) :
    fillRandomNonzero fuel bytes n = fillLoop bytes fuel n ((draw bytes 0 n).count 0) (draw bytes 0 n) := by
  have hlength := length_draw bytes 0 n
  rw [fillRandomNonzero, countZeros_eq (by omega) (by omega) (Nat.le_refl 0), drop_zero,
    Nat.zero_add]
  rfl

/-- A source whose every byte is a one. -/
def onesSource : RandomSource where
  bytes := fun _ => 1
  rounds := fun _ => 1
  ends := by
    intro n hn
    have hnone : (draw (fun _ => (1 : UInt8)) 0 n).count 0 = 0 := by
      rw [count_eq_zero, draw, mem_map]
      rintro ⟨i, -, h⟩
      exact absurd h (by decide)
    rw [fillRandomNonzero_eq _ _ hn, fillLoop, if_pos hnone]
    rfl

/-- What `fill_random_nonzero` leaves. -/
def RandomSource.filler (random : RandomSource) (n : Nat) : Option Bytes :=
  fillRandomNonzero (random.rounds n) random.bytes n

theorem length_replaceZeros (data rnd : Bytes) : (replaceZeros data rnd).length = data.length := by
  induction data generalizing rnd with
  | nil => rfl
  | cons b data ih =>
    cases rnd with
    | nil =>
      rw [replaceZeros]
      split
      · rw [length_cons, length_cons, ih]
      · rw [length_cons, length_cons, ih]
    | cons r rnd =>
      rw [replaceZeros]
      split
      · rw [length_cons, length_cons, ih]
      · rw [length_cons, length_cons, ih]

theorem fillLoop_spec {bytes : Nat → UInt8} {fuel used : Nat} {data filler : Bytes}
    (h : fillLoop bytes fuel used (data.count 0) data = some filler) : filler.length = data.length ∧ 0 ∉ filler := by
  induction fuel generalizing used data with
  | zero => exact nomatch h
  | succ fuel ih =>
    rw [fillLoop] at h
    split at h
    · rename_i hnone
      cases h
      exact ⟨rfl, count_eq_zero.1 hnone⟩
    · obtain ⟨hlength, hzero⟩ := ih h
      exact ⟨hlength.trans (length_replaceZeros _ _), hzero⟩

/-- A filler of less than `2^32` octets is as long as was asked for, and has no zero. -/
theorem RandomSource.filler_spec (random : RandomSource) {n : Nat} (hn : n < 2 ^ 32) :
    ∃ filler, random.filler n = some filler ∧ filler.length = n ∧ 0 ∉ filler := by
  obtain ⟨filler, hfiller⟩ := Option.isSome_iff_exists.1 (random.ends n hn)
  obtain ⟨hlength, hzero⟩ := fillLoop_spec ((fillRandomNonzero_eq _ _ hn).symm.trans hfiller)
  exact ⟨filler, hfiller, hlength.trans (length_draw _ _ _), hzero⟩

/-- A longer one is never done. -/
theorem RandomSource.filler_isSome_iff (random : RandomSource) (n : Nat) : (random.filler n).isSome ↔ n < 2 ^ 32 := by
  constructor
  · intro hsome
    by_contra hn
    have hlength := length_draw random.bytes 0 n
    rw [filler, fillRandomNonzero, countZeros_endless (by omega) _ (by decide)] at hsome
    exact nomatch hsome
  · exact random.ends n

/-! ## Padding -/

/-- `egg_padding_zero_pad`; `none` is `FALSE`. -/
def eggPaddingZeroPad (block : Nat) (raw : Bytes) : Checked (Option Bytes) :=
  if block = 0 then .ok none
  else do
    let nPadded := gsize (raw.length + (block - 1)) / block * block
    cAssert (raw.length ≤ nPadded)
    let nPad := nPadded - raw.length
    cAssert (nPad < block)
    pure (some (replicate nPad 0 ++ raw))

/-- The size of a message that is padded with a PKCS#1 block type. -/
def pkcs1Size (block nRaw : Nat) : Nat := gsize (nRaw + 3 + (block - 1)) / block * block

/-- Padding with a PKCS#1 block type, where `fill` makes the filler unless it is never done. -/
def pkcs1Pad (type : UInt8) (fill : Nat → Option Bytes) (block : Nat) (raw : Bytes) :
    Checked (Option Bytes) :=
  if block = 0 then .ok none
  else if block ≤ 3 then .ok none
  else do
    let nPadded := pkcs1Size block raw.length
    cAssert (raw.length ≤ nPadded)
    let nPad := nPadded - raw.length
    cAssert (nPad ≤ block)
    cAssert (3 ≤ nPad)
    match fill (nPad - 3) with
    | none => .error .endless
    | some filler => pure (some (0x00 :: type :: filler ++ 0x00 :: raw))

/-- `egg_padding_pkcs1_pad_01`. -/
def eggPaddingPkcs1Pad01 (block : Nat) (raw : Bytes) : Checked (Option Bytes) :=
  pkcs1Pad 0x01 (fun n => some (replicate n 0xff)) block raw

/-- `egg_padding_pkcs1_pad_02`. -/
def eggPaddingPkcs1Pad02 (random : RandomSource) (block : Nat) (raw : Bytes) :
    Checked (Option Bytes) :=
  pkcs1Pad 0x02 random.filler block raw

/-- `egg_padding_pkcs7_pad`. -/
def eggPaddingPkcs7Pad (block : Nat) (raw : Bytes) : Checked (Option Bytes) :=
  if block = 0 then .ok none
  else if 256 ≤ block then .ok none
  else do
    let nPadded := gsize (raw.length + block) / block * block
    cAssert (raw.length < nPadded)
    let nPad := nPadded - raw.length
    cAssert (0 < nPad ∧ nPad ≤ block)
    pure (some (raw ++ replicate nPad (UInt8.ofNat nPad)))

/-! ## Unpadding -/

/-- `unpad_pkcs1`. -/
def unpadPkcs1 (bt : UInt8) (block : Nat) (padded : Bytes) : Checked (Option Bytes) :=
  if block ≠ 0 ∧ padded.length % block ≠ 0 then .ok none
  else do
    let first ← octetAt padded 0
    if first ≠ 0x00 then pure none
    else do
      let second ← octetAt padded 1
      if second ≠ bt then pure none
      -- the first zero byte after the header
      else pure ((strchr 0x00 (padded.drop 2)).map Prod.snd)

/-- `egg_padding_pkcs1_unpad_01`. -/
def eggPaddingPkcs1Unpad01 (block : Nat) (padded : Bytes) : Checked (Option Bytes) :=
  unpadPkcs1 0x01 block padded

/-- `egg_padding_pkcs1_unpad_02`. -/
def eggPaddingPkcs1Unpad02 (block : Nat) (padded : Bytes) : Checked (Option Bytes) :=
  unpadPkcs1 0x02 block padded

/-- The loop of `egg_padding_pkcs7_unpad` that looks at `left` bytes from `i` on. -/
def allOctets (pad : Bytes) (nPad : Nat) : Nat → Nat → Checked Bool
  | 0, _ => .ok true
  | left + 1, i => do
      let b ← octetAt pad i
      if b.toNat ≠ nPad then pure false else allOctets pad nPad left (i + 1)

/-- `egg_padding_pkcs7_unpad`. -/
def eggPaddingPkcs7Unpad (block : Nat) (padded : Bytes) : Checked (Option Bytes) :=
  if padded.length = 0 then .ok none
  else do
    let last ← octetAt padded (padded.length - 1)
    let nPad := last.toNat
    if nPad = 0 ∨ 256 < nPad then pure none
    else if padded.length < nPad then pure none
    else if block ≠ 0 ∧ block < nPad then pure none
    else do
      let same ← allOctets padded nPad nPad (padded.length - nPad)
      pure (if same then some (padded.take (padded.length - nPad)) else none)

/-! ## Sizes -/

/-- A length rounded up to a multiple of a block. -/
theorem roundUp_eq (n : Nat) {block : Nat} (hblock : 0 < block) :
    (n + (block - 1)) / block * block = n + if n % block = 0 then 0 else block - n % block := by
  have hdiv := Nat.div_add_mod n block
  have hmod := Nat.mod_lt n hblock
  generalize n / block = quotient at hdiv
  generalize n % block = rest at hdiv hmod
  subst hdiv
  split
  · have hsum : block * quotient + rest + (block - 1) = block * quotient + (block - 1) := by omega
    rw [hsum, Nat.mul_add_div hblock, Nat.div_eq_of_lt (by omega), Nat.add_zero, Nat.mul_comm]
    omega
  · have hsum : block * quotient + rest + (block - 1) = block * (quotient + 1) + (rest - 1) := by
      rw [Nat.mul_add, Nat.mul_one]
      omega
    rw [hsum, Nat.mul_add_div hblock, Nat.div_eq_of_lt (by omega), Nat.add_zero, Nat.mul_comm, Nat.mul_add,
      Nat.mul_one]
    omega

/-- The lengths that the PKCS#1 functions can pad: nothing wraps around, and the last multiple of the block
that is at most `n + 3` does not leave over one or two. -/
def PadFits (block n : Nat) : Prop :=
  n + 3 + (block - 1) < 2 ^ 64 ∧ ((n + 3) % block = 0 ∨ 3 ≤ (n + 3) % block)

instance (block n : Nat) : Decidable (PadFits block n) :=
  inferInstanceAs (Decidable (_ ∧ _))

section Pkcs1

variable {type : UInt8} {fill : Nat → Option Bytes} {filler : Bytes} {block : Nat} {raw : Bytes}

/-- The number of the filler bytes of a message of `n` bytes. -/
def fillerSize (block n : Nat) : Nat := if (n + 3) % block = 0 then 0 else block - (n + 3) % block

/-- A length that fits is filled up. -/
theorem pkcs1Pad_fill (hblock : 3 < block) (hfits : PadFits block raw.length) :
    pkcs1Pad type fill block raw = match fill (fillerSize block raw.length) with
      | none => .error .endless
      | some filler => .ok (some (0x00 :: type :: filler ++ 0x00 :: raw)) := by
  obtain ⟨hroom, hrest⟩ := hfits
  have hsize : pkcs1Size block raw.length = raw.length + 3 + fillerSize block raw.length := by
    rw [pkcs1Size, gsize_of_lt hroom]
    exact roundUp_eq _ (by omega)
  have hfiller : fillerSize block raw.length + 3 ≤ block := by
    rw [fillerSize]
    split
    · omega
    · omega
  rw [pkcs1Pad, if_neg (by omega), if_neg (by omega)]
  dsimp only
  rw [hsize, cAssert_of_true (by omega), ok_bind, cAssert_of_true (by omega), ok_bind,
    cAssert_of_true (by omega), ok_bind]
  have hcount : raw.length + 3 + fillerSize block raw.length - raw.length - 3 =
      fillerSize block raw.length := by omega
  rw [hcount]
  rfl

theorem pkcs1Pad_eq (hblock : 3 < block) (hfits : PadFits block raw.length)
    (hfill : fill (fillerSize block raw.length) = some filler) :
    pkcs1Pad type fill block raw = .ok (some (0x00 :: type :: filler ++ 0x00 :: raw)) := by
  rw [pkcs1Pad_fill hblock hfits, hfill]

/-- A length that wraps around is padded to less than it needs. -/
theorem pkcs1Size_of_wrap {n : Nat} (hwrap : ¬ n + 3 + (block - 1) < 2 ^ 64) :
    pkcs1Size block n < n + 3 := by
  have hsum : gsize (n + 3 + (block - 1)) < 2 ^ 64 := Nat.mod_lt _ (by decide)
  have hle := Nat.div_mul_le_self (gsize (n + 3 + (block - 1))) block
  rcases Nat.lt_or_ge block (2 ^ 64) with hblock | hblock
  · have hless : gsize (n + 3 + (block - 1)) ≤ n + 3 + (block - 1) - 2 ^ 64 := by
      rw [gsize, Nat.mod_eq_sub_mod (by omega)]
      exact Nat.mod_le _ _
    rw [pkcs1Size]
    omega
  · rw [pkcs1Size, Nat.div_eq_of_lt (by omega)]
    omega

/-- Any other length ends in an assertion that fails. -/
theorem pkcs1Pad_faults (hblock : 3 < block) (hfits : ¬ PadFits block raw.length) :
    pkcs1Pad type fill block raw = .error .assertion := by
  have hsize : ¬ (raw.length ≤ pkcs1Size block raw.length ∧
      pkcs1Size block raw.length - raw.length ≤ block ∧
      3 ≤ pkcs1Size block raw.length - raw.length) := by
    rintro ⟨-, hmost, hleast⟩
    by_cases hroom : raw.length + 3 + (block - 1) < 2 ^ 64
    · apply hfits
      refine ⟨hroom, ?_⟩
      have hup := roundUp_eq (raw.length + 3) (by omega : 0 < block)
      rw [pkcs1Size, gsize_of_lt hroom, hup] at hmost
      split at hmost
      · exact .inl ‹_›
      · have := Nat.mod_lt (raw.length + 3) (by omega : 0 < block)
        right
        omega
    · have := pkcs1Size_of_wrap hroom
      omega
  rw [pkcs1Pad, if_neg (by omega), if_neg (by omega)]
  dsimp only
  by_cases hfirst : raw.length ≤ pkcs1Size block raw.length
  · rw [cAssert_of_true hfirst, ok_bind]
    by_cases hmost : pkcs1Size block raw.length - raw.length ≤ block
    · have hleast : ¬ 3 ≤ pkcs1Size block raw.length - raw.length := fun h => hsize ⟨hfirst, hmost, h⟩
      rw [cAssert_of_true hmost, ok_bind, cAssert, if_neg hleast]
      rfl
    · rw [cAssert, if_neg hmost]
      rfl
  · rw [cAssert, if_neg hfirst]
    rfl

/-- How a message is padded is decided by its length. -/
theorem pkcs1Pad_some_iff (hblock : 3 < block) {padded : Bytes} :
    pkcs1Pad type fill block raw = .ok (some padded) ↔ PadFits block raw.length ∧
      ∃ filler, fill (fillerSize block raw.length) = some filler ∧ padded = 0x00 :: type :: filler ++ 0x00 :: raw := by
  by_cases hfits : PadFits block raw.length
  · rw [pkcs1Pad_fill hblock hfits]
    cases hfill : fill (fillerSize block raw.length) with
    | none =>
      constructor
      · exact fun h => nomatch h
      · rintro ⟨-, filler, h, -⟩
        exact nomatch h
    | some filler =>
      constructor
      · exact fun h => ⟨hfits, filler, rfl, (Option.some.inj (Except.ok.inj h)).symm⟩
      · rintro ⟨-, filler, h, rfl⟩
        cases h
        rfl
  · rw [pkcs1Pad_faults hblock hfits]
    exact ⟨fun h => (nomatch h), fun h => absurd h.1 hfits⟩

/-- What was padded has the size of the block times a number. -/
theorem length_pkcs1Padded (hblock : 3 < block) (hfill : filler.length = fillerSize block raw.length) :
    (0x00 :: type :: filler ++ 0x00 :: raw).length % block = 0 := by
  have hlength : (0x00 :: type :: filler ++ 0x00 :: raw).length = raw.length + 3 + fillerSize block raw.length := by
    rw [length_append, length_cons, length_cons, length_cons, hfill]
    omega
  have hup := roundUp_eq (raw.length + 3) (by omega : 0 < block)
  rw [hlength, fillerSize, ← hup]
  exact Nat.mul_mod_left _ _

end Pkcs1

end MateKeyring.Egg
