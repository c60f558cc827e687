import MateKeyring.Lib.CStrings

/-!
# The hex codec of `egg-hex.c`

`egg_hex_encode_full` prints each byte as two digits, with a delimiter between groups of bytes;
`egg_hex_decode_full` reads such text back. The text is read one group at a time: the delimiter that
must precede every group but the first, then the digits of the group.
-/

set_option autoImplicit false

namespace MateKeyring.Egg

open Lib List

/-- `HEXC_UPPER`. -/
def hexcUpper : Bytes := ascii "0123456789ABCDEF"

/-- `HEXC_LOWER`. -/
def hexcLower : Bytes := ascii "0123456789abcdef"

/-- The two digits of a byte. -/
def hexByte (hexc : Bytes) (b : UInt8) : Bytes :=
  [hexc.getD (b.toNat / 16) 0, hexc.getD (b.toNat % 16) 0]

/-- The loop of `egg_hex_encode_full`, after `bytes` bytes. -/
def hexEncodeLoop (hexc : Bytes) (delim : UInt8) (group : Nat) : Nat → Bytes → Bytes
  | _, [] => []
  | bytes, b :: data =>
    (if group ≠ 0 ∧ bytes ≠ 0 ∧ bytes % group = 0 then [delim] else []) ++ hexByte hexc b ++
      hexEncodeLoop hexc delim group (bytes + 1) data

/-- `egg_hex_encode_full`. -/
def eggHexEncodeFull (data : Bytes) (upperCase : Bool) (delim : UInt8) (group : Nat) : Bytes :=
  hexEncodeLoop (if upperCase then hexcUpper else hexcLower) delim group 0 data

/-- `g_ascii_toupper`. -/
def gAsciiToupper (c : UInt8) : UInt8 := if inRange 0x61 0x7a c then c - 0x20 else c

/-- `strchr (HEXC_UPPER, g_ascii_toupper (c)) - HEXC_UPPER`; the terminator is found at 16. -/
def hexPos (c : UInt8) : Option Nat :=
  if c = 0 then some 16 else hexcUpper.findIdx? (· == gAsciiToupper c)

/-- What the digits of one group leave: the bytes so far and the rest of the text. -/
structure HexGroup where
  decoded : Bytes
  rest : Bytes
  deriving DecidableEq, Repr

/-- The inner loop of `egg_hex_decode_full`: `half` is the upper half of a byte that is begun and
`part` the number of bytes of this group. Text that is not hex, or ends inside a byte, gives
nothing. -/
def hexDecodeGroup (group : Nat) : Bytes → Option Nat → Nat → Bytes → Option HexGroup
  | [], none, _, decoded => some ⟨decoded, []⟩
  | [], some _, _, _ => none
  | c :: data, half, part, decoded =>
    if group ≤ part then some ⟨decoded, c :: data⟩
    else
      match hexPos c, half with
      | none, _ => none
      | some j, none => hexDecodeGroup group data (some (j % 16)) part decoded
      | some j, some h =>
        hexDecodeGroup group data none (part + 1) (decoded ++ [UInt8.ofNat (h * 16 + j % 16)])

/-- The outer loop of `egg_hex_decode_full`; every round takes a character, so that `fuel` need not be
more than the length of the text. -/
def hexDecodeLoop (delim : UInt8) (group : Nat) : Nat → Bytes → Bytes → Option Bytes
  | 0, _, decoded => some decoded
  | _ + 1, [], decoded => some decoded
  | fuel + 1, c :: data, decoded =>
    if decoded ≠ [] ∧ delim ≠ 0 ∧ c ≠ delim then none
    else
      let text := if decoded ≠ [] ∧ delim ≠ 0 then data else c :: data
      match hexDecodeGroup group text none 0 decoded with
      | none => none
      | some g => hexDecodeLoop delim group fuel g.rest g.decoded

/-- The bytes of a hexadecimal text with `group ≥ 1`. -/
def hexDecoded (data : Bytes) (delim : UInt8) (group : Nat) : Option Bytes :=
  hexDecodeLoop delim group data.length data []

/-- `egg_hex_decode` of a string. -/
def eggHexDecode (data : Bytes) : Option Bytes := hexDecoded data 0 1

theorem length_hexEncodeLoop (hexc : Bytes) (delim : UInt8) (data : Bytes) (bytes : Nat) :
    (hexEncodeLoop hexc delim 0 bytes data).length = 2 * data.length := by
  induction data generalizing bytes with
  | nil => rfl
  | cons b data ih =>
    have hnil : ¬ ((0 : Nat) ≠ 0 ∧ bytes ≠ 0 ∧ bytes % 0 = 0) := by simp
    rw [hexEncodeLoop, if_neg hnil, nil_append, length_append, ih, length_cons]
    simp only [hexByte, length_cons, length_nil]
    omega

/-- The digits of either table are printable ASCII. -/
theorem hexc_getD_ascii (upperCase : Bool) {n : Nat} (h : n < 16) :
    inRange 0x30 0x66 ((if upperCase then hexcUpper else hexcLower).getD n 0) = true := by
  have : ∀ n < 16, inRange 0x30 0x66 (hexcUpper.getD n 0) = true ∧
      inRange 0x30 0x66 (hexcLower.getD n 0) = true := by decide
  cases upperCase
  · exact (this n h).2
  · exact (this n h).1

theorem mem_eggHexEncodeFull {data : Bytes} {upperCase : Bool} {delim c : UInt8}
    (h : c ∈ eggHexEncodeFull data upperCase delim 0) : inRange 0x30 0x66 c = true := by
  have key : ∀ (data : Bytes) (bytes : Nat),
      c ∈ hexEncodeLoop (if upperCase then hexcUpper else hexcLower) delim 0 bytes data →
        inRange 0x30 0x66 c = true := by
    intro data
    induction data with
    | nil => intro bytes hc; simp [hexEncodeLoop] at hc
    | cons b data ih =>
      intro bytes hc
      have hb : b.toNat < 256 := b.toNat_lt
      rw [hexEncodeLoop] at hc
      simp only [ne_eq, not_true_eq_false, false_and, if_false, nil_append,
        mem_append, hexByte, mem_cons, not_mem_nil, or_false] at hc
      rcases hc with (rfl | rfl) | hc
      · exact hexc_getD_ascii upperCase (by omega)
      · exact hexc_getD_ascii upperCase (by omega)
      · exact ih _ hc
  exact key data 0 h

/-- Hex is text: ASCII without a null character. -/
theorem utf8Validate_eggHexEncodeFull (data : Bytes) (upperCase : Bool) (delim : UInt8) :
    utf8Validate (eggHexEncodeFull data upperCase delim 0) = true := by
  apply utf8Validate_of_ascii
  intro c hc
  have h := mem_eggHexEncodeFull hc
  simp only [inRange, Bool.and_eq_true, decide_eq_true_eq, UInt8.le_iff_toNat_le] at h ⊢
  refine ⟨Nat.le_trans (by decide) h.1, Nat.le_trans h.2 (by decide)⟩

theorem zero_not_mem_eggHexEncodeFull (data : Bytes) (upperCase : Bool) (delim : UInt8) :
    (0 : UInt8) ∉ eggHexEncodeFull data upperCase delim 0 := by
  intro h
  have := mem_eggHexEncodeFull h
  simp [inRange] at this

/-! ## Bytes with a delimiter between them -/

theorem hexPos_hexcLower {n : Nat} (h : n < 16) : hexPos (hexcLower.getD n 0) = some n := by
  have hall : ∀ n < 16, hexPos (hexcLower.getD n 0) = some n := by decide
  exact hall n h

/-- A group of one byte ends after its two digits. -/
theorem hexDecodeGroup_byte (b : UInt8) (rest decoded : Bytes) :
    hexDecodeGroup 1 (hexByte hexcLower b ++ rest) none 0 decoded = some ⟨decoded ++ [b], rest⟩ := by
  have hb := b.toNat_lt
  have hhi := hexPos_hexcLower (by omega : b.toNat / 16 < 16)
  have hlo := hexPos_hexcLower (by omega : b.toNat % 16 < 16)
  have hvalue : UInt8.ofNat (b.toNat / 16 % 16 * 16 + b.toNat % 16 % 16) = b := by
    rw [Nat.mod_eq_of_lt (by omega : b.toNat / 16 < 16), Nat.mod_mod, Nat.mul_comm, Nat.div_add_mod,
      UInt8.ofNat_toNat]
  have hfirst : ¬ 1 ≤ 0 := by omega
  rw [hexByte, cons_append, cons_append, nil_append, hexDecodeGroup.eq_def]
  dsimp only
  rw [if_neg hfirst, hhi]
  dsimp only
  rw [hexDecodeGroup.eq_def]
  dsimp only
  rw [if_neg hfirst, hlo]
  dsimp only
  rw [hvalue]
  cases rest with
  | nil => rfl
  | cons c rest => exact if_pos le_rfl

/-- The bytes after the first one: each has the delimiter before it. -/
theorem hexDecodeLoop_encode {delim : UInt8} (hdelim : delim ≠ 0) (data : Bytes)
    {decoded : Bytes} (hdecoded : decoded ≠ []) (bytes fuel : Nat) (hfuel : data.length ≤ fuel) :
    hexDecodeLoop delim 1 fuel (hexEncodeLoop hexcLower delim 1 (bytes + 1) data) decoded =
      some (decoded ++ data) := by
  induction data generalizing decoded bytes fuel with
  | nil =>
    rw [hexEncodeLoop, append_nil]
    cases fuel <;> rfl
  | cons b data ih =>
    rw [length_cons] at hfuel
    obtain ⟨fuel, rfl⟩ := Nat.exists_eq_add_one_of_ne_zero (by omega : fuel ≠ 0)
    have hgroup : (1 : Nat) ≠ 0 ∧ bytes + 1 ≠ 0 ∧ (bytes + 1) % 1 = 0 := ⟨by omega, by omega, by omega⟩
    rw [hexEncodeLoop, if_pos hgroup, append_assoc, singleton_append, hexDecodeLoop,
      if_neg fun hand => hand.2.2 rfl]
    dsimp only
    rw [if_pos ⟨hdecoded, hdelim⟩, hexDecodeGroup_byte]
    dsimp only
    rw [ih (append_ne_nil_of_left_ne_nil hdecoded _) (bytes + 1) fuel (by omega),
      append_assoc, singleton_append]

/-- Lower case digits with a delimiter after each byte are read back. -/
theorem hexDecoded_encode {delim : UInt8} (hdelim : delim ≠ 0) (data : Bytes) :
    hexDecoded (eggHexEncodeFull data false delim 1) delim 1 = some data := by
  unfold hexDecoded eggHexEncodeFull
  rw [if_neg Bool.false_ne_true]
  cases data with
  | nil => rfl
  | cons b data =>
    have hgroup : ¬ ((1 : Nat) ≠ 0 ∧ 0 ≠ 0 ∧ 0 % 1 = 0) := fun hand => hand.2.1 rfl
    have hfuel : data.length ≤ (hexcLower.getD (b.toNat % 16) 0 ::
        hexEncodeLoop hexcLower delim 1 (0 + 1) data).length := by
      have hlength : ∀ (data : Bytes) (bytes : Nat),
          data.length ≤ (hexEncodeLoop hexcLower delim 1 bytes data).length := by
        intro data
        induction data with
        | nil => exact fun _ => Nat.le_refl 0
        | cons c data ih =>
          intro bytes
          have hle := ih (bytes + 1)
          rw [hexEncodeLoop, length_append, length_append, hexByte]
          simp only [length_cons, length_nil]
          omega
      exact (hlength data _).trans (Nat.le_succ _)
    rw [hexEncodeLoop, if_neg hgroup, nil_append]
    have hshape : hexByte hexcLower b ++ hexEncodeLoop hexcLower delim 1 (0 + 1) data =
        hexcLower.getD (b.toNat / 16) 0 :: hexcLower.getD (b.toNat % 16) 0 ::
          hexEncodeLoop hexcLower delim 1 (0 + 1) data := rfl
    rw [hshape, length_cons, hexDecodeLoop, if_neg fun hand => hand.1 rfl, ← hshape]
    dsimp only
    rw [if_neg fun hand => hand.1 rfl, hexDecodeGroup_byte]
    dsimp only
    rw [nil_append, hexDecodeLoop_encode hdelim data (cons_ne_nil b []) 0 _ hfuel]
    rfl

/-- The delimiter and the digits are all there is. -/
theorem mem_hexEncode_delim {data : Bytes} {delim c : UInt8}
    (h : c ∈ eggHexEncodeFull data false delim 1) : c = delim ∨ isXdigit c = true := by
  have hdigit : ∀ n < 16, isXdigit (hexcLower.getD n 0) = true := by decide
  unfold eggHexEncodeFull at h
  rw [if_neg Bool.false_ne_true] at h
  generalize 0 = bytes at h
  induction data generalizing bytes with
  | nil => exact absurd h not_mem_nil
  | cons b data ih =>
    have hb := b.toNat_lt
    rw [hexEncodeLoop, mem_append, mem_append] at h
    rcases h with (h | h) | h
    · split at h
      · exact .inl (mem_singleton.1 h)
      · exact absurd h not_mem_nil
    · right
      rw [hexByte] at h
      rcases mem_cons.1 h with rfl | h
      · exact hdigit _ (by omega)
      · rw [mem_singleton.1 h]
        exact hdigit _ (by omega)
    · exact ih (bytes + 1) h

end MateKeyring.Egg
