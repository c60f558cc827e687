import Mathlib.Tactic.IntervalCases
import Mathlib.Tactic.Ring
import MateKeyring.Lib.BigEndian
import MateKeyring.Egg.Buffer

/-!
# Headers of ASN.1 elements

The lowest layer of `egg-asn1x.c`: the class, the tag and the length that stand in front of every element.
A pointer into the input is the list of the bytes that can be read from there on, and the pointer to the end
that goes with it is a number of bytes. Reading behind the input is a `Fault`. The sizes are `gint` in the
source, so that a difference of two pointers is taken modulo `2 ^ 32` (`gint`).

`decodeClsTagLen_header` says that a header that `anodeEncodeClsTagLen` writes is read back.
-/

set_option autoImplicit false

namespace MateKeyring.Asn1x

open Lib BigEndian List

/-- The value of a number as a `gint`. -/
def gint (x : Int) : Int := Int.bmod x (2 ^ 32)

theorem gint_of_lt {n : Nat} (h : n < 2 ^ 31) : gint n = n := by
  rw [gint, Int.bmod_def]
  omega

/-- `ASN1_CLASS_UNIVERSAL` -/
abbrev asn1ClassUniversal : UInt8 := 0x00
/-- `ASN1_CLASS_STRUCTURED` -/
abbrev asn1ClassStructured : UInt8 := 0x20
/-- `ASN1_CLASS_CONTEXT_SPECIFIC` -/
abbrev asn1ClassContextSpecific : UInt8 := 0x80

/-! ## Reading headers -/

/-- `data[i]`. -/
def peek (data : Bytes) (i : Nat) : Checked UInt8 :=
  match data[i]? with
  | some b => .ok b
  | none => .error .outOfBounds

/-- The long form of a tag, `rest` being the bytes from `data + punt` on: the tag and the number of its
bytes. The loop goes on while `punt <= n_data`, so that it looks at one byte more than there are. -/
def longTag (nData : Int) : Bytes → Nat → Int → Checked (Option (Int × Nat))
  | [], punt, _ => if (punt : Int) ≤ nData then .error .outOfBounds else .ok none
  | b :: rest, punt, ris =>
    if (punt : Int) ≤ nData then
      let next := gint (ris * 128 + (b &&& 0x7f).toNat)
      if b &&& 128 ≠ 0 then
        if next < ris then .ok none else longTag nData rest (punt + 1) next
      else if nData ≤ punt then .ok none
      else if next < ris then .ok none
      else .ok (some (next, punt + 1))
    else .ok none

/-- `anode_decode_cls_tag`: the class, the tag and the number of bytes. -/
def anodeDecodeClsTag (data : Bytes) (n : Nat) : Checked (Option (UInt8 × Nat × Nat)) :=
  if gint n < 2 then .ok none
  else do
    let b ← peek data 0
    if b &&& 0x1f ≠ 0x1f then pure (some (b &&& 0xe0, (b &&& 0x1f).toNat, 1))
    else
      let long ← longTag (gint n) (data.drop 1) 1 0
      pure (long.map fun r => (b &&& 0xe0, r.1.toNat, r.2))

/-- The long form of a length: the length and the number of its bytes. When the bytes end early, what there
is counts. -/
def longLength (nData : Int) (k : Nat) : Bytes → Nat → Int → Checked (Int × Nat)
  | [], punt, ans =>
    if punt ≤ k ∧ (punt : Int) < nData then .error .outOfBounds else .ok (ans, punt)
  | b :: rest, punt, ans =>
    if punt ≤ k ∧ (punt : Int) < nData then
      let next := gint (ans * 256 + b.toNat)
      if next < ans then .ok (-2, 0) else longLength nData k rest (punt + 1) next
    else .ok (ans, punt)

/-- `anode_decode_length`: the length, which is `-1` where it is indefinite, and the number of bytes. -/
def anodeDecodeLength (data : Bytes) (n : Nat) : Checked (Int × Nat) :=
  if gint n = 0 then .ok (0, 0)
  else do
    let b ← peek data 0
    if b &&& 128 = 0 then pure (b.toNat, 1)
    else if b &&& 0x7f = 0 then pure (-1, 1)
    else longLength (gint n) (b &&& 0x7f).toNat (data.drop 1) 1 0

/-- What a header says. -/
structure Header where
  cls : UInt8
  tag : Nat
  off : Nat
  len : Int
  deriving DecidableEq, Repr

/-- `anode_decode_cls_tag_len`. -/
def anodeDecodeClsTagLen (data : Bytes) (n : Nat) : Checked (Option Header) := do
  match ← anodeDecodeClsTag data n with
  | none => pure none
  | some (cls, tag, cb1) =>
    cAssert (cb1 ≤ n)
    let len ← anodeDecodeLength (data.drop cb1) (n - cb1)
    if len.1 < -1 then pure none
    else if 0 ≤ len.1 ∧ ((cb1 + len.2 : Nat) : Int) + len.1 > n then pure none
    else pure (some ⟨cls, tag, cb1 + len.2, len.1⟩)

/-- `anode_check_indefinite_end`. -/
def anodeCheckIndefiniteEnd (h : Header) : Bool :=
  h.cls == asn1ClassUniversal && h.tag == 0 && h.len == 0

/-! ## Writing headers -/

/-- The loop of `anode_encode_length`, the least significant byte first. -/
def lengthDigits : Nat → Nat → Bytes
  | 0, _ => []
  | fuel + 1, len => if len = 0 then [] else UInt8.ofNat (len % 256) :: lengthDigits fuel (len / 256)

/-- `anode_encode_length`; a `gulong` has eight bytes. -/
def anodeEncodeLength (len : Nat) : Bytes :=
  if len < 128 then [UInt8.ofNat len]
  else UInt8.ofNat (128 + (lengthDigits 8 len).length % 128) :: (lengthDigits 8 len).reverse

/-- The loop of `anode_encode_cls_tag_len` for a long tag, the least significant group first. -/
def tagDigits : Nat → Nat → Bytes
  | 0, _ => []
  | fuel + 1, tag => if tag = 0 then [] else UInt8.ofNat (tag % 128) :: tagDigits fuel (tag / 128)

/-- The groups of a long tag: all but the last have their high bit set. -/
def markDigits : Bytes → Bytes
  | [] => []
  | [b] => [b]
  | b :: rest => (b + 128) :: markDigits rest

/-- `anode_encode_cls_tag_len`. -/
def anodeEncodeClsTagLen (cls : UInt8) (tag len : Nat) : Bytes :=
  (if tag < 31 then [(cls &&& 0xe0) + UInt8.ofNat (tag % 32)]
    else ((cls &&& 0xe0) + 31) :: markDigits (tagDigits 10 tag).reverse) ++ anodeEncodeLength len

/-! ## A length that was written is read -/

theorem decode_reverse_lengthDigits (fuel : Nat) {len : Nat} (h : len < 256 ^ fuel) :
    decode (lengthDigits fuel len).reverse = len := by
  induction fuel generalizing len with
  | zero =>
    have : len = 0 := by simpa using h
    subst this
    rfl
  | succ fuel ih =>
    rw [lengthDigits]
    split
    · rename_i hzero
      rw [hzero]
      rfl
    · have hlt : len / 256 < 256 ^ fuel := by
        rw [Nat.div_lt_iff_lt_mul (by decide)]
        rw [Nat.pow_succ] at h
        omega
      have hbyte : (UInt8.ofNat (len % 256)).toNat = len % 256 := by
        simp
      rw [reverse_cons, decode_append, ih hlt]
      simp only [decode, length_singleton, length_nil, hbyte]
      omega

theorem length_lengthDigits (fuel len : Nat) : (lengthDigits fuel len).length ≤ fuel := by
  induction fuel generalizing len with
  | zero => exact Nat.le_refl _
  | succ fuel ih =>
    rw [lengthDigits]
    split
    · exact Nat.zero_le _
    · exact Nat.succ_le_succ (ih _)

theorem lengthDigits_ne_nil {fuel len : Nat} (hfuel : 0 < fuel) (hlen : 0 < len) :
    lengthDigits fuel len ≠ [] := by
  cases fuel with
  | zero => omega
  | succ fuel =>
    rw [lengthDigits, if_neg (by omega)]
    exact cons_ne_nil _ _

/-- The bytes of a long length are read up to the last. -/
theorem longLength_eq {nData : Int} {k punt : Nat} (bytes rest : Bytes) (ans : Nat)
    (hk : punt + bytes.length = k + 1) (hn : (k : Int) < nData)
    (hsmall : decode bytes + ans * 256 ^ bytes.length < 2 ^ 31) :
    longLength nData k (bytes ++ rest) punt ans =
      .ok ((decode bytes + ans * 256 ^ bytes.length : Nat), k + 1) := by
  induction bytes generalizing punt ans with
  | nil =>
    have hpunt : punt = k + 1 := by simpa using hk
    subst hpunt
    have hstop : ¬ (k + 1 ≤ k ∧ ((k + 1 : Nat) : Int) < nData) := by omega
    cases rest with
    | nil => simp only [append_nil, longLength, if_neg hstop, decode, length_nil,
        Nat.pow_zero, Nat.mul_one, Nat.zero_add]
    | cons b rest => simp only [nil_append, longLength, if_neg hstop, decode,
        length_nil, Nat.pow_zero, Nat.mul_one, Nat.zero_add]
  | cons b bytes ih =>
    have hlen : punt + 1 + bytes.length = k + 1 := by
      rw [length_cons] at hk
      omega
    have hvalue : decode (b :: bytes) + ans * 256 ^ (b :: bytes).length =
        decode bytes + (ans * 256 + b.toNat) * 256 ^ bytes.length := by
      rw [decode, length_cons, Nat.pow_succ]
      ring
    rw [hvalue] at hsmall ⊢
    have hpos : 1 ≤ 256 ^ bytes.length := Nat.one_le_pow _ _ (by decide)
    have hans : ans * 256 + b.toNat < 2 ^ 31 := by
      have hmul : (ans * 256 + b.toNat) * 1 ≤ (ans * 256 + b.toNat) * 256 ^ bytes.length :=
        Nat.mul_le_mul_left _ hpos
      omega
    have hgint : gint ((ans : Int) * 256 + (b.toNat : Int)) = ((ans * 256 + b.toNat : Nat) : Int) := by
      have hcast : (ans : Int) * 256 + (b.toNat : Int) = ((ans * 256 + b.toNat : Nat) : Int) := by
        push_cast
        ring
      rw [hcast, gint_of_lt hans]
    rw [cons_append, longLength, if_pos ⟨by omega, by omega⟩]
    have hgrows : ¬ ((ans * 256 + b.toNat : Nat) : Int) < (ans : Int) := by
      have hmul : ans ≤ ans * 256 := Nat.le_mul_of_pos_right ans (by decide)
      exact Int.not_lt.2 (Int.ofNat_le.2 (hmul.trans (Nat.le_add_right _ _)))
    rw [hgint, if_neg hgrows]
    exact ih (ans * 256 + b.toNat) hlen hsmall

/-- The length of an element below two gigabytes. -/
theorem decodeLength_encode (len n : Nat) (rest : Bytes) (hlen : len < 2 ^ 31)
    (hn : (anodeEncodeLength len).length ≤ n) (hn' : n < 2 ^ 31) :
    anodeDecodeLength (anodeEncodeLength len ++ rest) n = .ok (len, (anodeEncodeLength len).length) := by
  rw [anodeEncodeLength] at hn ⊢
  split at hn
  · rename_i hshort
    rw [if_pos hshort]
    have hzero : gint n ≠ 0 := by
      rw [gint_of_lt hn']
      simp only [length_singleton] at hn
      omega
    have hbyte : (UInt8.ofNat len).toNat = len := by
      rw [UInt8.toNat_ofNat']
      omega
    have hlow : UInt8.ofNat len &&& 128 = 0 := by
      have : ∀ m, m < 128 → UInt8.ofNat m &&& 128 = 0 := by decide
      exact this len hshort
    rw [anodeDecodeLength, if_neg hzero]
    simp [peek, hlow, hbyte]
  · rename_i hlong
    rw [if_neg hlong]
    have hdigits := length_lengthDigits 8 len
    have hnonempty : 0 < (lengthDigits 8 len).length :=
      length_pos_iff.2 (lengthDigits_ne_nil (by decide) (by omega))
    rw [length_cons, length_reverse] at hn
    generalize hk : (lengthDigits 8 len).length = k at hn hdigits hnonempty
    have hcode : ∀ m, 0 < m → m ≤ 8 → UInt8.ofNat (128 + m % 128) &&& 128 ≠ 0 ∧
        UInt8.ofNat (128 + m % 128) &&& 0x7f ≠ 0 ∧ (UInt8.ofNat (128 + m % 128) &&& 0x7f).toNat = m := by
      intro m hpos hle
      interval_cases m <;> decide
    obtain ⟨hhigh, hdefinite, hcount⟩ := hcode k hnonempty hdigits
    have hzero : gint n ≠ 0 := by
      rw [gint_of_lt hn']
      omega
    have hdecode : decode (lengthDigits 8 len).reverse = len :=
      decode_reverse_lengthDigits 8 (by omega)
    have hbytes : 1 + (lengthDigits 8 len).reverse.length = k + 1 := by
      rw [length_reverse, hk, Nat.add_comm]
    have hroom : (k : Int) < gint n := by
      rw [gint_of_lt hn']
      omega
    have hloop := longLength_eq (lengthDigits 8 len).reverse rest 0 hbytes hroom (by rw [hdecode]; omega)
    rw [hdecode, Nat.zero_mul, Nat.add_zero] at hloop
    rw [anodeDecodeLength, if_neg hzero]
    simp only [peek, cons_append, getElem?_cons_zero, ok_bind, drop_succ_cons, drop_zero,
      if_neg hhigh, if_neg hdefinite, hcount, length_cons, length_reverse, hk]
    exact hloop

/-! ## A header that was written is read -/

/-- The class and the tag stand in different bits of the first byte. -/
theorem headerByte (cls : UInt8) {tag : Nat} (htag : tag < 31) :
    ((cls &&& 0xe0) + UInt8.ofNat (tag % 32)) &&& 0xe0 = cls &&& 0xe0 ∧
      (((cls &&& 0xe0) + UInt8.ofNat (tag % 32)) &&& 0x1f).toNat = tag := by
  have hcls : ∀ c : Fin 256, ∃ k : Fin 8, UInt8.ofFin c &&& 0xe0 = UInt8.ofNat (32 * k.val) := by
    decide +kernel
  have hall : ∀ k : Fin 8, ∀ t : Fin 31,
      (UInt8.ofNat (32 * k.val) + UInt8.ofNat (t.val % 32)) &&& 0xe0 = UInt8.ofNat (32 * k.val) ∧
        ((UInt8.ofNat (32 * k.val) + UInt8.ofNat (t.val % 32)) &&& 0x1f).toNat = t.val := by
    decide +kernel
  obtain ⟨k, hk⟩ := hcls cls.toFin
  rw [show cls &&& 0xe0 = UInt8.ofNat (32 * k.val) from hk]
  exact hall k ⟨tag, htag⟩

/-- An element with this class, tag and content. -/
def element (cls : UInt8) (tag : Nat) (content : Bytes) : Bytes :=
  anodeEncodeClsTagLen cls tag content.length ++ content

theorem length_anodeEncodeLength_pos (len : Nat) : 0 < (anodeEncodeLength len).length := by
  rw [anodeEncodeLength]
  split
  · exact Nat.zero_lt_one
  · exact Nat.succ_pos _

theorem length_anodeEncodeClsTagLen (cls : UInt8) {tag : Nat} (htag : tag < 31) (len : Nat) :
    (anodeEncodeClsTagLen cls tag len).length = 1 + (anodeEncodeLength len).length := by
  rw [anodeEncodeClsTagLen, if_pos htag, length_append, length_singleton]

theorem drop_one_header (cls : UInt8) {tag : Nat} (htag : tag < 31) (len : Nat) (rest : Bytes) :
    (anodeEncodeClsTagLen cls tag len ++ rest).drop 1 = anodeEncodeLength len ++ rest := by
  rw [anodeEncodeClsTagLen, if_pos htag]
  rfl

/-- The class and the tag of an element are read. -/
theorem decodeClsTag_header (cls : UInt8) {tag n : Nat} (len : Nat) (rest : Bytes) (htag : tag < 31)
    (hn : 2 ≤ n) (hn' : n < 2 ^ 31) :
    anodeDecodeClsTag (anodeEncodeClsTagLen cls tag len ++ rest) n = .ok (some (cls &&& 0xe0, tag, 1)) := by
  obtain ⟨hcls, hlow⟩ := headerByte cls htag
  have hfull : (((cls &&& 0xe0) + UInt8.ofNat (tag % 32)) &&& 0x1f) ≠ 0x1f := by
    intro h
    rw [h] at hlow
    have : (0x1f : UInt8).toNat = 31 := rfl
    omega
  have hsmall : ¬ gint n < 2 := by
    rw [gint_of_lt hn']
    omega
  rw [anodeEncodeClsTagLen, if_pos htag, anodeDecodeClsTag, if_neg hsmall]
  simp only [peek, cons_append, getElem?_cons_zero, ok_bind, ne_eq, hfull, not_false_eq_true,
    if_true, hcls, hlow, pure_eq_ok]

/-- The header of an element that has room is read. -/
theorem decodeClsTagLen_header (cls : UInt8) {tag len n : Nat} (rest : Bytes) (htag : tag < 31)
    (hn : (anodeEncodeClsTagLen cls tag len).length + len ≤ n) (hn' : n < 2 ^ 31) :
    anodeDecodeClsTagLen (anodeEncodeClsTagLen cls tag len ++ rest) n =
      .ok (some ⟨cls &&& 0xe0, tag, (anodeEncodeClsTagLen cls tag len).length, len⟩) := by
  have hpos := length_anodeEncodeLength_pos len
  rw [length_anodeEncodeClsTagLen cls htag] at hn ⊢
  have hlen := decodeLength_encode len (n - 1) rest (by omega) (by omega) (by omega)
  have hfits : ¬ (0 ≤ (len : Int) ∧ ((1 + (anodeEncodeLength len).length : Nat) : Int) + (len : Int) > n) := by
    omega
  rw [anodeDecodeClsTagLen, decodeClsTag_header cls len rest htag (by omega) hn', ok_bind]
  dsimp only
  rw [cAssert_of_true (by omega), ok_bind, drop_one_header cls htag, hlen, ok_bind]
  rw [if_neg (by omega), if_neg hfits]
  rfl

end MateKeyring.Asn1x
