import Mathlib.Algebra.Group.Nat.Defs
import Mathlib.Data.List.Basic
import MateKeyring.Lib.Bytes

/-!
# Base64 as GLib reads and writes it

The encoder takes three bytes to four characters and fills the last group with `=`. The decoder reads
characters one by one; what is neither in the alphabet nor `=` it skips, so that text may be broken
into lines.
-/

set_option autoImplicit false

namespace MateKeyring.Lib.Base64

open List

/-- `base64_alphabet`. -/
def alphabet (i : Nat) : UInt8 :=
  if i < 26 then UInt8.ofNat (0x41 + i)
  else if i < 52 then UInt8.ofNat (0x61 + (i - 26))
  else if i < 62 then UInt8.ofNat (0x30 + (i - 52))
  else if i = 62 then 0x2b
  else 0x2f

/-- `mime_base64_rank`: the place in the alphabet, 0 for `=`, and nothing for other characters. -/
def rank (c : UInt8) : Option Nat :=
  let n := c.toNat
  if 0x41 ≤ n ∧ n ≤ 0x5a then some (n - 0x41)
  else if 0x61 ≤ n ∧ n ≤ 0x7a then some (n - 0x61 + 26)
  else if 0x30 ≤ n ∧ n ≤ 0x39 then some (n - 0x30 + 52)
  else if n = 0x2b then some 62
  else if n = 0x2f then some 63
  else if n = 0x3d then some 0
  else none

/-- `=`. -/
abbrev pad : UInt8 := 0x3d

/-- The four characters of three bytes. -/
def group (a b c : Nat) : Bytes :=
  [alphabet (a / 4), alphabet (a % 4 * 16 + b / 16), alphabet (b % 16 * 4 + c / 64), alphabet (c % 64)]

/-- `g_base64_encode_step` of all the bytes, and `g_base64_encode_close` of the one or two that are
left. -/
def encode : Bytes → Bytes
  | a :: b :: c :: s => group a.toNat b.toNat c.toNat ++ encode s
  | [a, b] => (group a.toNat b.toNat 0).take 3 ++ [pad]
  | [a] => (group a.toNat 0 0).take 2 ++ [pad, pad]
  | [] => []

/-- The state of the decoder: the bits that were read, how many characters of a group, and the last
two of them. -/
structure Decoder where
  v : Nat
  i : Nat
  last0 : UInt8
  last1 : UInt8

def Decoder.start : Decoder := { v := 0, i := 0, last0 := 0, last1 := 0 }

/-- The bytes of a group of four characters. -/
def Decoder.flush (d : Decoder) : Bytes :=
  UInt8.ofNat (d.v / 65536) ::
    ((if d.last1 ≠ pad then [UInt8.ofNat (d.v / 256)] else []) ++
      (if d.last0 ≠ pad then [UInt8.ofNat d.v] else []))

/-- `g_base64_decode_step`: `v` has 32 bits. -/
def decodeStep (d : Decoder) : Bytes → Bytes
  | [] => []
  | c :: s =>
    match rank c with
    | none => decodeStep d s
    | some r =>
      let d : Decoder := { v := (d.v * 64 + r) % 2 ^ 32, i := d.i + 1, last0 := c, last1 := d.last0 }
      if d.i = 4 then d.flush ++ decodeStep { d with i := 0 } s else decodeStep d s

def decode (s : Bytes) : Bytes := decodeStep .start s

/-! ## The alphabet -/

theorem rank_alphabet {i : Nat} (hi : i < 64) : rank (alphabet i) = some i := by
  have hall : ∀ i < 64, rank (alphabet i) = some i := by decide
  exact hall i hi

theorem alphabet_ne_pad {i : Nat} (hi : i < 64) : alphabet i ≠ pad := by
  have hall : ∀ i < 64, alphabet i ≠ pad := by decide
  exact hall i hi

theorem length_encode (s : Bytes) : (encode s).length = 4 * ((s.length + 2) / 3) := by
  induction s using encode.induct with
  | case1 a b c s ih =>
    rw [encode, length_append, ih, length_cons, length_cons, length_cons]
    change 4 + _ = _
    omega
  | case2 a b => simp [encode, group]
  | case3 a => simp [encode, group]
  | case4 => simp [encode]

theorem rank_pad : rank pad = some 0 := rfl

/-- All that the encoder writes has a place in the alphabet. -/
theorem rank_of_mem_encode {s : Bytes} {c : UInt8} (hc : c ∈ encode s) : (rank c).isSome := by
  induction s using encode.induct with
  | case1 a b d s ih =>
    have ha := a.toNat_lt
    have hb := b.toNat_lt
    rcases mem_append.1 hc with hc | hc
    · simp only [group, mem_cons, not_mem_nil, or_false] at hc
      rcases hc with rfl | rfl | rfl | rfl
      · rw [rank_alphabet (by omega)]; rfl
      · rw [rank_alphabet (by omega)]; rfl
      · have := d.toNat_lt
        rw [rank_alphabet (by omega)]; rfl
      · rw [rank_alphabet (by omega)]; rfl
    · exact ih hc
  | case2 a b =>
    have ha := a.toNat_lt
    have hb := b.toNat_lt
    simp only [encode, group, take_succ_cons, take_zero, cons_append, nil_append,
      mem_cons, not_mem_nil, or_false] at hc
    rcases hc with rfl | rfl | rfl | rfl
    · rw [rank_alphabet (by omega)]; rfl
    · rw [rank_alphabet (by omega)]; rfl
    · rw [rank_alphabet (by omega)]; rfl
    · rfl
  | case3 a =>
    have ha := a.toNat_lt
    simp only [encode, group, take_succ_cons, take_zero, cons_append, nil_append,
      mem_cons, not_mem_nil, or_false] at hc
    rcases hc with rfl | rfl | rfl | rfl
    · rw [rank_alphabet (by omega)]; rfl
    · rw [rank_alphabet (by omega)]; rfl
    · rfl
    · rfl
  | case4 => cases hc

/-! ## The round trip -/

/-- Characters outside of the alphabet do not matter. -/
theorem decodeStep_filter (d : Decoder) (s : Bytes) :
    decodeStep d s = decodeStep d (s.filter fun c => (rank c).isSome) := by
  induction s generalizing d with
  | nil => rfl
  | cons c s ih =>
    cases hc : rank c with
    | none => rw [filter_cons_of_neg (by simp [hc]), decodeStep, hc, ih]
    | some r =>
      rw [filter_cons_of_pos (by simp [hc])]
      simp only [decodeStep, hc]
      rw [ih, ih]

/-- A character inside of a group. -/
theorem decodeStep_more {v i r : Nat} {x y c : UInt8} (hc : rank c = some r) (hi : i + 1 ≠ 4)
    (s : Bytes) :
    decodeStep ⟨v, i, x, y⟩ (c :: s) = decodeStep ⟨(v * 64 + r) % 2 ^ 32, i + 1, c, x⟩ s := by
  simp only [decodeStep, hc, if_neg hi]

/-- The last character of a group. -/
theorem decodeStep_last {v r : Nat} {x y c : UInt8} (hc : rank c = some r) (s : Bytes) :
    decodeStep ⟨v, 3, x, y⟩ (c :: s) =
      Decoder.flush ⟨(v * 64 + r) % 2 ^ 32, 4, c, x⟩ ++
        decodeStep ⟨(v * 64 + r) % 2 ^ 32, 0, c, x⟩ s := by
  simp only [decodeStep, hc, Nat.reduceAdd, if_true]

/-- Four characters, of the alphabet or `=`, are one group. -/
theorem decodeStep_group {v : Nat} {x y : UInt8} {c₁ c₂ c₃ c₄ : UInt8} {r₁ r₂ r₃ r₄ : Nat}
    (h₁ : rank c₁ = some r₁) (h₂ : rank c₂ = some r₂) (h₃ : rank c₃ = some r₃) (h₄ : rank c₄ = some r₄)
    (s : Bytes) :
    ∃ v', decodeStep ⟨v, 0, x, y⟩ (c₁ :: c₂ :: c₃ :: c₄ :: s) =
      Decoder.flush ⟨v', 4, c₄, c₃⟩ ++ decodeStep ⟨v', 0, c₄, c₃⟩ s ∧
      v' % 2 ^ 24 = (((r₁ * 64 + r₂) * 64 + r₃) * 64 + r₄) % 2 ^ 24 := by
  rw [decodeStep_more h₁ (by decide), decodeStep_more h₂ (by decide), decodeStep_more h₃ (by decide),
    decodeStep_last h₄]
  exact ⟨_, rfl, by omega⟩

theorem ofNat_eq {n : Nat} {a : UInt8} (h : n % 256 = a.toNat) : UInt8.ofNat n = a := by
  rw [← UInt8.toNat_inj, UInt8.toNat_ofNat', h]

/-- What is encoded is decoded again. -/
theorem decodeStep_encode (data : Bytes) (v : Nat) (x y : UInt8) :
    decodeStep ⟨v, 0, x, y⟩ (encode data) = data := by
  induction data using encode.induct generalizing v x y with
  | case1 a b c s ih =>
    have ha := a.toNat_lt
    have hb := b.toNat_lt
    have hc := c.toNat_lt
    rw [encode]
    obtain ⟨v', hstep, hv⟩ := decodeStep_group (v := v) (x := x) (y := y)
      (rank_alphabet (by omega : a.toNat / 4 < 64))
      (rank_alphabet (by omega : a.toNat % 4 * 16 + b.toNat / 16 < 64))
      (rank_alphabet (by omega : b.toNat % 16 * 4 + c.toNat / 64 < 64))
      (rank_alphabet (by omega : c.toNat % 64 < 64)) (encode s)
    rw [group, cons_append, cons_append, cons_append, cons_append, nil_append, hstep, ih]
    dsimp only [Decoder.flush]
    rw [if_pos (alphabet_ne_pad (by omega)), if_pos (alphabet_ne_pad (by omega)),
      ofNat_eq (a := a) (by omega), ofNat_eq (a := b) (by omega), ofNat_eq (a := c) (by omega)]
    rfl
  | case2 a b =>
    have ha := a.toNat_lt
    have hb := b.toNat_lt
    rw [encode]
    obtain ⟨v', hstep, hv⟩ := decodeStep_group (v := v) (x := x) (y := y)
      (rank_alphabet (by omega : a.toNat / 4 < 64))
      (rank_alphabet (by omega : a.toNat % 4 * 16 + b.toNat / 16 < 64))
      (rank_alphabet (by omega : b.toNat % 16 * 4 + 0 / 64 < 64)) rank_pad []
    change decodeStep _ (_ :: _ :: _ :: _ :: []) = _
    rw [hstep]
    dsimp only [Decoder.flush]
    rw [if_pos (alphabet_ne_pad (by omega)), if_neg (not_not.2 rfl),
      ofNat_eq (a := a) (by omega), ofNat_eq (a := b) (by omega)]
    rfl
  | case3 a =>
    have ha := a.toNat_lt
    rw [encode]
    obtain ⟨v', hstep, hv⟩ := decodeStep_group (v := v) (x := x) (y := y)
      (rank_alphabet (by omega : a.toNat / 4 < 64))
      (rank_alphabet (by omega : a.toNat % 4 * 16 + 0 / 16 < 64)) rank_pad rank_pad []
    change decodeStep _ (_ :: _ :: _ :: _ :: []) = _
    rw [hstep]
    dsimp only [Decoder.flush]
    rw [if_neg (not_not.2 rfl), if_neg (not_not.2 rfl), ofNat_eq (a := a) (by omega)]
    rfl
  | case4 => rw [encode, decodeStep]

/-- What is encoded is decoded again, also when other characters were put into the text. -/
theorem decode_encode {data text : Bytes}
    (htext : text.filter (fun c => (rank c).isSome) = encode data) : decode text = data := by
  rw [decode, decodeStep_filter, htext]
  exact decodeStep_encode ..

/-! ## Group by group -/

/-- Where the decoder stands behind a text. -/
def Decoder.after (d : Decoder) : Bytes → Decoder
  | [] => d
  | c :: s =>
    match rank c with
    | none => d.after s
    | some r =>
      let d : Decoder := { v := (d.v * 64 + r) % 2 ^ 32, i := d.i + 1, last0 := c, last1 := d.last0 }
      if d.i = 4 then Decoder.after { d with i := 0 } s else d.after s

theorem decodeStep_append (d : Decoder) (s t : Bytes) :
    decodeStep d (s ++ t) = decodeStep d s ++ decodeStep (d.after s) t := by
  induction s generalizing d with
  | nil => rfl
  | cons c s ih =>
    rw [cons_append, decodeStep, decodeStep, Decoder.after]
    cases hc : rank c with
    | none => exact ih d
    | some r =>
      dsimp only
      split
      · rw [ih, append_assoc]
      · exact ih _

/-- Characters of the alphabet, and `=`, are counted. -/
theorem after_i {d : Decoder} {s : Bytes} (hd : d.i < 4) (hs : ∀ c ∈ s, (rank c).isSome) :
    (d.after s).i = (d.i + s.length) % 4 := by
  induction s generalizing d with
  | nil => exact (Nat.mod_eq_of_lt hd).symm
  | cons c s ih =>
    obtain ⟨r, hr⟩ := Option.isSome_iff_exists.1 (hs c mem_cons_self)
    have hrest : ∀ c ∈ s, (rank c).isSome := (forall_mem_cons.1 hs).2
    rw [Decoder.after, hr, length_cons]
    dsimp only
    split
    · rename_i hfull
      rw [ih (by show 0 < 4; decide) hrest]
      show (0 + s.length) % 4 = _
      omega
    · rename_i hmore
      rw [ih (by show d.i + 1 < 4; omega) hrest]
      show (d.i + 1 + s.length) % 4 = _
      omega

/-- Two decoders that have read the same characters of the group they are in. -/
structure SameGroup (d d' : Decoder) : Prop where
  lt : d.i < 4
  i : d'.i = d.i
  bits : d'.v % 64 ^ d.i = d.v % 64 ^ d.i
  last0 : 0 < d.i → d'.last0 = d.last0
  last1 : 1 < d.i → d'.last1 = d.last1

/-- Only the group that is being read matters. -/
theorem decodeStep_sameGroup {d d' : Decoder} (h : SameGroup d d') (s : Bytes) :
    decodeStep d' s = decodeStep d s := by
  induction s generalizing d d' with
  | nil => rfl
  | cons c s ih =>
    rw [decodeStep, decodeStep]
    cases hc : rank c with
    | none => exact ih h
    | some r =>
      obtain ⟨v, i, x, y⟩ := d
      obtain ⟨v', i', x', y'⟩ := d'
      obtain ⟨hlt, hi, hbits, hlast0, hlast1⟩ := h
      dsimp only at hlt hi hbits hlast0 hlast1 ⊢
      subst hi
      have hcases : i' = 0 ∨ i' = 1 ∨ i' = 2 ∨ i' = 3 := by omega
      rcases hcases with rfl | rfl | rfl | rfl
      · exact ih ⟨show 0 + 1 < 4 by decide, rfl, by dsimp only; omega, fun _ => rfl,
          fun h => absurd h (show ¬ 1 < 0 + 1 by decide)⟩
      · obtain rfl := hlast0 (by decide)
        exact ih ⟨show 1 + 1 < 4 by decide, rfl, by dsimp only; omega, fun _ => rfl, fun _ => rfl⟩
      · obtain rfl := hlast0 (by decide)
        exact ih ⟨show 2 + 1 < 4 by decide, rfl, by dsimp only; omega, fun _ => rfl, fun _ => rfl⟩
      · obtain rfl := hlast0 (by decide)
        have hflush : Decoder.flush ⟨(v' * 64 + r) % 2 ^ 32, 4, c, x'⟩ =
            Decoder.flush ⟨(v * 64 + r) % 2 ^ 32, 4, c, x'⟩ := by
          have hfirst : UInt8.ofNat ((v' * 64 + r) % 2 ^ 32 / 65536) = UInt8.ofNat ((v * 64 + r) % 2 ^ 32 / 65536) := by
            rw [← UInt8.toNat_inj, UInt8.toNat_ofNat', UInt8.toNat_ofNat']
            omega
          have hsecond : UInt8.ofNat ((v' * 64 + r) % 2 ^ 32 / 256) = UInt8.ofNat ((v * 64 + r) % 2 ^ 32 / 256) := by
            rw [← UInt8.toNat_inj, UInt8.toNat_ofNat', UInt8.toNat_ofNat']
            omega
          have hthird : UInt8.ofNat ((v' * 64 + r) % 2 ^ 32) = UInt8.ofNat ((v * 64 + r) % 2 ^ 32) := by
            rw [← UInt8.toNat_inj, UInt8.toNat_ofNat', UInt8.toNat_ofNat']
            omega
          rw [Decoder.flush, Decoder.flush, hfirst, hsecond, hthird]
        have hrest := @ih ⟨(v * 64 + r) % 2 ^ 32, 0, c, x'⟩ ⟨(v' * 64 + r) % 2 ^ 32, 0, c, x'⟩
          ⟨show 0 < 4 by decide, rfl, (Nat.mod_one _).trans (Nat.mod_one _).symm,
            fun h => absurd h (show ¬ 0 < 0 by decide), fun h => absurd h (show ¬ 1 < 0 by decide)⟩
        rw [if_pos rfl, if_pos rfl, hflush, hrest]

/-- Whole groups of characters of the alphabet and `=`. -/
structure Padded (text : Bytes) : Prop where
  ranked : ∀ c ∈ text, (rank c).isSome
  groups : text.length % 4 = 0

/-- What follows whole groups is decoded by itself. -/
theorem decode_append {text : Bytes} (h : Padded text) (t : Bytes) :
    decode (text ++ t) = decode text ++ decode t := by
  have hi : (Decoder.start.after text).i = 0 := by
    rw [after_i (by decide) h.ranked]
    show (0 + text.length) % 4 = 0
    rw [Nat.zero_add, h.groups]
  rw [decode, decodeStep_append]
  refine congrArg (decode text ++ ·) (decodeStep_sameGroup ⟨by decide, hi, ?_, ?_, ?_⟩ t)
  · show _ % 64 ^ 0 = _ % 64 ^ 0
    rw [Nat.pow_zero, Nat.mod_one, Nat.mod_one]
  · exact fun h => absurd h (by decide)
  · exact fun h => absurd h (by decide)

theorem length_flush_le (d : Decoder) : d.flush.length ≤ 3 := by
  rw [Decoder.flush, length_cons, length_append]
  have hone : ∀ (p : Prop) [Decidable p] (b : UInt8), (if p then [b] else []).length ≤ 1 := by
    intro p _ b
    split
    · exact Nat.le_refl _
    · exact Nat.zero_le _
  have hlast1 := hone (d.last1 ≠ pad) (UInt8.ofNat (d.v / 256))
  have hlast0 := hone (d.last0 ≠ pad) (UInt8.ofNat d.v)
  omega

theorem length_decodeStep_le {d : Decoder} (hd : d.i < 4) (s : Bytes) :
    4 * (decodeStep d s).length ≤ 3 * (d.i + s.length) := by
  induction s generalizing d with
  | nil => exact Nat.zero_le _
  | cons c s ih =>
    rw [decodeStep, length_cons]
    cases hc : rank c with
    | none =>
      have hrest := ih hd
      dsimp only
      omega
    | some r =>
      dsimp only
      split
      · rename_i hfull
        have hflush := length_flush_le ⟨(d.v * 64 + r) % 2 ^ 32, d.i + 1, c, d.last0⟩
        have hrest := @ih ⟨(d.v * 64 + r) % 2 ^ 32, 0, c, d.last0⟩ (show 0 < 4 by decide)
        rw [length_append]
        dsimp only at hrest
        omega
      · rename_i hmore
        have hrest := @ih ⟨(d.v * 64 + r) % 2 ^ 32, d.i + 1, c, d.last0⟩ (by show d.i + 1 < 4; omega)
        dsimp only at hrest
        omega

/-- What is decoded fits into three bytes for four characters. -/
theorem length_decode_le (s : Bytes) : (decode s).length ≤ s.length * 3 / 4 := by
  have hle := @length_decodeStep_le .start (by decide) s
  have hi : Decoder.start.i = 0 := rfl
  rw [decode]
  omega

/-- Characters in front that are not in the alphabet do not matter. -/
theorem decode_dropWhile {p : UInt8 → Bool} (hp : ∀ c, p c = true → rank c = none) (s : Bytes) :
    decode (s.dropWhile p) = decode s := by
  induction s with
  | nil => rfl
  | cons c s ih =>
    rw [dropWhile_cons]
    split
    · rename_i hc
      rw [ih, decode, decode, decodeStep, hp c hc]
    · rfl

end MateKeyring.Lib.Base64
