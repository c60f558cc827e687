import MateKeyring.Egg.Padding

/-!
# Padding and unpadding invert each other

Where a message can be padded at all, its padded form is taken apart again: the filler of PKCS#1 has no zero,
so that the first zero behind the header is the separator, and the last octet of PKCS#7 is the number of the
octets that were added. What the unpadding functions make of other octets is compared with the padded shapes:
those of PKCS#1 look at two octets without asking whether there are two, and take any filler for the block type
1; that of PKCS#7 does not ask for a multiple of the block.
-/

set_option autoImplicit false

namespace MateKeyring.Egg

open Lib List

variable {bt : UInt8} {block : Nat} {padded raw : Bytes}

/-! ## PKCS#1 -/

/-- The length is a multiple of the block, if there is a block. -/
def Even (block : Nat) (padded : Bytes) : Prop := block = 0 ∨ padded.length % block = 0

instance (block : Nat) (padded : Bytes) : Decidable (Even block padded) := inferInstanceAs (Decidable (_ ∨ _))

theorem not_even_iff : ¬ Even block padded ↔ block ≠ 0 ∧ padded.length % block ≠ 0 := not_or

/-- The header is looked for in octets that do not have one. -/
def ReadsOutside (block : Nat) (padded : Bytes) : Prop :=
  Even block padded ∧ (padded = [] ∨ padded = [0x00])

/-- What the search behind the header gives. -/
theorem unpadPkcs1_header (heven : Even block padded) {rest : Bytes}
    (hpadded : padded = 0x00 :: bt :: rest) :
    unpadPkcs1 bt block padded = .ok ((strchr 0x00 rest).map Prod.snd) := by
  subst hpadded
  rw [unpadPkcs1, if_neg (fun h => not_even_iff.2 h heven)]
  have hfirst : octetAt (0x00 :: bt :: rest) 0 = .ok 0x00 := rfl
  have hsecond : octetAt (0x00 :: bt :: rest) 1 = .ok bt := rfl
  rw [hfirst, ok_bind, if_neg (not_not.2 rfl), hsecond, ok_bind, if_neg (not_not.2 rfl)]
  rfl

/-- A padded message is taken apart at the separator. -/
theorem unpadPkcs1_of_shape {filler : Bytes} (hfiller : 0 ∉ filler)
    (heven : Even block (0x00 :: bt :: filler ++ 0x00 :: raw)) :
    unpadPkcs1 bt block (0x00 :: bt :: filler ++ 0x00 :: raw) = .ok (some raw) := by
  rw [unpadPkcs1_header heven rfl]
  have hsearch : strchr 0x00 (filler ++ 0x00 :: raw) = some (filler, raw) := strchr_append hfiller
  exact congrArg (fun r => Except.ok (Option.map Prod.snd r)) hsearch

/-- Octets that do not start with the header are refused, or looked for outside. -/
theorem unpadPkcs1_other (heven : Even block padded) (hother : ∀ rest, padded ≠ 0x00 :: bt :: rest) :
    unpadPkcs1 bt block padded =
      if padded = [] ∨ padded = [0x00] then .error .outOfBounds else .ok none := by
  rw [unpadPkcs1, if_neg (fun h => not_even_iff.2 h heven)]
  cases padded with
  | nil => rfl
  | cons first rest =>
    have hfirst : octetAt (first :: rest) 0 = .ok first := rfl
    rw [hfirst, ok_bind]
    by_cases hzero : first = 0x00
    · subst hzero
      rw [if_neg (not_not.2 rfl)]
      cases rest with
      | nil => rfl
      | cons second rest =>
        have hsecond : octetAt (0x00 :: second :: rest) 1 = .ok second := rfl
        have hne : second ≠ bt := fun heq => hother rest (heq ▸ rfl)
        rw [hsecond, ok_bind, if_pos hne, if_neg (by simp)]
        rfl
    · rw [if_pos hzero, if_neg (by simp [hzero])]
      rfl

/-- The unpadding of PKCS#1 looks only at octets that are there, but for two kinds of octets. -/
theorem unpadPkcs1_ok_iff : (∃ r, unpadPkcs1 bt block padded = .ok r) ↔ ¬ ReadsOutside block padded := by
  by_cases heven : Even block padded
  · by_cases hheader : ∃ rest, padded = 0x00 :: bt :: rest
    · obtain ⟨rest, hpadded⟩ := hheader
      rw [unpadPkcs1_header heven hpadded]
      refine ⟨fun _ => ?_, fun _ => ⟨_, rfl⟩⟩
      rintro ⟨-, hempty | hzero⟩
      · exact nomatch hpadded.symm.trans hempty
      · exact nomatch hpadded.symm.trans hzero
    · rw [unpadPkcs1_other heven (not_exists.1 hheader)]
      split
      · rename_i houtside
        exact ⟨fun ⟨_, h⟩ => (nomatch h), fun h => absurd ⟨heven, houtside⟩ h⟩
      · rename_i hinside
        exact ⟨fun _ h => hinside h.2, fun _ => ⟨_, rfl⟩⟩
  · rw [unpadPkcs1, if_pos (not_even_iff.1 heven)]
    exact ⟨fun _ h => heven h.1, fun _ => ⟨_, rfl⟩⟩

/-- What the unpadding of PKCS#1 accepts. -/
theorem unpadPkcs1_some_iff :
    unpadPkcs1 bt block padded = .ok (some raw) ↔
      Even block padded ∧ ∃ filler, 0 ∉ filler ∧ padded = 0x00 :: bt :: filler ++ 0x00 :: raw := by
  constructor
  · intro h
    by_cases heven : Even block padded
    · refine ⟨heven, ?_⟩
      by_cases hheader : ∃ rest, padded = 0x00 :: bt :: rest
      · obtain ⟨rest, hpadded⟩ := hheader
        rw [unpadPkcs1_header heven hpadded] at h
        obtain ⟨⟨filler, raw'⟩, hsearch, rfl⟩ := Option.map_eq_some_iff.1 (Except.ok.inj h)
        refine ⟨filler, not_mem_of_strchr hsearch, ?_⟩
        rw [hpadded, eq_of_strchr hsearch]
        rfl
      · rw [unpadPkcs1_other heven (not_exists.1 hheader)] at h
        split at h
        · exact nomatch h
        · exact nomatch Except.ok.inj h
    · rw [unpadPkcs1, if_pos (not_even_iff.1 heven)] at h
      exact nomatch Except.ok.inj h
  · rintro ⟨heven, filler, hfiller, rfl⟩
    exact unpadPkcs1_of_shape hfiller heven

/-! ## PKCS#7 -/

theorem octetAt_eq {data : Bytes} {i : Nat} (h : i < data.length) : octetAt data i = .ok data[i] := by
  rw [octetAt, getElem?_eq_getElem h]

/-- The loop over the padding compares each of its octets. -/
theorem allOctets_eq {nPad left i : Nat} (h : i + left ≤ padded.length) :
    allOctets padded nPad left i =
      .ok (((padded.drop i).take left).all fun b => b.toNat == nPad) := by
  induction left generalizing i with
  | zero =>
    rw [allOctets, take_zero]
    exact congrArg Except.ok all_nil.symm
  | succ left ih =>
    have hi : i < padded.length := by omega
    have hdrop : (padded.drop i).take (left + 1) = padded[i] :: (padded.drop (i + 1)).take left := by
      rw [drop_eq_getElem_cons hi, take_succ_cons]
    rw [allOctets, octetAt_eq hi, ok_bind, hdrop, all_cons]
    split
    · rename_i hne
      rw [beq_eq_false_iff_ne.2 hne, Bool.false_and]
      rfl
    · rename_i heq
      rw [ih (by omega), beq_iff_eq.2 (not_not.1 heq), Bool.true_and]

/-- The number of octets that were added is in the last octet. -/
structure Tail (block : Nat) (padded raw : Bytes) (n : Nat) : Prop where
  pos : 0 < n
  lt : n < 256
  le : block = 0 ∨ n ≤ block
  eq : padded = raw ++ replicate n (UInt8.ofNat n)

theorem Tail.length {n : Nat} (h : Tail block padded raw n) : padded.length = raw.length + n := by
  rw [h.eq, length_append, length_replicate]

theorem toNat_ofNat_of_lt {n : Nat} (h : n < 256) : (UInt8.ofNat n).toNat = n := by
  rw [UInt8.toNat_ofNat']
  omega

/-- The unpadding of PKCS#7 never looks outside; it accepts what has such a tail. -/
theorem pkcs7Unpad_cases :
    (∃ raw n, Tail block padded raw n ∧ eggPaddingPkcs7Unpad block padded = .ok (some raw)) ∨
      ((∀ raw n, ¬ Tail block padded raw n) ∧ eggPaddingPkcs7Unpad block padded = .ok none) := by
  have hlast : ∀ {raw n}, Tail block padded raw n → ∃ h : padded.length - 1 < padded.length,
      padded[padded.length - 1].toNat = n := by
    intro raw n htail
    have hlength := htail.length
    have hpos := htail.pos
    refine ⟨by omega, ?_⟩
    have hget : padded[padded.length - 1]? = some (UInt8.ofNat n) := by
      rw [hlength, htail.eq, getElem?_append_right (by omega), getElem?_replicate,
        if_pos (by omega)]
    rw [getElem?_eq_getElem (by omega)] at hget
    rw [Option.some.inj hget, toNat_ofNat_of_lt htail.lt]
  rw [eggPaddingPkcs7Unpad]
  by_cases hempty : padded.length = 0
  · rw [if_pos hempty]
    refine .inr ⟨fun raw n htail => ?_, rfl⟩
    obtain ⟨h, -⟩ := hlast htail
    omega
  · have hinside : padded.length - 1 < padded.length := by omega
    rw [if_neg hempty, octetAt_eq hinside, ok_bind]
    generalize hn : padded[padded.length - 1].toNat = nPad
    have hbyte : nPad < 256 := hn ▸ UInt8.toNat_lt _
    have hsame : ∀ {raw n}, Tail block padded raw n → n = nPad := fun htail => by
      obtain ⟨_, h⟩ := hlast htail
      exact h.symm.trans hn
    dsimp only
    split
    · rename_i hrange
      refine .inr ⟨fun raw n htail => ?_, rfl⟩
      have hpos := htail.pos
      have := hsame htail
      omega
    · rename_i hrange
      split
      · rename_i hlong
        refine .inr ⟨fun raw n htail => ?_, rfl⟩
        have hlength := htail.length
        have := hsame htail
        omega
      · rename_i hfits
        split
        · rename_i hblock
          refine .inr ⟨fun raw n htail => ?_, rfl⟩
          have hle := htail.le
          have := hsame htail
          omega
        · rename_i hblock
          rw [allOctets_eq (by omega), ok_bind]
          have htake : (padded.drop (padded.length - nPad)).take nPad = padded.drop (padded.length - nPad) :=
            take_of_length_le (by rw [length_drop]; omega)
          have hanswer : ((padded.drop (padded.length - nPad)).all fun b => b.toNat == nPad) = true ↔
              ∀ b ∈ padded.drop (padded.length - nPad), b.toNat = nPad := by
            simp only [all_eq_true, beq_iff_eq]
          rw [htake]
          by_cases hall : ∀ b ∈ padded.drop (padded.length - nPad), b.toNat = nPad
          · rw [hanswer.2 hall]
            refine .inl ⟨padded.take (padded.length - nPad), nPad, ⟨by omega, hbyte, by omega, ?_⟩, rfl⟩
            have hreplicate : padded.drop (padded.length - nPad) = replicate nPad (UInt8.ofNat nPad) := by
              apply eq_replicate_iff.2
              refine ⟨by rw [length_drop]; omega, fun b hb => ?_⟩
              rw [← hall b hb, UInt8.ofNat_toNat]
            rw [← hreplicate, take_append_drop]
          · rw [Bool.eq_false_iff.2 (fun h => hall (hanswer.1 h))]
            refine .inr ⟨fun raw n htail => hall ?_, rfl⟩
            obtain rfl := hsame htail
            have hdrop : padded.drop (padded.length - n) = replicate n (UInt8.ofNat n) := by
              have hplace : padded.length - n = raw.length := by
                rw [htail.length]
                omega
              rw [hplace, htail.eq, drop_left]
            rw [hdrop]
            intro b hb
            rw [eq_of_mem_replicate hb, toNat_ofNat_of_lt htail.lt]

theorem Tail.unique {raw' : Bytes} {n n' : Nat} (h : Tail block padded raw n) (h' : Tail block padded raw' n') :
    raw = raw' := by
  have hn : n = n' := by
    have hlast : (raw ++ replicate n (UInt8.ofNat n)).getLast? =
        (raw' ++ replicate n' (UInt8.ofNat n')).getLast? := by rw [← h.eq, ← h'.eq]
    have hget : ∀ {raw : Bytes} {n : Nat}, 0 < n →
        (raw ++ replicate n (UInt8.ofNat n)).getLast? = some (UInt8.ofNat n) := by
      intro raw n hpos
      rw [getLast?_append, getLast?_replicate, if_neg (by omega)]
      rfl
    rw [hget h.pos, hget h'.pos] at hlast
    have hbytes := congrArg UInt8.toNat (Option.some.inj hlast)
    rwa [toNat_ofNat_of_lt h.lt, toNat_ofNat_of_lt h'.lt] at hbytes
  subst hn
  exact append_cancel_right (h.eq.symm.trans h'.eq)

/-- What the unpadding of PKCS#7 accepts. -/
theorem pkcs7Unpad_some_iff : eggPaddingPkcs7Unpad block padded = .ok (some raw) ↔ ∃ n, Tail block padded raw n := by
  rcases @pkcs7Unpad_cases block padded with ⟨raw', n, htail, hrun⟩ | ⟨hnone, hrun⟩
  · rw [hrun]
    constructor
    · intro h
      cases h
      exact ⟨n, htail⟩
    · rintro ⟨n', htail'⟩
      rw [htail.unique htail']
  · rw [hrun]
    constructor
    · exact fun h => nomatch Except.ok.inj h
    · exact fun ⟨n, htail⟩ => absurd htail (hnone raw n)

/-- How PKCS#7 pads, where the length does not wrap around. -/
theorem pkcs7Pad_eq (hpos : 0 < block) (hblock : block < 256) (hroom : raw.length + block < 2 ^ 64) :
    eggPaddingPkcs7Pad block raw = .ok (some (raw ++ replicate (block - raw.length % block)
      (UInt8.ofNat (block - raw.length % block)))) := by
  have hmod := Nat.mod_lt raw.length hpos
  have hdiv := Nat.div_add_mod raw.length block
  have hsize : gsize (raw.length + block) / block * block = raw.length + (block - raw.length % block) := by
    rw [gsize_of_lt hroom, Nat.add_div_right _ hpos, Nat.mul_comm, Nat.mul_succ]
    omega
  rw [eggPaddingPkcs7Pad, if_neg (by omega), if_neg (by omega)]
  dsimp only
  rw [hsize, cAssert_of_true (by omega), ok_bind, cAssert_of_true (by omega), ok_bind, Nat.add_sub_cancel_left]
  rfl

/-- Where it does, an assertion fails. -/
theorem pkcs7Pad_faults (hpos : 0 < block) (hblock : block < 256) (hroom : ¬ raw.length + block < 2 ^ 64) :
    eggPaddingPkcs7Pad block raw = .error .assertion := by
  have hsum : gsize (raw.length + block) < 2 ^ 64 := Nat.mod_lt _ (by decide)
  have hle := Nat.div_mul_le_self (gsize (raw.length + block)) block
  have hless : gsize (raw.length + block) ≤ raw.length + block - 2 ^ 64 := by
    rw [gsize, Nat.mod_eq_sub_mod (by omega)]
    exact Nat.mod_le _ _
  rw [eggPaddingPkcs7Pad, if_neg (by omega), if_neg (by omega)]
  dsimp only
  rw [cAssert, if_neg (by omega)]
  rfl

/-! ## Inverses -/

/-- A function that pads or unpads, for the size of a block. -/
abbrev PadFunction := Nat → Bytes → Checked (Option Bytes)

/-- A message is padded and taken apart again. -/
def PadInverse (pad unpad : PadFunction) (block : Nat) (raw : Bytes) : Prop :=
  ∃ padded, pad block raw = .ok (some padded) ∧ unpad block padded = .ok (some raw)

/-- Nothing outside is looked at, and only octets of the padded shape are accepted. -/
def UnpadSound (unpad : PadFunction) (shape : Nat → Bytes → Bytes → Prop) (block : Nat)
    (padded : Bytes) : Prop :=
  (∃ r, unpad block padded = .ok r) ∧ ∀ raw, unpad block padded = .ok (some raw) → shape block padded raw

/-- The block type 1, with a filler of the octet `0xff`. -/
def Padded01 (block : Nat) (padded raw : Bytes) : Prop :=
  Even block padded ∧ ∃ n, padded = 0x00 :: 0x01 :: replicate n 0xff ++ 0x00 :: raw

/-- The block type 2, with a filler that has no zero. -/
def Padded02 (block : Nat) (padded raw : Bytes) : Prop :=
  Even block padded ∧ ∃ filler, 0 ∉ filler ∧ padded = 0x00 :: 0x02 :: filler ++ 0x00 :: raw

/-- As many octets as make up a multiple of the block, each of them their number. -/
def Padded7 (block : Nat) (padded raw : Bytes) : Prop :=
  Even block padded ∧ ∃ n, Tail block padded raw n

/-- The block type 1 with another filler. -/
def OddFiller (block : Nat) (padded : Bytes) : Prop :=
  Even block padded ∧ ∃ filler raw, 0 ∉ filler ∧ (∃ b ∈ filler, b ≠ 0xff) ∧
    padded = 0x00 :: 0x01 :: filler ++ 0x00 :: raw

/-- Octets with a tail as PKCS#7 has it that are no multiple of the block. -/
def Uneven (block : Nat) (padded : Bytes) : Prop := ¬ Even block padded ∧ ∃ raw n, Tail block padded raw n

/-- A PKCS#1 block type inverts exactly for the lengths that can be padded and filled. -/
theorem pkcs1_inverse_iff {fill : Nat → Option Bytes}
    (hfill : ∀ n filler, fill n = some filler → filler.length = n ∧ 0 ∉ filler) (hblock : 3 < block) :
    PadInverse (pkcs1Pad bt fill) (unpadPkcs1 bt) block raw ↔
      PadFits block raw.length ∧ (fill (fillerSize block raw.length)).isSome := by
  constructor
  · rintro ⟨padded, hpad, -⟩
    obtain ⟨hfits, filler, hfiller, -⟩ := (pkcs1Pad_some_iff hblock).1 hpad
    exact ⟨hfits, Option.isSome_of_eq_some hfiller⟩
  · rintro ⟨hfits, hsome⟩
    obtain ⟨filler, hfiller⟩ := Option.isSome_iff_exists.1 hsome
    refine ⟨_, pkcs1Pad_eq hblock hfits hfiller, ?_⟩
    obtain ⟨hlength, hzero⟩ := hfill _ filler hfiller
    apply unpadPkcs1_of_shape hzero
    exact .inr (length_pkcs1Padded hblock hlength)

theorem pkcs7_inverse_iff (hpos : 0 < block) (hblock : block < 256) :
    PadInverse eggPaddingPkcs7Pad eggPaddingPkcs7Unpad block raw ↔ raw.length + block < 2 ^ 64 := by
  constructor
  · rintro ⟨padded, hpad, -⟩
    by_contra hroom
    rw [pkcs7Pad_faults hpos hblock hroom] at hpad
    exact nomatch hpad
  · intro hroom
    have hmod := Nat.mod_lt raw.length hpos
    refine ⟨_, pkcs7Pad_eq hpos hblock hroom, pkcs7Unpad_some_iff.2 ⟨_, ?_, ?_, ?_, rfl⟩⟩
    · omega
    · omega
    · exact .inr (Nat.sub_le _ _)

theorem unpad01_sound_iff :
    UnpadSound eggPaddingPkcs1Unpad01 Padded01 block padded ↔
      ¬ ReadsOutside block padded ∧ ¬ OddFiller block padded := by
  rw [← @unpadPkcs1_ok_iff 0x01]
  refine and_congr_right fun _ => ?_
  constructor
  · rintro hshape ⟨heven, filler, raw, hfiller, ⟨b, hb, hne⟩, hpadded⟩
    obtain ⟨-, n, hother⟩ := hshape raw (unpadPkcs1_some_iff.2 ⟨heven, filler, hfiller, hpadded⟩)
    -- both fillers end at the first zero behind the header
    have hones : (0 : UInt8) ∉ replicate n (0xff : UInt8) := fun h =>
      absurd (eq_of_mem_replicate h) (by decide)
    have hboth : filler ++ 0x00 :: raw = replicate n 0xff ++ 0x00 :: raw :=
      (List.cons.inj (List.cons.inj (hpadded.symm.trans hother)).2).2
    rw [append_cancel_right hboth] at hb
    exact hne (eq_of_mem_replicate hb)
  · intro hodd raw hrun
    obtain ⟨heven, filler, hfiller, hpadded⟩ := unpadPkcs1_some_iff.1 hrun
    have hones : ∀ b ∈ filler, b = 0xff := by
      by_contra hnot
      push Not at hnot
      exact hodd ⟨heven, filler, raw, hfiller, hnot, hpadded⟩
    refine ⟨heven, filler.length, ?_⟩
    rw [← eq_replicate_of_mem hones]
    exact hpadded

theorem unpad02_sound_iff :
    UnpadSound eggPaddingPkcs1Unpad02 Padded02 block padded ↔ ¬ ReadsOutside block padded := by
  rw [← @unpadPkcs1_ok_iff 0x02]
  exact and_iff_left_of_imp fun _ raw hrun => unpadPkcs1_some_iff.1 hrun

theorem unpad7_sound_iff : UnpadSound eggPaddingPkcs7Unpad Padded7 block padded ↔ ¬ Uneven block padded := by
  constructor
  · rintro ⟨-, hshape⟩ ⟨hodd, raw, n, htail⟩
    exact hodd (hshape raw (pkcs7Unpad_some_iff.2 ⟨n, htail⟩)).1
  · intro huneven
    refine ⟨?_, fun raw hrun => ?_⟩
    · rcases @pkcs7Unpad_cases block padded with ⟨raw, n, -, hrun⟩ | ⟨-, hrun⟩
      · exact ⟨_, hrun⟩
      · exact ⟨_, hrun⟩
    · obtain ⟨n, htail⟩ := pkcs7Unpad_some_iff.1 hrun
      refine ⟨?_, n, htail⟩
      by_contra hodd
      exact huneven ⟨hodd, raw, n, htail⟩

/-- For which messages padding and unpadding are inverse, and for which octets unpadding is sound. -/
theorem padding_right_iff (random : RandomSource) (block : Nat) (raw padded : Bytes) :
    (3 < block →
        (PadInverse eggPaddingPkcs1Pad01 eggPaddingPkcs1Unpad01 block raw ↔ PadFits block raw.length)) ∧
      (3 < block →
        (PadInverse (eggPaddingPkcs1Pad02 random) eggPaddingPkcs1Unpad02 block raw ↔
          PadFits block raw.length ∧ fillerSize block raw.length < 2 ^ 32)) ∧
      (0 < block → block < 256 →
        (PadInverse eggPaddingPkcs7Pad eggPaddingPkcs7Unpad block raw ↔ raw.length + block < 2 ^ 64)) ∧
      (UnpadSound eggPaddingPkcs1Unpad01 Padded01 block padded ↔
        ¬ ReadsOutside block padded ∧ ¬ OddFiller block padded) ∧
      (UnpadSound eggPaddingPkcs1Unpad02 Padded02 block padded ↔ ¬ ReadsOutside block padded) ∧
      (UnpadSound eggPaddingPkcs7Unpad Padded7 block padded ↔ ¬ Uneven block padded) := by
  refine ⟨?_, ?_, ?_, unpad01_sound_iff, unpad02_sound_iff, unpad7_sound_iff⟩
  · intro hblock
    change PadInverse (pkcs1Pad 0x01 fun n => some (replicate n 0xff)) (unpadPkcs1 0x01) block raw ↔ _
    rw [pkcs1_inverse_iff ?_ hblock]
    · exact and_iff_left rfl
    · rintro n filler hfiller
      cases hfiller
      exact ⟨length_replicate, fun h => absurd (eq_of_mem_replicate h) (by decide)⟩
  · intro hblock
    change PadInverse (pkcs1Pad 0x02 random.filler) (unpadPkcs1 0x02) block raw ↔ _
    rw [pkcs1_inverse_iff ?_ hblock, random.filler_isSome_iff]
    rintro n filler hfiller
    obtain ⟨filler', hsome, hspec⟩ := random.filler_spec ((random.filler_isSome_iff n).1 (Option.isSome_of_eq_some hfiller))
    cases hfiller.symm.trans hsome
    exact hspec
  · intro hpos hblock
    exact pkcs7_inverse_iff hpos hblock

theorem padding_right_sample :
    3 < 8 ∧ (PadInverse eggPaddingPkcs1Pad01 eggPaddingPkcs1Unpad01 8 (ascii "TEST") ↔
      PadFits 8 (ascii "TEST").length) :=
  ⟨by decide, (padding_right_iff onesSource 8 (ascii "TEST") []).1 (by decide)⟩

/-- Six octets in a block of eight would be padded by ten; no octets at all are looked at. -/
theorem six_octets_not_padded :
    eggPaddingPkcs1Pad01 8 (ascii "SIXTEE") = .error .assertion ∧
      eggPaddingPkcs1Unpad02 0 [] = .error .outOfBounds ∧
      ¬ PadInverse eggPaddingPkcs1Pad01 eggPaddingPkcs1Unpad01 8 (ascii "SIXTEE") ∧
      ¬ UnpadSound eggPaddingPkcs1Unpad02 Padded02 0 [] := by
  have hpad : eggPaddingPkcs1Pad01 8 (ascii "SIXTEE") = .error .assertion := by rfl
  have hunpad : eggPaddingPkcs1Unpad02 0 [] = .error .outOfBounds := by rfl
  refine ⟨hpad, hunpad, ?_, ?_⟩
  · rintro ⟨padded, hrun, -⟩
    exact nomatch hpad.symm.trans hrun
  · rintro ⟨⟨r, hrun⟩, -⟩
    exact nomatch hunpad.symm.trans hrun

end MateKeyring.Egg
