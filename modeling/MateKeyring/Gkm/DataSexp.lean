import MateKeyring.Egg.Padding
import MateKeyring.Lib.BigEndian

/-!
# The padded input of RSA

`gkm_crypto_data_to_sexp` compares the data with the block of a modulus before it is padded. The PKCS#1
functions need three octets more and round up, so that data of one or two octets less than the block ends in
their assertion, and data of the size of the block is padded to two blocks (`pkcs1_octets_iff`).
-/

set_option autoImplicit false

namespace MateKeyring.Gkm

open Lib Egg BigEndian List

/-- `EggPadding`, as far as it is used here. -/
inductive InputPadding where
  | pkcs1Pad01
  | pkcs1Pad02
  | zeroPad
  deriving DecidableEq

/-- The function that pads. -/
def InputPadding.pad (random : RandomSource) : InputPadding → Nat → Bytes → Checked (Option Bytes)
  | .pkcs1Pad01 => eggPaddingPkcs1Pad01
  | .pkcs1Pad02 => eggPaddingPkcs1Pad02 random
  | .zeroPad => eggPaddingZeroPad

/-- An expression that was built from a format and a number. -/
structure DataSexp where
  format : Bytes
  mpi : Nat
  deriving DecidableEq, Repr

def ckrArgumentsBad : Nat := 0x07
def ckrDataLenRange : Nat := 0x21

/-- The block of a modulus, computed in a `guint`. -/
def dataBlock (nbits : UInt32) : Nat := ((nbits + 7) / 8).toNat

/-- `gkm_crypto_data_to_sexp`; the numbers are those of `CK_RV`. `GCRYMPI_FMT_USG` takes the octets as they
stand, without a sign. -/
def gkmCryptoDataToSexp (random : RandomSource) (format : Bytes) (nbits : UInt32)
    (padding : Option InputPadding) (data : Option Bytes) : Checked (Except Nat DataSexp) :=
  match data with
  | none => .ok (.error ckrArgumentsBad)
  | some data =>
    let block := dataBlock nbits
    if data.length > block then .ok (.error ckrDataLenRange)
    else
      match padding with
      | none => .ok (.ok { format := format, mpi := decode data })
      | some padding => do
          match ← padding.pad random block data with
          | none => pure (.error ckrDataLenRange)
          | some padded => pure (.ok { format := format, mpi := decode padded })

/-! ## What the input is to be -/

/-- Octets with the header of a block type, a filler that has no zero, and the separator. -/
def Pkcs1Octets (type : UInt8) (data padded : Bytes) : Prop :=
  ∃ filler, 0 ∉ filler ∧ padded = 0x00 :: type :: filler ++ 0x00 :: data

/-- The shape that a padding gives. -/
def InputPadding.Octets : InputPadding → Bytes → Bytes → Prop
  | .pkcs1Pad01 => Pkcs1Octets 0x01
  | .pkcs1Pad02 => Pkcs1Octets 0x02
  | .zeroPad => fun data padded => ∃ n, padded = replicate n 0x00 ++ data

/-- The data is too long, or it is the number of as many octets as the modulus has. -/
def InputRight (format : Bytes) (nbits : UInt32) (padding : InputPadding) (data : Bytes)
    (run : Checked (Except Nat DataSexp)) : Prop :=
  run = .ok (.error ckrDataLenRange) ∨
    ∃ padded, padded.length = (nbits.toNat + 7) / 8 ∧ padding.Octets data padded ∧
      run = .ok (.ok { format := format, mpi := decode padded })

/-! ## Sizes -/

variable {random : RandomSource} {format : Bytes} {nbits : UInt32} {padding : InputPadding}
  {data : Bytes} {block : Nat} {type : UInt8} {fill : Nat → Option Bytes} {filler : Bytes}

theorem dataBlock_eq : dataBlock nbits = (nbits.toNat + 7) % 2 ^ 32 / 8 := by
  rw [dataBlock, UInt32.toNat_div, UInt32.toNat_add]
  rfl

theorem dataBlock_lt : dataBlock nbits < 2 ^ 29 := by
  rw [dataBlock_eq]
  omega

/-- The block is that of the modulus, or nothing fits into it. -/
theorem dataBlock_cases (hbits : 32 ≤ nbits.toNat) :
    dataBlock nbits = 0 ∨ 4 ≤ dataBlock nbits ∧ dataBlock nbits = (nbits.toNat + 7) / 8 := by
  have hlt := nbits.toNat_lt
  rw [dataBlock_eq]
  omega

/-- Data with room for the header and the separator is padded to one block. -/
theorem pkcs1_one_block (hblock : 3 < block) (hlt : block < 2 ^ 29) (hpos : data ≠ [])
    (hroom : data.length + 3 ≤ block) (hfill : fill (block - data.length - 3) = some filler) :
    pkcs1Pad type fill block data = .ok (some (0x00 :: type :: filler ++ 0x00 :: data)) := by
  have hlength := length_pos_iff.2 hpos
  have hmod : data.length + 3 = block ∨ (data.length + 3) % block = data.length + 3 :=
    hroom.eq_or_lt.imp_right Nat.mod_eq_of_lt
  have hself := Nat.mod_self block
  have hfits : PadFits block data.length := by
    refine ⟨by omega, ?_⟩
    rcases hmod with hmod | hmod
    · exact .inl (by rw [hmod, hself])
    · exact .inr (by omega)
  have hsize : fillerSize block data.length = block - data.length - 3 := by
    rw [fillerSize]
    rcases hmod with hmod | hmod
    · rw [if_pos (by rw [hmod, hself])]
      omega
    · rw [if_neg (by omega)]
      omega
  exact pkcs1Pad_eq hblock hfits (hsize ▸ hfill)

/-- One or two octets less than the block cannot be padded. -/
theorem pkcs1_near_block (hblock : 3 < block) (hlong : block < data.length + 3) (hshort : data.length < block) :
    pkcs1Pad type fill block data = .error .assertion := by
  apply pkcs1Pad_faults hblock
  rintro ⟨-, hrest⟩
  rw [Nat.mod_eq_sub_mod (by omega), Nat.mod_eq_of_lt (by omega)] at hrest
  omega

/-- A full block is padded to two. -/
theorem pkcs1_two_blocks (hblock : 3 < block) (hlt : block < 2 ^ 29) (hfull : data.length = block)
    (hfill : fill (block - 3) = some filler) :
    pkcs1Pad type fill block data = .ok (some (0x00 :: type :: filler ++ 0x00 :: data)) := by
  have hmod : (data.length + 3) % block = 3 % block := by rw [hfull, Nat.add_mod_left]
  have hsmall : 3 % block = 3 := Nat.mod_eq_of_lt hblock
  have hsize : fillerSize block data.length = block - 3 := by rw [fillerSize, if_neg (by omega), hmod, hsmall]
  exact pkcs1Pad_eq hblock ⟨by omega, by omega⟩ (hsize ▸ hfill)

theorem zeroPad_eq (hpos : data ≠ []) (hle : data.length ≤ block) (hlt : block < 2 ^ 29) :
    eggPaddingZeroPad block data = .ok (some (replicate (block - data.length) 0x00 ++ data)) := by
  have hlength := length_pos_iff.2 hpos
  have hsize : gsize (data.length + (block - 1)) / block * block = block := by
    rw [gsize_of_lt (by omega), roundUp_eq _ (by omega)]
    rcases hle.eq_or_lt with heq | hless
    · rw [heq, Nat.mod_self, if_pos rfl, Nat.add_zero]
    · rw [Nat.mod_eq_of_lt hless, if_neg (by omega)]
      omega
  rw [eggPaddingZeroPad, if_neg (by omega)]
  dsimp only
  rw [hsize, cAssert_of_true hle, ok_bind, cAssert_of_true (by omega), ok_bind]
  rfl

/-! ## Which data is padded as it should be -/

/-- The number of octets with a type in front is as large as their number allows. -/
theorem le_decode_typed (htype : type ≠ 0) (rest : Bytes) :
    256 ^ rest.length ≤ decode (0x00 :: type :: rest) := by
  have hpos : 1 ≤ type.toNat := by
    rw [Nat.one_le_iff_ne_zero]
    exact fun h => htype (UInt8.toNat_inj.1 h)
  calc 256 ^ rest.length = 1 * 256 ^ rest.length := (Nat.one_mul _).symm
    _ ≤ type.toNat * 256 ^ rest.length := Nat.mul_le_mul_right _ hpos
    _ ≤ decode (type :: rest) := Nat.le_add_right _ _
    _ ≤ decode (0x00 :: type :: rest) := Nat.le_add_left _ _

/-- The run for data that is not too long. -/
theorem dataToSexp_of_le (hle : data.length ≤ dataBlock nbits) :
    gkmCryptoDataToSexp random format nbits (some padding) (some data) =
      (padding.pad random (dataBlock nbits) data >>= fun r =>
        match r with
        | none => pure (.error ckrDataLenRange)
        | some padded => pure (.ok { format := format, mpi := decode padded })) := by
  rw [gkmCryptoDataToSexp]
  exact if_neg (Nat.not_lt.2 hle)

theorem dataToSexp_of_lt (hlt : dataBlock nbits < data.length) :
    gkmCryptoDataToSexp random format nbits (some padding) (some data) = .ok (.error ckrDataLenRange) := by
  rw [gkmCryptoDataToSexp]
  exact if_pos hlt

/-- The filler of the block type 1. -/
theorem onesFiller_spec (n : Nat) (_ : n < 2 ^ 32) :
    ∃ filler, some (replicate n (0xff : UInt8)) = some filler ∧ filler.length = n ∧ 0 ∉ filler :=
  ⟨_, rfl, length_replicate, fun h => absurd (eq_of_mem_replicate h) (by decide)⟩

/-- A PKCS#1 padding is right for the data that leaves room for three octets. -/
theorem pkcs1_octets_iff (hpad : padding.pad random = pkcs1Pad type fill)
    (hshape : padding.Octets = Pkcs1Octets type) (htype : type ≠ 0)
    (hfill : ∀ n < 2 ^ 32, ∃ filler, fill n = some filler ∧ filler.length = n ∧ 0 ∉ filler) (hbits : 32 ≤ nbits.toNat) (hpos : data ≠ []) :
    InputRight format nbits padding data (gkmCryptoDataToSexp random format nbits (some padding) (some data)) ↔
      dataBlock nbits < data.length ∨ data.length + 3 ≤ dataBlock nbits := by
  have hlength := length_pos_iff.2 hpos
  have hlt := @dataBlock_lt nbits
  have hbound := Nat.lt_or_ge (dataBlock nbits) data.length
  rcases hbound with hlong | hle
  · exact iff_of_true (.inl (dataToSexp_of_lt hlong)) (.inl hlong)
  · have hsize := dataBlock_cases hbits
    rw [dataToSexp_of_le hle, hpad]
    have hfour : 3 < dataBlock nbits := by omega
    have hceil : dataBlock nbits = (nbits.toNat + 7) / 8 := by omega
    by_cases hroom : data.length + 3 ≤ dataBlock nbits
    · obtain ⟨filler, hfiller, hsize, hzero⟩ := hfill (dataBlock nbits - data.length - 3) (by omega)
      rw [pkcs1_one_block hfour hlt hpos hroom hfiller, ok_bind]
      refine iff_of_true (.inr ⟨_, ?_, ?_, rfl⟩) (.inr hroom)
      · rw [length_append, length_cons, length_cons, length_cons, hsize]
        omega
      · rw [hshape]
        exact ⟨_, hzero, rfl⟩
    · refine iff_of_false ?_ (by omega)
      rcases hle.lt_or_eq with hshort | hfull
      · rw [pkcs1_near_block hfour (by omega) hshort]
        rintro (hrun | ⟨padded, -, -, hrun⟩)
        · exact nomatch hrun
        · exact nomatch hrun
      · -- a number of two blocks is no number of one
        obtain ⟨filler, hfiller, hsize, -⟩ := hfill (dataBlock nbits - 3) (by omega)
        rw [pkcs1_two_blocks hfour hlt hfull hfiller, ok_bind]
        rintro (hrun | ⟨padded, hoctets, -, hrun⟩)
        · exact nomatch hrun
        · have hvalue := congrArg DataSexp.mpi (Except.ok.inj (Except.ok.inj hrun))
          have hless := decode_lt padded
          have hmore := le_decode_typed htype (filler ++ 0x00 :: data)
          rw [length_append, length_cons, hsize] at hmore
          dsimp only at hvalue
          rw [cons_append, cons_append] at hvalue
          rw [hvalue] at hmore
          have hpow := (Nat.pow_lt_pow_iff_right (by decide : 1 < 256)).1 (hmore.trans_lt hless)
          omega

/-- Zeros in front are right for all data. -/
theorem zero_octets (hbits : 32 ≤ nbits.toNat) (hpos : data ≠ []) :
    InputRight format nbits .zeroPad data
      (gkmCryptoDataToSexp random format nbits (some .zeroPad) (some data)) := by
  rcases Nat.lt_or_ge (dataBlock nbits) data.length with hlong | hle
  · exact .inl (dataToSexp_of_lt hlong)
  · have hlength := length_pos_iff.2 hpos
    have hsize := dataBlock_cases hbits
    rw [dataToSexp_of_le hle]
    show InputRight _ _ _ _ (eggPaddingZeroPad _ _ >>= _)
    rw [zeroPad_eq hpos hle dataBlock_lt, ok_bind]
    refine .inr ⟨_, ?_, ⟨_, rfl⟩, rfl⟩
    rw [length_append, length_replicate]
    omega

/-- The data that becomes a number of as many octets as the modulus has, or is refused. -/
theorem padded_input_right_iff (random : RandomSource) (format : Bytes) (nbits : UInt32)
    (padding : InputPadding) (data : Bytes) (hbits : 32 ≤ nbits.toNat) (hpos : data ≠ []) :
    InputRight format nbits padding data (gkmCryptoDataToSexp random format nbits (some padding) (some data)) ↔
      padding = .zeroPad ∨ dataBlock nbits < data.length ∨ data.length + 3 ≤ dataBlock nbits := by
  cases padding with
  | pkcs1Pad01 =>
    rw [or_iff_right (fun h => nomatch h)]
    refine @pkcs1_octets_iff random _ _ .pkcs1Pad01 _ 0x01 _ rfl rfl (by decide) onesFiller_spec hbits hpos
  | pkcs1Pad02 =>
    rw [or_iff_right (fun h => nomatch h)]
    exact @pkcs1_octets_iff random _ _ .pkcs1Pad02 _ 0x02 random.filler rfl rfl (by decide)
      (fun _ => random.filler_spec) hbits hpos
  | zeroPad => exact iff_of_true (zero_octets hbits hpos) (.inl rfl)

theorem padded_input_right_sample :
    32 ≤ (64 : UInt32).toNat ∧ ascii "TEST" ≠ [] ∧
      (InputRight (ascii "(value %m)") 64 .pkcs1Pad02 (ascii "TEST")
          (gkmCryptoDataToSexp onesSource (ascii "(value %m)") 64 (some .pkcs1Pad02) (some (ascii "TEST"))) ↔
        InputPadding.pkcs1Pad02 = .zeroPad ∨ dataBlock 64 < (ascii "TEST").length ∨
          (ascii "TEST").length + 3 ≤ dataBlock 64) :=
  ⟨by decide, by decide,
    padded_input_right_iff onesSource (ascii "(value %m)") 64 .pkcs1Pad02 (ascii "TEST") (by decide) (by decide)⟩

/-- Seven octets for a modulus of eight end in an assertion, and eight octets become a number of sixteen. -/
theorem full_block_input_wrong :
    gkmCryptoDataToSexp onesSource (ascii "(value %m)") 64 (some .pkcs1Pad01) (some (ascii "MESSAGE")) =
        .error .assertion ∧
      ¬ InputRight (ascii "(value %m)") 64 .pkcs1Pad01 (ascii "MESSAGES")
        (gkmCryptoDataToSexp onesSource (ascii "(value %m)") 64 (some .pkcs1Pad01) (some (ascii "MESSAGES"))) := by
  refine ⟨rfl, ?_⟩
  rw [@pkcs1_octets_iff onesSource _ _ .pkcs1Pad01 _ 0x01 _ rfl rfl (by decide) onesFiller_spec (by decide)
    (by decide)]
  decide

end MateKeyring.Gkm
