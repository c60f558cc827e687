import Mathlib.Data.Nat.Digits.Lemmas
import MateKeyring.Asn1x.Paths

/-!
# Integers

`anode_write_integer_ulong` looks for the first zero byte from the right instead of the first byte from the
left that is not zero. So it writes the bytes of a number up to its lowest zero byte, and never the zero byte
in front of a number whose highest bit is set; and `anode_read_integer_as_ulong` shifts a byte as an `int`.
`integer_round_trip_iff` says for which numbers this gives the right contents and the number back.
-/

set_option autoImplicit false

namespace MateKeyring.Asn1x

open Lib BigEndian List

variable {content : Bytes} {value : Nat} {node : Node}

/-! ## What is written -/

/-- The number of bytes from the right before the first zero byte, among `k`. -/
def bytesUpToZero (k value : Nat) : Nat := ((encode k value).reverse.takeWhile (· ≠ 0)).length

theorem encode_succ_last (k value : Nat) :
    encode (k + 1) value = encode k (value / 256) ++ [UInt8.ofNat (value % 256)] := by
  induction k with
  | zero => simp [encode]
  | succ k ih =>
    rw [encode, ih, encode, cons_append, Nat.div_div_eq_div_mul, Nat.pow_succ, Nat.mul_comm 256]

theorem bytesUpToZero_succ (k value : Nat) :
    bytesUpToZero (k + 1) value = if value % 256 = 0 then 0 else bytesUpToZero k (value / 256) + 1 := by
  have hbyte : UInt8.ofNat (value % 256) = 0 ↔ value % 256 = 0 := by
    rw [← UInt8.toNat_inj]
    simp
  rw [bytesUpToZero, encode_succ_last, reverse_append, reverse_singleton, singleton_append,
    takeWhile_cons]
  by_cases hzero : value % 256 = 0
  · rw [if_pos hzero, hzero]
    rfl
  · have hne : UInt8.ofNat (value % 256) ≠ 0 := fun h => hzero (hbyte.1 h)
    rw [if_neg hzero, if_pos (decide_eq_true hne), length_cons]
    rfl

theorem bytesUpToZero_le (k value : Nat) : bytesUpToZero k value ≤ k := by
  induction k generalizing value with
  | zero => exact Nat.le_refl 0
  | succ k ih =>
    rw [bytesUpToZero_succ]
    split
    · exact Nat.zero_le _
    · exact Nat.succ_le_succ (ih _)

/-- Without a zero byte every byte is counted. -/
theorem bytesUpToZero_of_digits {k value : Nat} (hlt : value < 256 ^ k) (h : 0 ∉ Nat.digits 256 value) :
    bytesUpToZero k value = (Nat.digits 256 value).length := by
  induction k generalizing value with
  | zero =>
    have hzero : value = 0 := by simpa using hlt
    subst hzero
    rfl
  | succ k ih =>
    rcases Nat.eq_zero_or_pos value with rfl | hpos
    · rw [bytesUpToZero_succ, if_pos rfl]
      rfl
    · rw [Nat.digits_def' (by decide) hpos] at h ⊢
      rw [mem_cons, not_or] at h
      have hdiv : value / 256 < 256 ^ k := by
        rw [Nat.pow_succ] at hlt
        exact Nat.div_lt_of_lt_mul (by rwa [Nat.mul_comm])
      rw [bytesUpToZero_succ, if_neg (Ne.symm h.1), ih hdiv h.2, length_cons]

/-- A number that fits into the bytes that are counted has no zero byte. -/
theorem digits_of_bytesUpToZero {k value : Nat} (h : value < 256 ^ bytesUpToZero k value) :
    0 ∉ Nat.digits 256 value := by
  induction k generalizing value with
  | zero =>
    have hzero : value = 0 := by simpa [bytesUpToZero, encode] using h
    subst hzero
    exact not_mem_nil
  | succ k ih =>
    rw [bytesUpToZero_succ] at h
    split at h
    · have hzero : value = 0 := by simpa using h
      subst hzero
      exact not_mem_nil
    · rename_i hbyte
      have hpos : 0 < value := Nat.pos_of_ne_zero (by rintro rfl; exact hbyte rfl)
      have hdiv : value / 256 < 256 ^ bytesUpToZero k (value / 256) := by
        rw [Nat.pow_succ] at h
        exact Nat.div_lt_of_lt_mul (by rwa [Nat.mul_comm])
      rw [Nat.digits_def' (by decide) hpos, mem_cons, not_or]
      exact ⟨Ne.symm hbyte, ih hdiv⟩

theorem drop_encode {j k : Nat} (h : j ≤ k) (value : Nat) :
    (encode k value).drop (k - j) = encode j value := by
  induction k with
  | zero =>
    have : j = 0 := by omega
    subst this
    rfl
  | succ k ih =>
    rcases Nat.lt_or_ge k j with hlt | hle
    · have : j = k + 1 := by omega
      subst this
      rw [Nat.sub_self, drop_zero]
    · rw [encode, Nat.succ_sub hle, drop_succ_cons, ih hle]

/-- What is written are the last bytes, up to the first zero byte. -/
theorem anodeWriteIntegerUlong_eq (value : Nat) :
    anodeWriteIntegerUlong value = encode (max 1 (bytesUpToZero 8 value)) value := by
  have hle := bytesUpToZero_le 8 value
  have hmax : (if bytesUpToZero 8 value = 0 then 1 else bytesUpToZero 8 value) =
      max 1 (bytesUpToZero 8 value) := by
    split <;> omega
  have hwrite : anodeWriteIntegerUlong value = (encode 8 value).drop
      (8 - if bytesUpToZero 8 value = 0 then 1 else bytesUpToZero 8 value) := rfl
  rw [hwrite, hmax]
  exact drop_encode (by omega) value

/-! ## What is read -/

/-- A byte whose shift stays below the sign. -/
theorem shiftByte_eq {b : UInt8} {k : Nat} (hk : k < 4) (h : b.toNat * 256 ^ k < 2 ^ 31) :
    shiftByte b (8 * k) = b.toNat * 256 ^ k := by
  have hshift : 2 ^ (8 * k % 32) = 256 ^ k := by
    rw [Nat.mod_eq_of_lt (by omega), Nat.pow_mul]
  have hcast : (b.toNat : Int) * 2 ^ (8 * k % 32) = ((b.toNat * 256 ^ k : Nat) : Int) := by
    rw [← hshift]
    push_cast
    rfl
  rw [shiftByte, hcast, gint_of_lt h, Int.emod_eq_of_lt (Int.natCast_nonneg _) (by omega),
    Int.toNat_natCast]

/-- The loop of `anode_read_integer_as_ulong` behind the bytes that `acc` has. -/
theorem foldl_shiftByte (n k : Nat) (content : Bytes) (acc : Nat) (hn : k + content.length = n)
    (hlen : content.length ≤ 4) (hacc : 256 ^ content.length ∣ acc)
    (hlt : decode content < 2 ^ 31) :
    ((content.zipIdx k).map fun p => shiftByte p.1 (8 * (n - 1 - p.2))).foldl (· ||| ·) acc =
      acc + decode content := by
  induction content generalizing k acc with
  | nil => rfl
  | cons b content ih =>
    rw [length_cons] at hn hlen hacc
    rw [decode] at hlt ⊢
    have hplace : n - 1 - k = content.length := by omega
    have hshift : shiftByte b (8 * content.length) = b.toNat * 256 ^ content.length :=
      shiftByte_eq (by omega) (Nat.lt_of_le_of_lt (Nat.le_add_right _ _) hlt)
    -- the bits of `acc` are above those of the byte
    have hor : acc ||| b.toNat * 256 ^ content.length = acc + b.toNat * 256 ^ content.length := by
      obtain ⟨high, rfl⟩ := hacc
      have hpow : 256 ^ (content.length + 1) = 2 ^ (8 * (content.length + 1)) := by
        rw [Nat.pow_mul]
      have hbelow : b.toNat * 256 ^ content.length < 2 ^ (8 * (content.length + 1)) := by
        rw [← hpow, Nat.pow_succ, Nat.mul_comm]
        exact Nat.mul_lt_mul_of_pos_left b.toNat_lt (Nat.pow_pos (by decide))
      rw [hpow]
      exact (Nat.two_pow_add_eq_or_of_lt hbelow high).symm
    have hdvd : 256 ^ content.length ∣ acc + b.toNat * 256 ^ content.length :=
      Nat.dvd_add ((Nat.pow_dvd_pow 256 (Nat.le_succ _)).trans hacc) (Nat.dvd_mul_left _ _)
    rw [zipIdx_cons, map_cons, foldl_cons]
    rw [hplace, hshift, hor, ih (k + 1) _ (by omega) (by omega) hdvd
      (Nat.lt_of_le_of_lt (Nat.le_add_left _ _) hlt), Nat.add_assoc]

/-- Contents below the sign of an `int` are read as they are. -/
theorem anodeReadIntegerAsUlong_of_lt (hpos : 0 < content.length) (hlen : content.length ≤ 4)
    (hlt : decode content < 2 ^ 31) :
    anodeReadIntegerAsUlong content = some (decode content) := by
  have hloop := foldl_shiftByte content.length 0 content 0 (Nat.zero_add _) hlen (Nat.dvd_zero _) hlt
  rw [Nat.zero_add] at hloop
  rw [anodeReadIntegerAsUlong, if_neg (by omega), hloop]

/-- What a byte becomes is below the sign of an `int`, or has the sign of a `long`. -/
theorem shiftByte_range (b : UInt8) (shift : Nat) :
    shiftByte b shift < 2 ^ 31 ∨ 2 ^ 63 ≤ shiftByte b shift := by
  rw [shiftByte, gint]
  generalize (b.toNat * 2 ^ (shift % 32) : Int) = x
  have hlow := @Int.le_bmod x (2 ^ 32) (by decide)
  have hhigh := @Int.bmod_lt x (2 ^ 32) (by decide)
  generalize Int.bmod x (2 ^ 32) = y at hlow hhigh
  norm_num at hlow hhigh ⊢
  omega

/-- No number between the two signs is ever read. -/
theorem anodeReadIntegerAsUlong_range (h : anodeReadIntegerAsUlong content = some value) :
    value < 2 ^ 31 ∨ 2 ^ 63 ≤ value := by
  have hloop : ∀ (bytes : List (UInt8 × Nat)) (acc : Nat), (acc < 2 ^ 31 ∨ 2 ^ 63 ≤ acc) →
      ((bytes.map fun p => shiftByte p.1 (8 * (content.length - 1 - p.2))).foldl (· ||| ·) acc < 2 ^ 31 ∨
        2 ^ 63 ≤ (bytes.map fun p => shiftByte p.1 (8 * (content.length - 1 - p.2))).foldl
          (· ||| ·) acc) := by
    intro bytes
    induction bytes with
    | nil => exact fun acc hacc => hacc
    | cons p bytes ih =>
      intro acc hacc
      apply ih
      rcases hacc with hacc | hacc
      · rcases shiftByte_range p.1 (8 * (content.length - 1 - p.2)) with hb | hb
        · exact .inl (Nat.or_lt_two_pow hacc hb)
        · exact .inr (hb.trans Nat.right_le_or)
      · exact .inr (hacc.trans Nat.left_le_or)
  rw [anodeReadIntegerAsUlong] at h
  split at h
  · exact absurd h.symm (Option.some_ne_none _)
  · cases h
    exact hloop content.zipIdx 0 (.inl (by decide))

/-! ## The round trip -/

/-- The value of some contents in two's complement. -/
def twosComplement (content : Bytes) : Int :=
  if 2 * decode content < 256 ^ content.length then (decode content : Int)
  else (decode content : Int) - (256 ^ content.length : Nat)

/-- The contents of an integer in DER: two's complement in as few bytes as possible, one at least. -/
structure IsDerInteger (content : Bytes) (value : Int) : Prop where
  nonempty : content ≠ []
  value_eq : twosComplement content = value
  shortest : ∀ other : Bytes, other ≠ [] → twosComplement other = value →
    content.length ≤ other.length

/-- A value that is not negative leaves the highest bit clear. -/
theorem twosComplement_eq_natCast :
    twosComplement content = value ↔ decode content = value ∧ 2 * value < 256 ^ content.length := by
  have hlt := decode_lt content
  rw [twosComplement]
  split
  · rename_i hclear
    constructor
    · intro h
      have heq : decode content = value := by exact_mod_cast h
      exact ⟨heq, heq ▸ hclear⟩
    · intro h
      rw [h.1]
  · rename_i hset
    constructor
    · intro h
      omega
    · rintro ⟨heq, hclear⟩
      rw [heq] at hset
      exact absurd hclear hset

/-- An `INTEGER` node without a tag of its own and without a list of constants. -/
structure PlainInteger (node : Node) : Prop where
  unset : node.Unset
  kind : node.kind = .integer
  leaf : node.children = []
  untagged : node.flags.tag = false
  unlisted : node.flags.list = false

/-- A number that is set in a node, encoded, decoded into the same node and read again comes back, and its
contents are those of DER. -/
def IntegerRoundTrip (readTime : TimeReader) (fuel : Nat) (node : Node) (value : Nat) :
    Prop :=
  ∃ set content, eggAsn1xSetIntegerAsUlong value node = .ok set ∧
    eggAsn1xEncode readTime set = .ok (some (element asn1ClassUniversal 2 content)) ∧
    IsDerInteger content value ∧
    ∃ node', eggAsn1xDecode readTime fuel node (element asn1ClassUniversal 2 content) = .ok (true, node') ∧
      eggAsn1xGetIntegerAsUlong node' = some value

/-- A number of which every byte is written: none of them is zero, the highest bit of the first is clear, and
it is below the sign of an `int`. -/
def Writable (value : Nat) : Prop :=
  0 ∉ Nat.digits 256 value ∧ 2 * value < 256 ^ (Nat.digits 256 value).length ∧ value < 2 ^ 31

instance (value : Nat) : Decidable (Writable value) := inferInstanceAs (Decidable (_ ∧ _ ∧ _))

theorem length_anodeWriteIntegerUlong (value : Nat) :
    (anodeWriteIntegerUlong value).length = max 1 (bytesUpToZero 8 value) := by
  rw [anodeWriteIntegerUlong_eq, length_encode]

theorem fits_integer (h : PlainInteger node) (hne : content ≠ []) :
    Fits node (.element asn1ClassUniversal 2 content) := by
  have hheader : headerFits node asn1ClassUniversal 2 = true := by
    rw [headerFits, h.kind]
    rfl
  have hvalid : contentValid node content = true := by
    rw [contentValid, h.kind, h.unlisted]
    simpa using hne
  rw [Fits]
  exact ⟨h.unset, h.leaf, h.untagged, by decide, by decide, hheader, hvalid⟩

theorem eggAsn1xClear_of_leaf (hunset : node.Unset) (hleaf : node.children = []) :
    eggAsn1xClear node = node := by
  obtain ⟨⟨row, join, opts, tlv, enc, chosen⟩, children⟩ := node
  obtain rfl : tlv = none := hunset.1
  obtain rfl : enc = none := hunset.2
  obtain rfl : children = [] := hleaf
  rw [eggAsn1xClear, eggAsn1xClearList, take_nil, ite_self]
  rfl

/-- Every number is encoded and decoded; what is read is what its bytes are read as. -/
theorem integerRoundTrip_iff_contents (readTime : TimeReader) {fuel : Nat} (hfuel : 0 < fuel)
    (h : PlainInteger node) (value : Nat) :
    IntegerRoundTrip readTime fuel node value ↔ IsDerInteger (anodeWriteIntegerUlong value) value ∧
      anodeReadIntegerAsUlong (anodeWriteIntegerUlong value) = some value := by
  have hlength := length_anodeWriteIntegerUlong value
  have hle := bytesUpToZero_le 8 value
  generalize hcontent : anodeWriteIntegerUlong value = content at hlength
  have hne : content ≠ [] := length_pos_iff.1 (by omega)
  have hfits := fits_integer h hne
  have hnotAny : node.kind ≠ .any := by
    rw [h.kind]
    decide
  have hsmall : content.length < 2 ^ 31 := by omega
  have hsize : (Value.element asn1ClassUniversal 2 content).bytes.length < 2 ^ 31 := by
    rw [Value.bytes, length_element, length_anodeEncodeClsTagLen _ (by decide), anodeEncodeLength,
      if_pos (by omega), length_singleton]
    omega
  have hset : eggAsn1xSetIntegerAsUlong value node =
      .ok (loaded (.element asn1ClassUniversal 2 content) node) := by
    rw [eggAsn1xSetIntegerAsUlong, hcontent]
    exact encodeTlvAndEnc_load hfits hnotAny hsmall
  have hencode := eggAsn1xEncode_value readTime hfits rfl hsize
  have hdecode := eggAsn1xDecode_value readTime hfits rfl (eggAsn1xClear_of_leaf h.unset h.leaf)
    hfuel hsize
  have hget := getInteger_filled asn1ClassUniversal 2 content node []
  constructor
  · rintro ⟨set, content', hset', henc, hder, node', hdec, hread⟩
    obtain rfl := Except.ok.inj (hset.symm.trans hset')
    rw [hencode, Value.bytes] at henc
    obtain rfl : content = content' :=
      element_inj (by decide) (by decide) hsize (Option.some.inj (Except.ok.inj henc))
    rw [Value.bytes] at hdecode
    rw [hdecode] at hdec
    obtain rfl : filled (.element asn1ClassUniversal 2 content) node [] = node' :=
      congrArg Prod.snd (Except.ok.inj hdec)
    exact ⟨hder, hget ▸ hread⟩
  · rintro ⟨hder, hread⟩
    rw [Value.bytes] at hencode
    exact ⟨_, content, hset, hencode, hder, _, hdecode, hget.trans hread⟩

/-- The contents of a number all of whose bytes are written. -/
theorem anodeWriteIntegerUlong_of_writable (h : Writable value) :
    anodeWriteIntegerUlong value = encode (max 1 (Nat.digits 256 value).length) value := by
  have hlt : value < 256 ^ 8 := by
    have := h.2.2
    omega
  rw [anodeWriteIntegerUlong_eq, bytesUpToZero_of_digits hlt h.1]

/-- A number all of whose bytes are written is read. -/
theorem anodeReadIntegerAsUlong_write (h : Writable value) :
    anodeReadIntegerAsUlong (anodeWriteIntegerUlong value) = some value := by
  have hdigits : (Nat.digits 256 value).length ≤ 4 := by
    rw [Nat.digits_length_le_iff (by decide)]
    have := h.2.2
    omega
  have hfits : value < 256 ^ max 1 (Nat.digits 256 value).length :=
    Nat.lt_of_lt_of_le (Nat.lt_base_pow_length_digits (by decide))
      (Nat.pow_le_pow_right (by decide) (Nat.le_max_right _ _))
  have hdecode := decode_encode_of_lt hfits
  rw [anodeWriteIntegerUlong_of_writable h, anodeReadIntegerAsUlong_of_lt, hdecode]
  · rw [length_encode]
    omega
  · rw [length_encode]
    omega
  · rw [hdecode]
    exact h.2.2

/-- The contents that are written are those of DER if every byte is written. -/
theorem isDerInteger_write (h : Writable value) :
    IsDerInteger (anodeWriteIntegerUlong value) value := by
  obtain ⟨-, hclear, -⟩ := id h
  have hle : 256 ^ (Nat.digits 256 value).length ≤ 256 ^ max 1 (Nat.digits 256 value).length :=
    Nat.pow_le_pow_right (by decide) (Nat.le_max_right _ _)
  rw [anodeWriteIntegerUlong_of_writable h]
  refine ⟨?_, ?_, ?_⟩
  · apply length_pos_iff.1
    rw [length_encode]
    omega
  · rw [twosComplement_eq_natCast, length_encode]
    exact ⟨decode_encode_of_lt (by omega), by omega⟩
  · intro other hne hvalue
    obtain ⟨-, hroom⟩ := twosComplement_eq_natCast.1 hvalue
    have hpos := length_pos_iff.2 hne
    have hdigits : (Nat.digits 256 value).length ≤ other.length := by
      rw [Nat.digits_length_le_iff (by decide)]
      omega
    rw [length_encode]
    omega

/-- `egg_asn1x_set_integer_as_ulong`, `egg_asn1x_encode`, `egg_asn1x_decode` and
`egg_asn1x_get_integer_as_ulong` give a number below `2 ^ 63` back, through the contents of DER, exactly if
none of its bytes is zero, the highest bit of its first byte is clear and it is below `2 ^ 31`. -/
theorem integer_round_trip_iff (readTime : TimeReader) (fuel : Nat) (hfuel : 0 < fuel)
    (node : Node) (h : PlainInteger node) (value : Nat) (hvalue : value < 2 ^ 63) :
    IntegerRoundTrip readTime fuel node value ↔ Writable value := by
  rw [integerRoundTrip_iff_contents readTime hfuel h]
  constructor
  · rintro ⟨hder, hread⟩
    have hsmall : value < 2 ^ 31 := (anodeReadIntegerAsUlong_range hread).resolve_right (by omega)
    obtain ⟨hdecode, hclear⟩ := twosComplement_eq_natCast.1 hder.value_eq
    rw [length_anodeWriteIntegerUlong] at hclear
    -- the bytes up to the first zero byte are all there is of the number
    have hdigits : 0 ∉ Nat.digits 256 value := by
      rcases Nat.eq_zero_or_pos (bytesUpToZero 8 value) with hzero | hpos
      · have hbyte : value % 256 = 0 := by
          rw [bytesUpToZero_succ] at hzero
          by_contra hne
          rw [if_neg hne] at hzero
          exact absurd hzero (Nat.succ_ne_zero _)
        rw [hzero, max_eq_left (Nat.zero_le 1), Nat.pow_one] at hclear
        have hnone : value = 0 := by omega
        rw [hnone, Nat.digits_zero]
        exact not_mem_nil
      · apply @digits_of_bytesUpToZero 8
        rw [max_eq_right hpos] at hclear
        omega
    have hlength := bytesUpToZero_of_digits (show value < 256 ^ 8 by omega) hdigits
    refine ⟨hdigits, ?_, hsmall⟩
    rw [hlength] at hclear
    rcases Nat.eq_zero_or_pos value with rfl | hpos
    · decide
    · have hne : 0 < (Nat.digits 256 value).length :=
        length_pos_iff.2 (Nat.digits_ne_nil_iff_ne_zero.2 (by omega))
      rwa [max_eq_right hne] at hclear
  · intro hwritable
    exact ⟨isDerInteger_write hwritable, anodeReadIntegerAsUlong_write hwritable⟩

/-- An `INTEGER` node without a name. -/
def bareInteger : Node := .mk { row := { kind := .integer } } []

theorem plainInteger_bare : PlainInteger bareInteger := ⟨⟨rfl, rfl⟩, rfl, rfl, rfl, rfl⟩

theorem integer_round_trip_at_35 :
    35 < 2 ^ 63 ∧ (IntegerRoundTrip (fun _ _ => false) 1 bareInteger 35 ↔ Writable 35) :=
  ⟨by decide, integer_round_trip_iff (fun _ _ => false) 1 (by decide) bareInteger
    plainInteger_bare 35 (by decide)⟩

/-- The iteration count 1024 is written as zero. -/
theorem integer_1024_not_round_trip : ¬ IntegerRoundTrip (fun _ _ => false) 1 bareInteger 1024 := by
  rw [integerRoundTrip_iff_contents _ (by decide) plainInteger_bare]
  rintro ⟨-, hread⟩
  have hwrong : anodeReadIntegerAsUlong (anodeWriteIntegerUlong 1024) = some 0 := by decide
  rw [hwrong] at hread
  exact absurd hread (by decide)

end MateKeyring.Asn1x
