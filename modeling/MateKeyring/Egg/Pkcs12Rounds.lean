import MateKeyring.Egg.Pkcs12

/-!
# The rounds of a key of PKCS#12

The first octets that `generate_pkcs12` hashes are those of RFC 7292 if and only if there is a salt of one block
and a password of one block (`first_octets_iff`). From then on the two go on alike for as long as no sum begins
with a zero octet (`sameRounds_iff`), and so the key is that of RFC 7292 (`hashAndBash_eq`).
-/

set_option autoImplicit false

namespace MateKeyring.Egg

open Lib BigEndian List

variable {password salt : Option Bytes} {bufI : List Bytes}

variable {md : Digest} {type : UInt8} {iterations : Nat}

/-! ## The voodoo -/

theorem blockSum_lt (hash block : Bytes) : blockSum hash block < 256 ^ 64 := by
  have hpow : 2 ^ (64 * 8) = 256 ^ 64 := by
    rw [Nat.mul_comm, Nat.pow_mul]
  rw [blockSum, hpow]
  exact Nat.mod_lt _ (Nat.pow_pos (by decide))

/-- What is printed is as long as a block only if the sum has an octet for each of its places. -/
theorem length_printed (hash block : Bytes) :
    (gcryMpiPrintUsg (blockSum hash block)).length ≤ 64 ∧
      ((gcryMpiPrintUsg (blockSum hash block)).length = 64 ↔ 256 ^ 63 ≤ blockSum hash block) := by
  rw [gcryMpiPrintUsg, length_encode]
  have hle : (Nat.digits 256 (blockSum hash block)).length ≤ 64 :=
    (Nat.digits_length_le_iff (by decide) _).2 (blockSum_lt hash block)
  have hge : 63 < (Nat.digits 256 (blockSum hash block)).length ↔ 256 ^ 63 ≤ blockSum hash block :=
    Nat.lt_digits_length_iff (by decide) _
  exact ⟨hle, by rw [← hge]; omega⟩

section

variable {hash block : Bytes} (hblock : block.length = 64)

include hblock

theorem length_voodoo : (voodoo hash block).length = 64 := by
  have hle := (length_printed hash block).1
  rw [voodoo, length_append, length_drop, hblock]
  omega

/-- The octets that the voodoo leaves stand for the sum and what stays behind it. -/
theorem decode_voodoo :
    decode (voodoo hash block) =
      blockSum hash block * 256 ^ (64 - (gcryMpiPrintUsg (blockSum hash block)).length) +
        decode (block.drop (gcryMpiPrintUsg (blockSum hash block)).length) := by
  have hprinted : decode (gcryMpiPrintUsg (blockSum hash block)) = blockSum hash block :=
    decode_encode_of_lt (Nat.lt_base_pow_length_digits (by decide))
  rw [voodoo, decode_append, hprinted, length_drop, hblock]

/-- The voodoo gives the sum of RFC 7292 just if nothing stays behind it. -/
theorem voodoo_eq_iff :
    voodoo hash block = encode 64 (blockSum hash block) ↔ SumKept hash block := by
  have hlt := blockSum_lt hash block
  obtain ⟨hle, hfull⟩ := length_printed hash block
  have hdecode := @decode_voodoo hash block hblock
  constructor
  · intro h
    rw [h, decode_encode_of_lt hlt] at hdecode
    rcases hle.lt_or_eq with hshort | hlong
    · right
      -- a number that is not less than itself over and over is zero
      have hpow : 256 ≤ 256 ^ (64 - (gcryMpiPrintUsg (blockSum hash block)).length) :=
        Nat.le_self_pow (by omega) 256
      have hmul := Nat.mul_le_mul_left (blockSum hash block) hpow
      have hzero : blockSum hash block = 0 := by omega
      have hnone : (gcryMpiPrintUsg (blockSum hash block)).length = 0 := by
        rw [gcryMpiPrintUsg, length_encode, hzero, Nat.digits_zero, length_nil]
      rw [hnone, drop_zero, hzero, Nat.zero_mul, Nat.zero_add] at hdecode
      exact ⟨hzero, hdecode.symm⟩
    · left
      exact hfull.1 hlong
  · intro h
    rw [← encode_decode (voodoo hash block), length_voodoo hblock]
    rcases h with hlarge | ⟨hzero, hblank⟩
    · have hnone : block.drop 64 = [] := drop_of_length_le hblock.le
      rw [hdecode, hfull.2 hlarge, hnone, Nat.sub_self, Nat.pow_zero, Nat.mul_one, decode, Nat.add_zero]
    · have hnone : (gcryMpiPrintUsg (blockSum hash block)).length = 0 := by
        rw [gcryMpiPrintUsg, length_encode, hzero, Nat.digits_zero, length_nil]
      rw [hdecode, hnone, hzero, drop_zero, hblank, Nat.zero_mul]

end

/-! ## Rounds -/

theorem blocks_nextBlocks (blocks : List Bytes) : Blocks (nextBlocks md type iterations blocks) := by
  intro block hblock
  obtain ⟨_, -, rfl⟩ := mem_map.1 hblock
  exact length_encode 64 _

theorem blocks_voodoo (hash : Bytes) (h : Blocks bufI) : Blocks (bufI.map (voodoo hash)) := by
  intro block hblock
  obtain ⟨before, hbefore, rfl⟩ := mem_map.1 hblock
  exact length_voodoo (h before hbefore)

variable {blocks : List Bytes}

/-- The blocks of the next round are the same if no sum begins with a zero. -/
theorem map_voodoo_eq_iff (h : Blocks blocks) :
    blocks.map (voodoo (pkcs12Digest md type iterations blocks)) = nextBlocks md type iterations blocks ↔
      ∀ block ∈ blocks, SumKept (pkcs12Digest md type iterations blocks) block := by
  rw [nextBlocks, map_inj_left]
  constructor
  · intro heq block hblock
    exact (voodoo_eq_iff (h block hblock)).1 (heq block hblock)
  · intro hkept block hblock
    exact (voodoo_eq_iff (h block hblock)).2 (hkept block hblock)

/-- From the same first octets on, the rounds are the same just if no sum begins with a zero. -/
theorem sameRounds_iff {halves rounds : Nat} {bufI : List Bytes} (hbuf : Blocks bufI)
    (hblocks : Blocks blocks) (hfirst : bufI.take halves = blocks) :
    SameRounds md type iterations halves (rounds + 1) bufI blocks ↔
      NoLeadingZeros md type iterations rounds blocks := by
  induction rounds generalizing bufI blocks with
  | zero =>
    rw [SameRounds, hfirst]
    exact iff_of_true ⟨rfl, trivial⟩ trivial
  | succ rounds ih =>
    have hbuf' := blocks_voodoo (pkcs12Digest md type iterations blocks) hbuf
    have htake : (bufI.map (voodoo (pkcs12Digest md type iterations blocks))).take halves =
        blocks.map (voodoo (pkcs12Digest md type iterations blocks)) := by
      rw [← map_take, hfirst]
    have hnext := @blocks_nextBlocks md type iterations blocks
    rw [SameRounds, NoLeadingZeros, hfirst]
    constructor
    · rintro ⟨-, hrounds⟩
      have hsame := hbuf'.take halves |>.flatten_inj hnext hrounds.1
      rw [htake] at hsame
      exact ⟨(map_voodoo_eq_iff hblocks).1 hsame, (ih hbuf' hnext (htake.trans hsame)).1 hrounds⟩
    · rintro ⟨hkept, hrounds⟩
      have hsame := (map_voodoo_eq_iff hblocks).2 hkept
      exact ⟨rfl, (ih hbuf' hnext (htake.trans hsame)).2 hrounds⟩

variable {n : Nat}

/-- A round less is needed when a digest has been taken. -/
theorem roundsFor_succ (hsize : 0 < md.size) (hn : 0 < n) : roundsFor md n = roundsFor md (n - md.size) + 1 := by
  rw [roundsFor, roundsFor]
  rcases Nat.le_total n md.size with hle | hge
  · rw [Nat.sub_eq_zero_of_le hle, Nat.zero_add, Nat.div_eq_of_lt (by omega : md.size - 1 < md.size), Nat.zero_add]
    exact Nat.div_eq_of_lt_le (by omega) (by omega)
  · have hsplit : n + (md.size - 1) = n - md.size + (md.size - 1) + md.size := by omega
    rw [hsplit, Nat.add_div_right _ hsize]

theorem length_pkcs12Digest (blocks : List Bytes) :
    (pkcs12Digest md type iterations blocks).length = md.size :=
  length_rehash md _ _ (md.length_hash _)

/-- Where the rounds are the same, so is what is generated. -/
theorem hashAndBash_eq (hsize : 0 < md.size) {halves fuel : Nat} {bufI : List Bytes}
    (hfuel : n < fuel) (hsame : SameRounds md type iterations halves (roundsFor md n) bufI blocks) :
    hashAndBash md type iterations halves fuel bufI n =
      some ((rfcRounds md type iterations (roundsFor md n) blocks).take n) := by
  induction fuel generalizing n bufI blocks with
  | zero => exact absurd hfuel (Nat.not_lt_zero n)
  | succ fuel ih =>
    rcases Nat.eq_zero_or_pos n with rfl | hn
    · rw [hashAndBash, take_zero]
      rfl
    · rw [roundsFor_succ hsize hn] at hsame ⊢
      obtain ⟨hoctets, hsame⟩ := hsame
      have hdigest : pkcs12Digest md type iterations (bufI.take halves) = pkcs12Digest md type iterations blocks := by
        rw [pkcs12Digest, hoctets, pkcs12Digest]
      have hlength := @length_pkcs12Digest md type iterations blocks
      rw [hdigest] at hsame
      rw [hashAndBash, rfcRounds, hdigest]
      generalize pkcs12Digest md type iterations blocks = hash at hsame hlength ⊢
      split
      · rename_i henough
        rw [length_take, hlength] at henough
        rw [take_append_of_le_length (by omega)]
      · rename_i hmore
        rw [length_take, hlength] at hmore ⊢
        -- the digest is taken as it is
        have hmin : min n md.size = md.size := by omega
        rw [hmin] at hmore ⊢
        rw [ih (by omega) hsame, take_append, take_of_length_le (by omega), hlength]
        rfl

/-! ## The first octets -/

theorem le_followBits (v : Nat) (s : Bytes) : v ≤ followBits v s := by
  rw [followBits]
  induction s generalizing v with
  | nil => exact Nat.le_refl v
  | cons b s ih =>
    rw [foldl_cons]
    exact le_trans (by omega) (ih _)

theorem le_of_inRange {lo hi c : UInt8} (h : inRange lo hi c = true) : lo.toNat ≤ c.toNat ∧ c.toNat ≤ hi.toNat := by
  rw [inRange, Bool.and_eq_true, decide_eq_true_eq, decide_eq_true_eq] at h
  exact ⟨UInt8.le_iff_toNat_le.1 h.1, UInt8.le_iff_toNat_le.1 h.2⟩

variable {a b : UInt8}

theorem not_lt_of_le_toNat (h : b.toNat ≤ a.toNat) : ¬ a < b :=
  UInt8.not_lt.2 (UInt8.le_iff_toNat_le.2 h)

theorem followBits_ne_zero {v : Nat} (s : Bytes) (hv : 0 < v) : followBits v s ≠ 0 :=
  Nat.pos_iff_ne_zero.1 (hv.trans_le (le_followBits v s))

variable {s : Bytes}

/-- The first bits of a character may all be in its second byte. -/
theorem followBits_second_ne_zero {v : Nat} (n : Nat)
    (hb : 0 < v ∨ 0 < b.toNat % 64) : followBits v ((b :: s).take (n + 1)) ≠ 0 := by
  rw [take_succ_cons]
  exact followBits_ne_zero (s.take n) (by omega : 0 < v * 64 + b.toNat % 64)

/-- Without an overlong form some of the first bits are there. -/
theorem bits_of_inRange {first last lo hi : UInt8} {m : Nat} (hfirst : a ≠ first → 0 < a.toNat % m)
    (hlast : first ≠ last) (hlo : 0x80 < lo.toNat)
    (h : inRange (if a = first then lo else 0x80) (if a = last then hi else 0xbf) b = true) :
    0 < a.toNat % m ∨ 0 < b.toNat % 64 := by
  by_cases ha : a = first
  · right
    rw [if_pos ha, if_neg (fun hl => hlast (ha.symm.trans hl))] at h
    have hge := (le_of_inRange h).1
    have hle : b.toNat ≤ 0xbf := (le_of_inRange h).2
    omega
  · left
    exact hfirst ha

/-- The first character of a valid text is not the null character. -/
theorem gUtf8GetChar_ne_zero (h : utf8Validate (a :: s) = true) : gUtf8GetChar (a :: s) ≠ 0 := by
  rw [utf8Validate.eq_def] at h
  dsimp only at h
  split at h
  · rename_i hone
    obtain ⟨hlo, hhi⟩ := le_of_inRange hone
    rw [gUtf8GetChar, if_pos (UInt8.lt_iff_toNat_lt.2 (Nat.lt_succ_of_le hhi))]
    exact Nat.pos_iff_ne_zero.1 hlo
  · split at h
    · rename_i htwo
      have hlo : 0xc2 ≤ a.toNat := (le_of_inRange htwo).1
      have hhi : a.toNat ≤ 0xdf := (le_of_inRange htwo).2
      have hone : ¬ a < 0x80 := not_lt_of_le_toNat (show 0x80 ≤ a.toNat by omega)
      rw [gUtf8GetChar, if_neg hone, if_pos (UInt8.lt_iff_toNat_lt.2 (Nat.lt_succ_of_le hhi))]
      exact followBits_ne_zero _ (by omega)
    · split at h
      · rename_i hthree
        have hlo : 0xe0 ≤ a.toNat := (le_of_inRange hthree).1
        have hhi : a.toNat ≤ 0xef := (le_of_inRange hthree).2
        have hone : ¬ a < 0x80 := not_lt_of_le_toNat (show 0x80 ≤ a.toNat by omega)
        rw [gUtf8GetChar, if_neg hone, if_neg (not_lt_of_le_toNat (b := 0xe0) hlo),
          if_pos (UInt8.lt_iff_toNat_lt.2 (Nat.lt_succ_of_le hhi))]
        split at h
        · rw [Bool.and_eq_true, Bool.and_eq_true] at h
          apply followBits_second_ne_zero 1
          refine bits_of_inRange ?_ (by decide) (by decide) h.1.1
          intro hne
          have hne' : a.toNat ≠ 0xe0 := fun he => hne (UInt8.toNat_inj.1 he)
          omega
        · exact absurd h Bool.false_ne_true
      · split at h
        · rename_i hfour
          have hlo : 0xf0 ≤ a.toNat := (le_of_inRange hfour).1
          have hhi : a.toNat ≤ 0xf4 := (le_of_inRange hfour).2
          have hone : ¬ a < 0x80 := not_lt_of_le_toNat (show 0x80 ≤ a.toNat by omega)
          have htwo : ¬ a < 0xe0 := not_lt_of_le_toNat (show 0xe0 ≤ a.toNat by omega)
          rw [gUtf8GetChar, if_neg hone, if_neg htwo, if_neg (not_lt_of_le_toNat (b := 0xf0) hlo)]
          split at h
          · rw [Bool.and_eq_true, Bool.and_eq_true, Bool.and_eq_true] at h
            apply followBits_second_ne_zero 2
            refine bits_of_inRange ?_ (by decide) (by decide) h.1.1.1
            intro hne
            have hne' : a.toNat ≠ 0xf0 := fun he => hne (UInt8.toNat_inj.1 he)
            omega
          · exact absurd h Bool.false_ne_true
        · exact absurd h Bool.false_ne_true

/-- The buffer, where there is an octet of salt or no salt at all. -/
theorem pkcs12Buffer_eq {salt password : Option Bytes} (h : pkcs12Buffer salt password = .ok bufI) :
    ∃ first, saltArea salt = .ok first ∧ bufI = [first, passwordHalf password] := by
  cases hfirst : saltArea salt with
  | error trap =>
    rw [pkcs12Buffer, hfirst] at h
    cases h
  | ok first =>
    rw [pkcs12Buffer, hfirst] at h
    exact ⟨first, rfl, (Except.ok.inj h).symm⟩

/-- The first blocks of RFC 7292, of a password that has a `BMPString`. -/
def firstBlocks (password salt : Option Bytes) : List Bytes :=
  copyBlocks (salt.getD []) ++ copyBlocks ((bmpPassword password).getD [])

theorem bmpPassword_some {text bmp : Bytes} (h : bmpPassword (some text) = some bmp) :
    (∀ c ∈ characters text, c < 2 ^ 16) ∧ bmp = (characters text).flatMap charBytes ++ charBytes 0 := by
  rw [bmpPassword] at h
  split at h
  · exact ⟨‹_›, (Option.some.inj h).symm⟩
  · cases h

theorem bmpPassword_of_lt {text : Bytes} (h : ∀ c ∈ characters text, c < 2 ^ 16) :
    bmpPassword (some text) = some ((characters text).flatMap charBytes ++ charBytes 0) := if_pos h

/-- Where they fit, the halves of the buffer that are hashed are the first blocks. -/
theorem take_buffer_of_fits (h : Pkcs12Fits password salt) :
    ∃ bufI bmp, pkcs12Buffer salt password = .ok bufI ∧ bmpPassword password = some bmp ∧
      bufI.take (hashedHalves password) = firstBlocks password salt := by
  obtain ⟨⟨s, rfl, hpos, hle⟩, htext⟩ := h
  have hs := length_pos_iff.1 hpos
  have hbuf : pkcs12Buffer (some s) password = .ok [cycleFrom s 64 s, passwordHalf password] := by
    rw [pkcs12Buffer, saltArea_some hs]
    rfl
  cases password with
  | none =>
    refine ⟨_, [], hbuf, rfl, ?_⟩
    rw [firstBlocks, Option.getD_some, copyBlocks_one hs hle]
    rfl
  | some text =>
    obtain ⟨hcount, hlt⟩ := htext text rfl
    have hbmp := bmpPassword_of_lt hlt
    refine ⟨_, _, hbuf, hbmp, ?_⟩
    have hlength : ((characters text).flatMap charBytes ++ charBytes 0).length = 2 * (characters text).length + 2 := by
      rw [length_append, length_flatMap_charBytes]
      rfl
    have hne : (characters text).flatMap charBytes ++ charBytes 0 ≠ [] :=
      append_ne_nil_of_right_ne_nil _ (cons_ne_nil _ _)
    rw [firstBlocks, hbmp, Option.getD_some, Option.getD_some, copyBlocks_one hs hle,
      copyBlocks_one hne (by omega), passwordHalf, passwordArea_eq]
    rfl

theorem saltArea_ok {salt first : Bytes} (h : saltArea (some salt) = .ok first) : 0 < salt.length := by
  rw [saltArea] at h
  split at h
  · cases h
  · exact Nat.pos_of_ne_zero ‹_›

/-- The first octets of the first block are those of the string. -/
theorem copyBlocks_first {block : Bytes}
    (h : copyBlocks (a :: b :: s) = block :: blocks) : block.take 2 = [a, b] := by
  have hpos : (a :: b :: s).length + 63 = s.length + 1 + 64 := rfl
  rw [copyBlocks, hpos, Nat.add_div_right _ (by decide),
    @range_succ_eq_map ((s.length + 1) / 64), map_cons] at h
  rw [← (List.cons.inj h).1, ← map_take]
  have hone : 1 % (a :: b :: s).length = 1 := Nat.mod_eq_of_lt (by rw [length_cons, length_cons]; omega)
  show [(a :: b :: s).getD (0 % (a :: b :: s).length) 0, (a :: b :: s).getD (1 % (a :: b :: s).length) 0] = _
  rw [hone, Nat.zero_mod]
  rfl

/-- The `BMPString` of a valid text does not begin with zeros. -/
theorem charBytes_ne_zeros {unich : Nat} (hpos : unich ≠ 0) (hlt : unich < 2 ^ 16) : charBytes unich ≠ [0, 0] := by
  intro h
  have hhigh : (UInt8.ofNat (unich / 256)).toNat = 0 := congrArg UInt8.toNat (List.cons.inj h).1
  have hlow : (UInt8.ofNat unich).toNat = 0 := congrArg UInt8.toNat (List.cons.inj (List.cons.inj h).2).1
  rw [UInt8.toNat_ofNat'] at hhigh hlow
  omega

/-- The first octets are those of RFC 7292 only if salt and password fit. -/
theorem fits_of_first {bmp : Bytes} (htext : ∀ text, password = some text → utf8Validate text = true)
    (hbuf : pkcs12Buffer salt password = .ok bufI) (hbmp : bmpPassword password = some bmp)
    (h : bufI.take (hashedHalves password) = copyBlocks (salt.getD []) ++ copyBlocks bmp) :
    Pkcs12Fits password salt := by
  obtain ⟨first, hfirst, rfl⟩ := pkcs12Buffer_eq hbuf
  have hlength := congrArg List.length h
  rw [length_append, length_copyBlocks, length_copyBlocks] at hlength
  cases password with
  | none =>
    rw [← Option.some.inj hbmp] at hlength
    have hone : 1 = ((salt.getD []).length + 63) / 64 := hlength
    refine ⟨?_, fun text htext => nomatch htext⟩
    cases salt with
    | none => exact absurd hone (by decide)
    | some s =>
      rw [Option.getD_some] at hone
      exact ⟨s, rfl, saltArea_ok hfirst, by omega⟩
  | some text =>
    obtain ⟨hlt, rfl⟩ := bmpPassword_some hbmp
    have hchars : ((characters text).flatMap charBytes ++ charBytes 0).length = 2 * (characters text).length + 2 := by
      rw [length_append, length_flatMap_charBytes]
      rfl
    rw [hchars] at hlength
    have htwo : 2 = ((salt.getD []).length + 63) / 64 + (2 * (characters text).length + 2 + 63) / 64 := hlength
    cases salt with
    | none =>
      have hmany : 2 = 0 + (2 * (characters text).length + 2 + 63) / 64 := htwo
      cases text with
      | nil => exact absurd hmany (by decide)
      | cons a s =>
        -- a block of zeros, and a text that begins with some character
        have hchar := gUtf8GetChar_ne_zero (htext _ rfl)
        rw [characters_cons] at h hlt
        have hblock := copyBlocks_first h.symm
        rw [← Except.ok.inj hfirst] at hblock
        exact absurd hblock.symm (charBytes_ne_zeros hchar (hlt _ mem_cons_self))
    | some s =>
      have hpos := saltArea_ok hfirst
      rw [Option.getD_some] at htwo
      refine ⟨⟨s, rfl, hpos, by omega⟩, ?_⟩
      intro text' htext'
      cases htext'
      exact ⟨by omega, hlt⟩

/-! ## The key -/

/-- The octets that are hashed are those of RFC 7292, in all rounds, just if salt and password fit and no sum
before the last round begins with a zero. -/
theorem hashed_octets_iff {rounds : Nat} (htext : ∀ text, password = some text → utf8Validate text = true) :
    (∃ bufI bmp, pkcs12Buffer salt password = .ok bufI ∧ bmpPassword password = some bmp ∧
      SameRounds md type iterations (hashedHalves password) (rounds + 1) bufI
        (copyBlocks (salt.getD []) ++ copyBlocks bmp)) ↔
      Pkcs12Fits password salt ∧ NoLeadingZeros md type iterations rounds (firstBlocks password salt) := by
  have hblocks : ∀ bmp, Blocks (copyBlocks (salt.getD []) ++ copyBlocks bmp) := fun bmp =>
    (blocks_copyBlocks _).append (blocks_copyBlocks bmp)
  constructor
  · rintro ⟨bufI, bmp, hbuf, hbmp, hsame⟩
    have hfirst := ((blocks_pkcs12Buffer hbuf).1.take _).flatten_inj (hblocks bmp) hsame.1
    refine ⟨fits_of_first htext hbuf hbmp hfirst, ?_⟩
    rw [firstBlocks, hbmp]
    exact (sameRounds_iff (blocks_pkcs12Buffer hbuf).1 (hblocks bmp) hfirst).1 hsame
  · rintro ⟨hfits, hzeros⟩
    obtain ⟨bufI, bmp, hbuf, hbmp, hfirst⟩ := take_buffer_of_fits hfits
    refine ⟨bufI, bmp, hbuf, hbmp, ?_⟩
    rw [firstBlocks, hbmp, Option.getD_some] at hfirst hzeros
    exact (sameRounds_iff (blocks_pkcs12Buffer hbuf).1 (hblocks bmp) hfirst).2 hzeros

/-- The key is that of RFC 7292 if the octets that are hashed are. -/
theorem pkcs12Right_of_fits (hopens : md.opens = true) (hsize : 0 < md.size)
    (hfits : Pkcs12Fits password salt)
    (hzeros : NoLeadingZeros md type iterations (roundsFor md n - 1) (firstBlocks password salt)) :
    Pkcs12Right md type iterations password salt n := by
  obtain ⟨bufI, bmp, hbuf, hbmp, hfirst⟩ := take_buffer_of_fits hfits
  rw [firstBlocks, hbmp, Option.getD_some] at hfirst hzeros
  have hsame : SameRounds md type iterations (hashedHalves password) (roundsFor md n) bufI
      (copyBlocks (salt.getD []) ++ copyBlocks bmp) := by
    cases hrounds : roundsFor md n with
    | zero => trivial
    | succ rounds =>
      rw [hrounds, Nat.add_sub_cancel] at hzeros
      exact (sameRounds_iff (blocks_pkcs12Buffer hbuf).1 ((blocks_copyBlocks _).append (blocks_copyBlocks bmp))
        hfirst).2 hzeros
  refine ⟨_, bmp, ?_, hbmp, rfl⟩
  rw [generatePkcs12, if_neg (by omega), if_neg (by rw [hopens]; decide), hbuf]
  exact congrArg Except.ok (hashAndBash_eq hsize (Nat.lt_succ_self n) hsame)

/-- The key is that of RFC 7292 if there is a salt of one block at most, the password has no more than 31
characters, all of 16 bits, and no sum before the last round begins with a zero; and otherwise the octets that are
hashed are not those of RFC 7292. -/
theorem pkcs12_right_iff (password salt : Option Bytes) (n : Nat) (hopens : md.opens = true)
    (hsize : 0 < md.size) (htext : ∀ text, password = some text → utf8Validate text = true) :
    (Pkcs12Fits password salt ∧
        NoLeadingZeros md type iterations (roundsFor md n - 1) (firstBlocks password salt) →
      Pkcs12Right md type iterations password salt n) ∧
    (0 < n →
      ((∃ bufI bmp, pkcs12Buffer salt password = .ok bufI ∧ bmpPassword password = some bmp ∧
        SameRounds md type iterations (hashedHalves password) (roundsFor md n) bufI
          (copyBlocks (salt.getD []) ++ copyBlocks bmp)) ↔
      Pkcs12Fits password salt ∧
        NoLeadingZeros md type iterations (roundsFor md n - 1) (firstBlocks password salt))) := by
  constructor
  · rintro ⟨hfits, hzeros⟩
    exact pkcs12Right_of_fits hopens hsize hfits hzeros
  · intro hn
    rw [roundsFor_succ hsize hn, Nat.add_sub_cancel]
    exact hashed_octets_iff htext

/-- SHA-1, where it is used below. -/
def sampleSha1 : Digest where
  opens := true
  size := 20
  hash data :=
    if data.getD 64 0 = 1 then
      [0x33, 0x40, 0x92, 0x89, 0xe9, 0x5f, 0xe4, 0x35, 0x2e, 0x95, 0xa7, 0xa8, 0xe3, 0xac, 0x79, 0x27, 0x62, 0x28,
        0xdf, 0x4e]
    else
      [0x45, 0x6c, 0x30, 0xe2, 0x66, 0x60, 0x68, 0x22, 0x30, 0x1f, 0xa7, 0xbc, 0xe0, 0x1c, 0xeb, 0x38, 0x2a, 0x40,
        0x4f, 0x57]
  length_hash data := by split <;> rfl

/-- A key of two rounds from the password `ab` and a salt of eight octets. -/
theorem pkcs12_right_sample :
    Pkcs12Right sampleSha1 1 1 (some [0x61, 0x62]) (some [1, 2, 3, 4, 5, 6, 7, 8]) 40 := by
  have hfits : Pkcs12Fits (some [0x61, 0x62]) (some [1, 2, 3, 4, 5, 6, 7, 8]) :=
    ⟨⟨_, rfl, by decide, by decide⟩, fun text h => by
      cases h
      exact ⟨by decide, by decide⟩⟩
  have htext : ∀ text, some [0x61, 0x62] = some text → utf8Validate text = true := fun text h => by
    cases h
    decide
  exact (pkcs12_right_iff _ _ 40 rfl (by decide) htext).1 ⟨hfits, by unfold SumKept; decide +kernel, trivial⟩

/-- With an empty salt the length of the salt divides. -/
theorem empty_salt_divides : ¬ Pkcs12Right sampleSha1 1 1 (some [0x61, 0x62]) (some []) 20 := by
  rintro ⟨out, bmp, h, -, -⟩
  exact nomatch h

end MateKeyring.Egg
