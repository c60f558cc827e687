import Mathlib.Data.Nat.Digits.Lemmas
import MateKeyring.Asn1x.Integers

/-!
# Object identifiers

`anode_read_object_id` is to refuse an arc that starts with the byte `0x80`. Its variable `lead`, which says
that an arc starts, is set at the start and after each arc and never cleared, so that the byte is refused
within an arc too. `readArcs_arcBytes` says which arcs are read: those without a group of seven zero bits
above their lowest group. The second arc shares a byte with the first, so that it is read back only below
forty, also where the first arc is two.
-/

set_option autoImplicit false

namespace MateKeyring.Asn1x

open Lib List

/-! ## Text -/

/-- The arcs behind the second in dotted text. -/
def dottedArcs (arcs : List Nat) : Bytes := arcs.flatMap fun arc => 0x2e :: decimal arc

@[simp] theorem dottedArcs_nil : dottedArcs [] = [] := rfl

@[simp] theorem dottedArcs_cons (arc : Nat) (arcs : List Nat) :
    dottedArcs (arc :: arcs) = 0x2e :: (decimal arc ++ dottedArcs arcs) := rfl

/-- An object identifier with three arcs at least. -/
structure ObjectId where
  first : Nat
  second : Nat
  rest : List Nat
  first_le : first ≤ 2
  second_lt : first < 2 → second < 40
  rest_ne : rest ≠ []
  small : second < 2 ^ 31 ∧ ∀ arc ∈ rest, arc < 2 ^ 31

namespace ObjectId

/-- Dotted decimal text. -/
def text (oid : ObjectId) : Bytes := decimal oid.first ++ dottedArcs (oid.second :: oid.rest)

/-- The byte that the first two arcs share. -/
def head (oid : ObjectId) : UInt8 := UInt8.ofNat ((40 * oid.first + oid.second) % 256)

/-- The bytes of the arcs behind the second. -/
def tail (oid : ObjectId) : Bytes := oid.rest.flatMap fun arc => arcBytes arc 4 false

/-- What `anode_write_oid` writes. -/
def content (oid : ObjectId) : Bytes := oid.head :: oid.tail

end ObjectId

/-! ## Writing -/

theorem dot_not_mem_decimal (n : Nat) : ∀ c ∈ decimal n, decide (c ≠ 0x2e) = true := by
  intro c hc
  have hdigit := isDigit_of_mem_decimal hc
  apply decide_eq_true
  rintro rfl
  exact absurd hdigit (by decide)

/-- The next arc is cut off at its dot. -/
theorem splitDot_decimal (arc : Nat) (arcs : List Nat) :
    splitDot (decimal arc ++ dottedArcs arcs) = (decimal arc, (dottedArcs arcs).drop 1) := by
  have hnodot := dot_not_mem_decimal arc
  rw [splitDot, takeWhile_append_of_pos hnodot, dropWhile_append_of_pos hnodot]
  cases arcs with
  | nil => rw [dottedArcs_nil, takeWhile_nil, dropWhile_nil, append_nil]
  | cons arc arcs => simp

theorem foldl_int_digits (digits : Bytes) (h : ∀ c ∈ digits, isDigit c = true) (value : Nat) :
    digits.foldl (fun (n : Int) c => 10 * n + ((c.toNat : Int) - 0x30)) value =
      ((digits.foldl (fun n c => 10 * n + (c.toNat - 0x30)) value : Nat) : Int) := by
  induction digits generalizing value with
  | nil => rfl
  | cons c digits ih =>
    rw [forall_mem_cons] at h
    have hlow : 0x30 ≤ c.toNat := by
      have hc := h.1
      simp only [isDigit, Bool.and_eq_true, decide_eq_true_eq, UInt8.le_iff_toNat_le] at hc
      exact hc.1
    have hcast : 10 * (value : Int) + ((c.toNat : Int) - 0x30) =
        ((10 * value + (c.toNat - 0x30) : Nat) : Int) := by omega
    rw [foldl_cons, foldl_cons, hcast]
    exact ih h.2 _

/-- An arc below the sign of an `int` is read from its digits. -/
theorem atoin_decimal {arc : Nat} (h : arc < 2 ^ 31) : atoin (decimal arc) = arc := by
  have hdigits : ∀ c ∈ decimal arc, isDigit c = true := fun c hc => isDigit_of_mem_decimal hc
  have hvalue := decimalValue_decimal arc
  rw [decimalValue] at hvalue
  have hfold := foldl_int_digits (decimal arc) hdigits 0
  rw [hvalue] at hfold
  rw [atoin, if_pos (all_eq_true.2 hdigits)]
  exact (congrArg gint hfold).trans (gint_of_lt h)

/-- One round of the loop, which also reads the first two arcs. -/
theorem writeArcs_decimal (first : Option Int) {arc : Nat} (h : arc < 2 ^ 31) (arcs : List Nat)
    (fuel : Nat) :
    writeArcs (fuel + 1) first (decimal arc ++ dottedArcs arcs) =
      (writeArcs fuel none ((dottedArcs arcs).drop 1)).map
        ((match first with
          | some num1 => [UInt8.ofNat ((40 * num1 + arc) % 256).toNat]
          | none => arcBytes arc 4 false) ++ ·) := by
  have hatoin := atoin_decimal h
  have hne := decimal_ne_nil arc
  have hsplit := splitDot_decimal arc arcs
  have hread : ¬ (decimal arc = [] ∨ (arc : Int) < 0) := by
    rintro (hnil | hneg)
    · exact hne hnil
    · exact absurd hneg (Int.not_lt.2 (Int.natCast_nonneg arc))
  generalize htext : decimal arc ++ dottedArcs arcs = text at hsplit
  cases text with
  | nil => exact absurd (append_eq_nil_iff.1 htext).1 hne
  | cons c text =>
    rw [writeArcs.eq_def]
    dsimp only
    rw [hsplit]
    rw [hatoin, if_neg hread]
    cases first with
    | none => rfl
    | some num1 => rfl

/-- The arcs behind the second are written one after the other. -/
theorem writeArcs_dotted (arcs : List Nat) (hsmall : ∀ arc ∈ arcs, arc < 2 ^ 31) (fuel : Nat)
    (hfuel : arcs.length < fuel) :
    writeArcs fuel none ((dottedArcs arcs).drop 1) =
      some (arcs.flatMap fun arc => arcBytes arc 4 false) := by
  induction arcs generalizing fuel with
  | nil =>
    cases fuel with
    | zero => exact absurd hfuel (Nat.not_lt_zero _)
    | succ fuel => rfl
  | cons arc arcs ih =>
    rw [forall_mem_cons] at hsmall
    cases fuel with
    | zero => exact absurd hfuel (Nat.not_lt_zero _)
    | succ fuel =>
      rw [dottedArcs_cons, drop_succ_cons, drop_zero, writeArcs_decimal none hsmall.1,
        ih hsmall.2 fuel (Nat.lt_of_succ_lt_succ hfuel), flatMap_cons]
      rfl

theorem length_dottedArcs (arcs : List Nat) : arcs.length ≤ (dottedArcs arcs).length := by
  induction arcs with
  | nil => exact Nat.le_refl 0
  | cons arc arcs ih =>
    rw [dottedArcs_cons, length_cons, length_cons, length_append]
    omega

theorem arcBytes_ne_nil (num k : Nat) (had : Bool) : arcBytes num k had ≠ [] := by
  induction k generalizing had with
  | zero => exact cons_ne_nil _ _
  | succ k ih =>
    rw [arcBytes]
    split
    · exact cons_ne_nil _ _
    · exact ih false

theorem ObjectId.tail_ne_nil (oid : ObjectId) : oid.tail ≠ [] := by
  obtain ⟨arc, arcs, hrest⟩ := exists_cons_of_ne_nil oid.rest_ne
  rw [ObjectId.tail, hrest, flatMap_cons]
  intro hnil
  exact arcBytes_ne_nil arc 4 false (append_eq_nil_iff.1 hnil).1

/-- Every object identifier is written. -/
theorem anodeWriteOid_text (oid : ObjectId) : anodeWriteOid oid.text = some oid.content := by
  have hfirst : atoin (decimal oid.first) = oid.first := atoin_decimal (by have := oid.first_le; omega)
  have hnil : oid.text ≠ [] := by
    rw [ObjectId.text]
    intro h
    exact decimal_ne_nil _ (append_eq_nil_iff.1 h).1
  have hlength : oid.rest.length + 1 ≤ oid.text.length := by
    have h := length_dottedArcs (oid.second :: oid.rest)
    rw [length_cons] at h
    rw [ObjectId.text, length_append]
    omega
  have hsplit : splitDot oid.text = (decimal oid.first, decimal oid.second ++ dottedArcs oid.rest) := by
    rw [ObjectId.text, splitDot_decimal, dottedArcs_cons, drop_succ_cons, drop_zero]
  have hmod : ((40 * (oid.first : Int) + (oid.second : Int)) % 256).toNat =
      (40 * oid.first + oid.second) % 256 := by omega
  -- the second arc is the first that the loop reads
  have hloop : writeArcs (oid.text.length + 1) (some (oid.first : Int))
      (decimal oid.second ++ dottedArcs oid.rest) = some oid.content := by
    rw [writeArcs_decimal _ oid.small.1, writeArcs_dotted oid.rest oid.small.2 _ (by omega)]
    dsimp only
    rw [hmod]
    rfl
  have htwo : ¬ oid.content.length < 2 := by
    have htail := length_pos_iff.2 oid.tail_ne_nil
    rw [ObjectId.content, length_cons]
    omega
  have hread : ¬ (decimal oid.first = [] ∨ (oid.first : Int) < 0) := by
    rintro (h | h)
    · exact decimal_ne_nil _ h
    · exact absurd h (Int.not_lt.2 (Int.natCast_nonneg _))
  rw [anodeWriteOid, if_neg hnil, hsplit]
  dsimp only
  rw [hfirst, if_neg hread, hloop]
  dsimp only
  rw [if_neg htwo]

/-! ## Reading -/

/-- Whether the groups of `num` from the second lowest up to the one with number `k` are not zero, except
for those in front of its first. -/
def Unbroken (num k : Nat) : Prop :=
  ∀ j, 0 < j → j ≤ k → num / 128 ^ (j + 1) ≠ 0 → num / 128 ^ j % 128 ≠ 0

theorem Unbroken.of_succ {num k : Nat} (h : Unbroken num (k + 1)) : Unbroken num k :=
  fun j hpos hle => h j hpos (Nat.le_succ_of_le hle)

/-- A byte of an arc: its seven bits, and whether it is the last. -/
theorem arcByte (bits : Nat) (h : bits < 128) :
    (UInt8.ofNat bits ≠ 0x80 ∧ UInt8.ofNat bits &&& 0x80 = 0 ∧ (UInt8.ofNat bits &&& 0x7f).toNat = bits) ∧
      (UInt8.ofNat (bits + 128) = 0x80 ↔ bits = 0) ∧ UInt8.ofNat (bits + 128) &&& 0x80 ≠ 0 ∧
        (UInt8.ofNat (bits + 128) &&& 0x7f).toNat = bits := by
  have hall : ∀ bits : Fin 128, (UInt8.ofNat bits.val ≠ 0x80 ∧ UInt8.ofNat bits.val &&& 0x80 = 0 ∧
      (UInt8.ofNat bits.val &&& 0x7f).toNat = bits.val) ∧ (UInt8.ofNat (bits.val + 128) = 0x80 ↔ bits.val = 0) ∧
        UInt8.ofNat (bits.val + 128) &&& 0x80 ≠ 0 ∧
          (UInt8.ofNat (bits.val + 128) &&& 0x7f).toNat = bits.val := by
    decide +kernel
  exact hall ⟨bits, h⟩

/-- The next group is put behind the groups so far. -/
theorem shift_or {num k : Nat} (h : num < 2 ^ 31) :
    (num / 128 ^ (k + 1) * 128 % 2 ^ 32) ||| num / 128 ^ k % 128 = num / 128 ^ k := by
  have hdiv : num / 128 ^ (k + 1) = num / 128 ^ k / 128 := by
    rw [Nat.pow_succ, Nat.div_div_eq_div_mul]
  have hle : num / 128 ^ k ≤ num := Nat.div_le_self _ _
  rw [hdiv]
  generalize num / 128 ^ k = groups at hle
  have hor : 128 * (groups / 128) + groups % 128 = 128 * (groups / 128) ||| groups % 128 :=
    Nat.two_pow_add_eq_or_of_lt (show groups % 128 < 2 ^ 7 by omega) (groups / 128)
  rw [Nat.mod_eq_of_lt (by omega), Nat.mul_comm, ← hor]
  omega

/-- The bytes of an arc from the group with number `k` down are read with the groups above as the arc so
far, and then comes what follows. -/
theorem readArcs_groups {num : Nat} (h : num < 2 ^ 31) (more : Bytes) (k : Nat) :
    (Unbroken num k → readArcs (arcBytes num k (decide (num / 128 ^ (k + 1) ≠ 0)) ++ more)
        (num / 128 ^ (k + 1)) = (readArcs more 0).map (ascii "." ++ decimal num ++ ·)) ∧
      (¬ Unbroken num k → readArcs (arcBytes num k (decide (num / 128 ^ (k + 1) ≠ 0)) ++ more)
        (num / 128 ^ (k + 1)) = none) := by
  induction k with
  | zero =>
    obtain ⟨⟨hne, hlast, hbits⟩, -⟩ := arcByte (num % 128) (Nat.mod_lt _ (by decide))
    have hshift := @shift_or num 0 h
    rw [Nat.pow_zero, Nat.div_one] at hshift
    have hgrows : ¬ num < num / 128 ^ (0 + 1) := Nat.not_lt.2 (Nat.div_le_self _ _)
    have hunbroken : Unbroken num 0 := fun j hpos hle => absurd hpos (Nat.not_lt.2 hle)
    refine ⟨fun _ => ?_, fun hbroken => absurd hunbroken hbroken⟩
    rw [arcBytes, singleton_append, readArcs, if_neg hne, hbits]
    rw [hshift, if_neg hgrows, if_pos hlast]
  | succ k ih =>
    have hpow : 2 ^ ((k + 1) * 7) = 128 ^ (k + 1) := by
      rw [Nat.mul_comm, Nat.pow_mul]
    obtain ⟨-, hzero, hgoes, hbits⟩ := arcByte (num / 128 ^ (k + 1) % 128) (Nat.mod_lt _ (by decide))
    have hshift := @shift_or num (k + 1) h
    have hdiv : num / 128 ^ (k + 1 + 1) = num / 128 ^ (k + 1) / 128 := by
      rw [Nat.pow_succ 128 (k + 1), Nat.div_div_eq_div_mul]
    rw [arcBytes, hpow]
    by_cases hbit : num / 128 ^ (k + 1) % 128 = 0
    · by_cases hhad : num / 128 ^ (k + 1 + 1) = 0
      · -- the number has not started
        have hnone : num / 128 ^ (k + 1) = 0 := by omega
        have hsame : Unbroken num (k + 1) ↔ Unbroken num k := by
          refine ⟨Unbroken.of_succ, fun hunbroken j hpos hle => ?_⟩
          rcases Nat.lt_or_ge k j with hlt | hge
          · obtain rfl : j = k + 1 := by omega
            exact fun hne => absurd hhad hne
          · exact hunbroken j hpos hge
        have hskip : ¬ (num / 128 ^ (k + 1) % 128 ≠ 0 ∨
            decide (num / 128 ^ (k + 1 + 1) ≠ 0) = true) := by
          simp [hbit, hhad]
        have hfalse : decide (num / 128 ^ (k + 1) ≠ 0) = false := by
          simp [hnone]
        rw [if_neg hskip, hsame, hhad]
        rw [hfalse, hnone] at ih
        exact ih
      · -- a group of zero bits is the byte that is refused
        have hbroken : ¬ Unbroken num (k + 1) := fun hunbroken =>
          hunbroken (k + 1) (Nat.succ_pos k) (Nat.le_refl _) hhad hbit
        refine ⟨fun hunbroken => absurd hunbroken hbroken, fun _ => ?_⟩
        rw [if_pos (.inr (decide_eq_true hhad)), cons_append, readArcs, if_pos (hzero.2 hbit)]
    · have hstarted : num / 128 ^ (k + 1) ≠ 0 := by
        intro hnone
        rw [hnone] at hbit
        exact hbit rfl
      have hsame : Unbroken num (k + 1) ↔ Unbroken num k := by
        refine ⟨Unbroken.of_succ, fun hunbroken j hpos hle => ?_⟩
        rcases Nat.lt_or_ge k j with hlt | hge
        · obtain rfl : j = k + 1 := by omega
          exact fun _ => hbit
        · exact hunbroken j hpos hge
      have hgrows : ¬ num / 128 ^ (k + 1) < num / 128 ^ (k + 1 + 1) := by omega
      have htrue : decide (num / 128 ^ (k + 1) ≠ 0) = true := decide_eq_true hstarted
      rw [if_pos (.inl hbit), cons_append, readArcs, if_neg (fun hbyte => hbit (hzero.1 hbyte)),
        hbits]
      rw [hshift, if_neg hgrows, if_neg hgoes, hsame]
      rw [htrue] at ih
      exact ih

/-- An arc of which no group of seven bits above the lowest is zero. -/
def Gapless (arc : Nat) : Prop := 0 ∉ Nat.digits 128 (arc / 128)

instance (arc : Nat) : Decidable (Gapless arc) := inferInstanceAs (Decidable (¬ _))

/-- A group is zero and not one in front of the first. -/
theorem zero_mem_digits_iff (num : Nat) :
    0 ∈ Nat.digits 128 num ↔ ∃ j, num / 128 ^ (j + 1) ≠ 0 ∧ num / 128 ^ j % 128 = 0 := by
  induction num using Nat.strongRecOn with
  | ind num ih =>
    rcases Nat.eq_zero_or_pos num with rfl | hpos
    · simp
    · have hnext := ih (num / 128) (Nat.div_lt_self hpos (by decide))
      have hdiv : ∀ j, num / 128 / 128 ^ j = num / 128 ^ (j + 1) := by
        intro j
        rw [Nat.div_div_eq_div_mul, ← Nat.pow_succ']
      rw [Nat.digits_def' (by decide) hpos, mem_cons, hnext]
      constructor
      · rintro (hlow | ⟨j, hmore, hzero⟩)
        · exact ⟨0, by omega, by omega⟩
        · rw [hdiv] at hmore hzero
          exact ⟨j + 1, hmore, hzero⟩
      · rintro ⟨j, hmore, hzero⟩
        cases j with
        | zero => exact .inl (by omega)
        | succ j => exact .inr ⟨j, by rw [hdiv]; exact hmore, by rw [hdiv]; exact hzero⟩

theorem unbroken_iff_gapless {num : Nat} (h : num < 2 ^ 31) : Unbroken num 4 ↔ Gapless num := by
  have hdiv : ∀ j, num / 128 / 128 ^ j = num / 128 ^ (j + 1) := by
    intro j
    rw [Nat.div_div_eq_div_mul, ← Nat.pow_succ']
  rw [Gapless, zero_mem_digits_iff, not_exists]
  constructor
  · rintro hunbroken j ⟨hmore, hzero⟩
    rw [hdiv] at hmore hzero
    rcases Nat.lt_or_ge j 4 with hlt | hge
    · exact hunbroken (j + 1) (Nat.succ_pos j) hlt hmore hzero
    · -- there are five groups at most
      have hpow : 128 ^ 5 ≤ 128 ^ (j + 1 + 1) := Nat.pow_le_pow_right (by decide) (by omega)
      exact hmore (Nat.div_eq_of_lt (by omega))
  · intro hgapless j hpos _ hmore hzero
    obtain ⟨j, rfl⟩ : ∃ k, j = k + 1 := ⟨j - 1, by omega⟩
    have h := hgapless j
    rw [hdiv, hdiv] at h
    exact h ⟨hmore, hzero⟩

/-- Which arcs are read. -/
theorem readArcs_arcBytes {num : Nat} (h : num < 2 ^ 31) (more : Bytes) :
    readArcs (arcBytes num 4 false ++ more) 0 =
      if Gapless num then (readArcs more 0).map (ascii "." ++ decimal num ++ ·) else none := by
  obtain ⟨hread, hrefused⟩ := readArcs_groups h more 4
  have hnone : num / 128 ^ (4 + 1) = 0 := Nat.div_eq_of_lt (by omega)
  have hfalse : decide (num / 128 ^ (4 + 1) ≠ 0) = false := decide_eq_false (fun hne => hne hnone)
  rw [unbroken_iff_gapless h, hfalse, hnone] at hread hrefused
  split
  · rename_i hgapless
    exact hread hgapless
  · rename_i hgap
    exact hrefused hgap

/-- The arcs behind the second are read if each of them is. -/
theorem readArcs_tail (arcs : List Nat) (hsmall : ∀ arc ∈ arcs, arc < 2 ^ 31) :
    readArcs (arcs.flatMap fun arc => arcBytes arc 4 false) 0 =
      if ∀ arc ∈ arcs, Gapless arc then some (dottedArcs arcs) else none := by
  induction arcs with
  | nil => rfl
  | cons arc arcs ih =>
    rw [forall_mem_cons] at hsmall
    rw [flatMap_cons, readArcs_arcBytes hsmall.1, ih hsmall.2]
    by_cases harc : Gapless arc
    · by_cases hrest : ∀ arc ∈ arcs, Gapless arc
      · rw [if_pos harc, if_pos hrest, if_pos (forall_mem_cons.2 ⟨harc, hrest⟩)]
        rfl
      · rw [if_pos harc, if_neg hrest, if_neg (fun h => hrest (forall_mem_cons.1 h).2)]
        rfl
    · rw [if_neg harc, if_neg (fun h => harc (forall_mem_cons.1 h).1)]

/-- What is read of the text that was written. -/
theorem anodeReadObjectId_content (oid : ObjectId) :
    anodeReadObjectId oid.content = some oid.text ↔
      oid.second < 40 ∧ ∀ arc ∈ oid.rest, Gapless arc := by
  have hfirst := oid.first_le
  have hshared := oid.second_lt
  have hhead : oid.head.toNat = (40 * oid.first + oid.second) % 256 := by
    rw [ObjectId.head, UInt8.toNat_ofNat', Nat.mod_mod_of_dvd _ (by decide)]
  rw [ObjectId.content, anodeReadObjectId, ObjectId.tail, readArcs_tail _ oid.small.2, hhead]
  constructor
  · intro hread
    split at hread
    · rename_i hrest
      refine ⟨?_, hrest⟩
      -- the text up to the third arc is that of the two numbers that are read from the first byte
      have htext := Option.some.inj hread
      rw [ObjectId.text, dottedArcs_cons, ← cons_append, ← append_assoc] at htext
      have hpair := append_cancel_right htext
      have hsplit := congrArg splitDot hpair
      generalize (40 * oid.first + oid.second) % 256 = b at hsplit
      have hleft := splitDot_decimal (b / 40) [b - b / 40 * 40]
      have hright := splitDot_decimal oid.first [oid.second]
      simp only [dottedArcs_cons, dottedArcs_nil, append_nil, drop_succ_cons, drop_zero]
        at hleft hright
      have hdot : decimal (b / 40) ++ ascii "." ++ decimal (b - b / 40 * 40) =
          decimal (b / 40) ++ 0x2e :: decimal (b - b / 40 * 40) := by
        rw [append_assoc]
        rfl
      rw [hdot, hleft, hright] at hsplit
      have hsecond := decimal_injective (congrArg Prod.snd hsplit)
      omega
    · exact absurd hread.symm (Option.some_ne_none _)
  · rintro ⟨hsecond, hrest⟩
    have hbyte : (40 * oid.first + oid.second) % 256 = 40 * oid.first + oid.second :=
      Nat.mod_eq_of_lt (by omega)
    have hdiv : (40 * oid.first + oid.second) / 40 = oid.first := by omega
    have hmod : 40 * oid.first + oid.second - oid.first * 40 = oid.second := by omega
    rw [if_pos hrest, hbyte, hdiv, hmod, ObjectId.text, dottedArcs_cons, Option.map_some, append_assoc,
      append_assoc]
    rfl

/-! ## Text that is read from fewer bytes -/

/-- The last bytes of arcs. -/
def lastBytes (bytes : Bytes) : Nat := bytes.countP fun b => b &&& 0x80 == 0

theorem count_dot_decimal (n : Nat) : (decimal n).count 0x2e = 0 := by
  apply count_eq_zero_of_not_mem
  intro hmem
  exact absurd (of_decide_eq_true (dot_not_mem_decimal n _ hmem)) (fun h => h rfl)

theorem count_dottedArcs (arcs : List Nat) : (dottedArcs arcs).count 0x2e = arcs.length := by
  induction arcs with
  | nil => rfl
  | cons arc arcs ih =>
    rw [dottedArcs_cons, count_cons_self, count_append, count_dot_decimal, ih, Nat.zero_add,
      length_cons]

/-- There is a dot in the text for each arc that ends. -/
theorem count_readArcs {bytes text : Bytes} {val : Nat} (h : readArcs bytes val = some text) :
    text.count 0x2e = lastBytes bytes := by
  induction bytes generalizing val text with
  | nil =>
    rw [readArcs] at h
    cases h
    rfl
  | cons b bytes ih =>
    rw [readArcs] at h
    rw [lastBytes, countP_cons]
    split at h
    · exact absurd h.symm (Option.some_ne_none _)
    · dsimp only at h
      split at h
      · exact absurd h.symm (Option.some_ne_none _)
      · split at h
        · rename_i hlast
          obtain ⟨text', hmore, rfl⟩ := Option.map_eq_some_iff.1 h
          have hdot : (ascii ".").count 0x2e = 1 := by decide
          rw [count_append, count_append, count_dot_decimal, hdot, ih hmore,
            if_pos (beq_iff_eq.2 hlast), lastBytes]
          omega
        · rename_i hgoes
          rw [ih h, if_neg (fun hlast => hgoes (beq_iff_eq.1 hlast)), lastBytes, Nat.add_zero]

/-- An arc has one last byte, and it is at the end. -/
theorem arcBytes_last (num k : Nat) (had : Bool) :
    ∃ init last, arcBytes num k had = init ++ [last] ∧ last &&& 0x80 = 0 ∧ lastBytes init = 0 := by
  induction k generalizing had with
  | zero => exact ⟨[], _, rfl, (arcByte (num % 128) (Nat.mod_lt _ (by decide))).1.2.1, rfl⟩
  | succ k ih =>
    obtain ⟨-, -, hgoes, -⟩ := arcByte (num / 2 ^ ((k + 1) * 7) % 128) (Nat.mod_lt _ (by decide))
    rw [arcBytes]
    split
    · obtain ⟨init, last, heq, hlast, hinit⟩ := ih true
      refine ⟨_ :: init, last, by rw [heq]; rfl, hlast, ?_⟩
      rw [lastBytes, countP_cons_of_neg, ← lastBytes, hinit]
      exact fun hbyte => hgoes (beq_iff_eq.1 hbyte)
    · exact ih false

theorem ObjectId.lastBytes_tail (oid : ObjectId) : lastBytes oid.tail = oid.rest.length := by
  rw [ObjectId.tail]
  induction oid.rest with
  | nil => rfl
  | cons arc arcs ih =>
    obtain ⟨init, last, heq, hlast, hinit⟩ := arcBytes_last arc 4 false
    rw [lastBytes] at ih hinit ⊢
    rw [flatMap_cons, heq, countP_append, countP_append, hinit, ih,
      countP_singleton, if_pos (beq_iff_eq.2 hlast), length_cons]
    omega

theorem ObjectId.tail_last (oid : ObjectId) :
    ∃ init last, oid.tail = init ++ [last] ∧ last &&& 0x80 = 0 := by
  have hrest := dropLast_concat_getLast oid.rest_ne
  obtain ⟨init, last, heq, hlast, -⟩ := arcBytes_last (oid.rest.getLast oid.rest_ne) 4 false
  refine ⟨(oid.rest.dropLast.flatMap fun arc => arcBytes arc 4 false) ++ init, last, ?_, hlast⟩
  rw [ObjectId.tail, ← hrest, flatMap_append, flatMap_singleton, heq, hrest, append_assoc]

/-- Bytes of arcs that are cut off lack the last byte of an arc. -/
theorem ObjectId.eq_nil_of_cut (oid : ObjectId) {kept cut : Bytes} (h : oid.tail = kept ++ cut)
    (hcount : lastBytes kept = oid.rest.length) : cut = [] := by
  by_contra hne
  obtain ⟨init, last, htail, hlast⟩ := oid.tail_last
  have hcut := dropLast_concat_getLast hne
  rw [htail, ← hcut] at h
  have hsame : last = cut.getLast hne := by
    have hlasts := congrArg getLast? h
    simpa using hlasts
  have hsum := oid.lastBytes_tail
  rw [htail, h, lastBytes, countP_append, countP_append, ← hsame, countP_singleton,
    if_pos (beq_iff_eq.2 hlast)] at hsum
  rw [lastBytes] at hcount
  omega

theorem ObjectId.count_text (oid : ObjectId) : oid.text.count 0x2e = oid.rest.length + 1 := by
  rw [ObjectId.text, count_append, count_dot_decimal, count_dottedArcs, Nat.zero_add, length_cons]

/-- The text is read from all of the bytes or not at all. -/
theorem ObjectId.take_of_read (oid : ObjectId) {n : Nat}
    (h : anodeReadObjectId (oid.content.take n) = some oid.text) : oid.content.take n = oid.content := by
  cases n with
  | zero =>
    rw [take_zero, anodeReadObjectId] at h
    exact absurd h.symm (Option.some_ne_none _)
  | succ n =>
    rw [ObjectId.content, take_succ_cons] at h ⊢
    rw [anodeReadObjectId] at h
    obtain ⟨arcs, hread, htext⟩ := Option.map_eq_some_iff.1 h
    have hdots := congrArg (List.count 0x2e) htext
    have hdot : (ascii ".").count 0x2e = 1 := by decide
    rw [oid.count_text, count_append, count_append, count_append, count_dot_decimal,
      count_dot_decimal, hdot, count_readArcs hread] at hdots
    have hcut := oid.eq_nil_of_cut (take_append_drop n oid.tail).symm (by omega)
    have hall := take_append_drop n oid.tail
    rw [hcut, append_nil] at hall
    rw [hall]

/-! ## The round trip -/

/-- An `OBJECT IDENTIFIER` node without a tag of its own. -/
structure PlainObjectId (node : Node) : Prop where
  unset : node.Unset
  kind : node.kind = .objectId
  leaf : node.children = []
  untagged : node.flags.tag = false

/-- Text that is set in a node, encoded, decoded into the same node and read again comes back. -/
def OidRoundTrip (readTime : TimeReader) (fuel : Nat) (node : Node) (text : Bytes) :
    Prop :=
  ∃ set bytes node', eggAsn1xSetOidAsString text node = .ok (some set) ∧
    eggAsn1xEncode readTime set = .ok (some bytes) ∧
    eggAsn1xDecode readTime fuel node bytes = .ok (true, node') ∧
    eggAsn1xGetOidAsString node' = some text

theorem fits_objectId {node : Node} (h : PlainObjectId node) {content : Bytes}
    (hread : (anodeReadObjectId content).isSome = true) :
    Fits node (.element asn1ClassUniversal 6 content) := by
  have hheader : headerFits node asn1ClassUniversal 6 = true := by
    rw [headerFits, h.kind]
    rfl
  have hvalid : contentValid node content = true := by
    rw [contentValid, h.kind]
    exact hread
  rw [Fits]
  exact ⟨h.unset, h.leaf, h.untagged, by decide, by decide, hheader, hvalid⟩

/-- What `egg_asn1x_set_oid_as_string` leaves in a node. The length is an `int`. -/
def oidTlv (content : Bytes) : Atlv :=
  { cls := asn1ClassUniversal, tag := 6,
    off := (anodeEncodeClsTagLen asn1ClassUniversal 6 content.length).length, oft := 0,
    len := gint content.length, buf := [], size := 0, isNull := true }

theorem encodeTlvAndEnc_objectId {node set : Node} (h : PlainObjectId node) {content : Bytes}
    (hset : anodeEncodeTlvAndEnc node content.length (.simple content) = .ok set) :
    set = .mk { node.an with tlv := some (oidTlv content), enc := some (.simple content) } [] := by
  have htag : anodeCalcTag node = some 6 := by
    rw [anodeCalcTag, anodeCalcTagForFlags, h.untagged, if_neg Bool.false_ne_true, h.kind]
    rfl
  have hexplicit : anodeCalcExplicit node = false := by
    rw [anodeCalcExplicit, anodeCalcExplicitForFlags, h.untagged, Bool.false_and]
  rw [anodeEncodeTlvAndEnc, h.kind] at hset
  dsimp only [encodeClass] at hset
  rw [encodeTag, h.untagged, if_neg Bool.false_ne_true, explicitLength, hexplicit, if_neg Bool.false_ne_true,
    htag, h.leaf] at hset
  obtain ⟨_, -, hset⟩ := bind_eq_ok.1 hset
  exact (Except.ok.inj hset).symm

/-- The header of a node without an explicit tag, and what was asserted of it. -/
theorem of_buildHeader {node : Node} {tlv : Atlv} {n : Nat} {header : Option Bytes}
    (hexplicit : anodeCalcExplicit node = false) (h : buildHeader node tlv n = .ok header) :
    header = some (anodeEncodeClsTagLen tlv.cls tlv.tag tlv.len.toNat) ∧
      (anodeEncodeClsTagLen tlv.cls tlv.tag tlv.len.toNat).length = tlv.off ∧ tlv.len + tlv.off = n := by
  rw [buildHeader, explicitHeader, hexplicit, if_neg Bool.false_ne_true, ok_bind] at h
  dsimp only at h
  rw [nil_append] at h
  obtain ⟨_, hoff, h⟩ := bind_eq_ok.1 h
  obtain ⟨_, hlen, h⟩ := bind_eq_ok.1 h
  cases h
  exact ⟨rfl, of_cAssert hoff, of_cAssert hlen⟩

theorem validate_objectId (readTime : TimeReader) {an : Anode} {tlv : Atlv}
    {children : List Node} (hkind : (Node.mk an children).kind = .objectId) (htlv : an.tlv = some tlv)
    (hnull : tlv.isNull = false) :
    anodeValidateAnything readTime (.mk an children) = .ok (anodeReadObjectId tlv.content).isSome := by
  rw [anodeValidateAnything, htlv]
  dsimp only
  rw [hnull, if_neg Bool.false_ne_true, hkind]

/-- What comes out of the encoder is an element with the bytes that the length allows, and its contents were
read. -/
theorem encode_objectId (readTime : TimeReader) {node set : Node} (h : PlainObjectId node)
    {content bytes : Bytes}
    (hset : anodeEncodeTlvAndEnc node content.length (.simple content) = .ok set)
    (hencode : eggAsn1xEncode readTime set = .ok (some bytes)) :
    bytes = element asn1ClassUniversal 6 (content.take (gint content.length).toNat) ∧
      (anodeReadObjectId (content.take (gint content.length).toNat)).isSome = true := by
  rw [encodeTlvAndEnc_objectId h hset] at hencode
  have hsize : (oidTlv content).len.toNat = (gint content.length).toNat := by rw [oidTlv]
  have hcls : (oidTlv content).cls = asn1ClassUniversal := by rw [oidTlv]
  have htagEq : (oidTlv content).tag = 6 := by rw [oidTlv]
  generalize (gint content.length).toNat = n at hsize ⊢
  generalize han : ({ node.an with tlv := some (oidTlv content), enc := some (.simple content) } : Anode) = an
    at hencode
  have htlv : an.tlv = some (oidTlv content) := by rw [← han]
  have henc : an.enc = some (.simple content) := by rw [← han]
  have hkind : (Node.mk an []).kind = .objectId := by
    rw [← han]
    exact h.kind
  have hexplicit : anodeCalcExplicit (.mk an []) = false := by
    have hflags : (Node.mk an []).flags.tag = false := by
      rw [← han]
      exact h.untagged
    rw [anodeCalcExplicit, anodeCalcExplicitForFlags, hflags, Bool.false_and]
  have hsimple : anodeEncodePrepareSimple (.mk an []) = (true, .mk an []) := by
    obtain ⟨row, join, opts, tlv, enc, chosen⟩ := an
    obtain rfl : tlv = some (oidTlv content) := htlv
    obtain rfl : enc = some (.simple content) := henc
    simp only [anodeEncodePrepareSimple, Node.tlv, Node.an_mk, Node.children_mk, oidTlv, Option.getD_some]
  have hsort : traverseAndSortSetOf (.mk an []) = .ok (.mk an []) := by
    rw [traverseAndSortSetOf, traverseAndSortSetOfList, ok_bind, if_neg]
    · rfl
    · rw [hkind]
      decide
  have hnode : encodeNode (.mk an []) = some (.mk an []) := by
    rw [encodeNode, if_neg]
    rw [hkind]
    decide
  have htlv' : (Node.mk an []).tlv = some (oidTlv content) := htlv
  rw [eggAsn1xEncode, prepare_simple (.inr (.inr (.inl hkind))), ok_bind, hsimple] at hencode
  rw [if_pos rfl, hsort, ok_bind, htlv'] at hencode
  dsimp only at hencode
  rw [anodeEncodeBuild, htlv, henc, hnode] at hencode
  obtain ⟨built, hbuild, hencode⟩ := bind_eq_ok.1 hencode
  obtain ⟨header, hheader, hbuild⟩ := bind_eq_ok.1 hbuild
  obtain ⟨rfl, hoff, hlen⟩ := of_buildHeader hexplicit hheader
  rw [encodeContents] at hbuild
  obtain ⟨contents, hsimple, hbuild⟩ := bind_eq_ok.1 hbuild
  obtain ⟨data, hdata, hsimple⟩ := bind_eq_ok.1 hsimple
  rw [← Except.ok.inj hsimple] at hbuild
  rw [← Except.ok.inj hbuild] at hencode
  rw [hcls, htagEq, hsize] at hoff hencode
  rw [hsize, encodeSimple] at hdata
  obtain ⟨valid, hvalid, hencode⟩ := bind_eq_ok.1 hencode
  have hok : valid = true := by
    by_contra hne
    rw [if_neg hne] at hencode
    cases hencode
  subst hok
  rw [if_pos rfl] at hencode
  have hbytes := Option.some.inj (Except.ok.inj hencode)
  split at hdata
  · rename_i hle
    have htake : content.take n = data := Except.ok.inj hdata
    have hlength : data.length = n := by
      rw [← htake, length_take]
      exact Nat.min_eq_left hle
    have hwhole : element asn1ClassUniversal 6 data = anodeEncodeClsTagLen asn1ClassUniversal 6 n ++ data := by
      rw [element, hlength]
    rw [htake, ← hbytes]
    refine ⟨hwhole.symm, ?_⟩
    -- the node that was built holds the bytes
    have hcontent : ((oidTlv content).built
        (anodeEncodeClsTagLen asn1ClassUniversal 6 n ++ data)).content = data := by
      have hdrop : (anodeEncodeClsTagLen asn1ClassUniversal 6 n ++ data).drop (oidTlv content).off = data := by
        rw [← hoff, drop_left]
      rw [Atlv.content, Atlv.built]
      rw [hdrop, hsize]
      exact take_of_length_le (Nat.le_of_eq hlength)
    have hnull : ((oidTlv content).built
        (anodeEncodeClsTagLen asn1ClassUniversal 6 n ++ data)).isNull = false := by
      rw [Atlv.built]
    generalize (oidTlv content).built (anodeEncodeClsTagLen asn1ClassUniversal 6 n ++ data) = tlv
      at hvalid hcontent hnull
    have hkind' : (Node.mk { an with tlv := some tlv, enc := some (.simple content) } []).kind = .objectId :=
      hkind
    rw [validate_objectId readTime hkind' rfl hnull, hcontent] at hvalid
    exact Except.ok.inj hvalid
  · cases hdata

/-- An element that is decoded is shorter than two gigabytes. -/
theorem lt_of_decode {readTime : TimeReader} {fuel : Nat} {node node' : Node} {tag : Nat}
    (htag : tag < 31) {content : Bytes} (hlen : content.length < 2 ^ 31)
    (h : eggAsn1xDecode readTime fuel node (element asn1ClassUniversal tag content) = .ok (true, node')) :
    (element asn1ClassUniversal tag content).length < 2 ^ 31 := by
  by_contra hlarge
  have hheader := length_anodeEncodeClsTagLen asn1ClassUniversal htag content.length
  have hlength := length_element asn1ClassUniversal tag content
  have hdigits : (anodeEncodeLength content.length).length ≤ 9 := by
    rw [anodeEncodeLength]
    split
    · rw [length_singleton]
      decide
    · have := length_lengthDigits 8 content.length
      rw [length_cons, length_reverse]
      omega
  generalize element asn1ClassUniversal tag content = data at h hlarge hlength
  -- the number of the bytes is negative as an `int`
  have hneg : gint data.length < 2 := by
    rw [gint, Int.bmod_def]
    omega
  have hnone : anodeDecodeTlvForData data data.length = .ok none := by
    rw [anodeDecodeTlvForData_eq, anodeDecodeClsTagLen, anodeDecodeClsTag, if_pos hneg]
    rfl
  rw [eggAsn1xDecode] at h
  split at h
  · cases h
  · rw [hnone] at h
    cases h

/-- Whether an object identifier comes back: its second arc is below forty, no arc behind it has a group of
seven zero bits above its lowest group, and its encoding is shorter than two gigabytes. -/
def Returned (oid : ObjectId) : Prop :=
  oid.second < 40 ∧ (∀ arc ∈ oid.rest, Gapless arc) ∧
    (element asn1ClassUniversal 6 oid.content).length < 2 ^ 31

/-- `egg_asn1x_set_oid_as_string`, `egg_asn1x_encode`, `egg_asn1x_decode` and
`egg_asn1x_get_oid_as_string` give an object identifier back exactly if it is `Returned`. -/
theorem oid_round_trip_iff (readTime : TimeReader) (fuel : Nat) (hfuel : 0 < fuel)
    (node : Node) (h : PlainObjectId node) (oid : ObjectId) :
    OidRoundTrip readTime fuel node oid.text ↔ Returned oid := by
  have hclear := eggAsn1xClear_of_leaf h.unset h.leaf
  have hbytes : ∀ content, (Value.element asn1ClassUniversal 6 content).bytes =
      element asn1ClassUniversal 6 content := fun content => by rw [Value.bytes]
  constructor
  · rintro ⟨set, bytes, node', hset, hencode, hdecode, hread⟩
    rw [eggAsn1xSetOidAsString, anodeWriteOid_text] at hset
    obtain ⟨set', hplaced, hset⟩ := bind_eq_ok.1 hset
    cases hset
    obtain ⟨rfl, hvalid⟩ := encode_objectId readTime h hplaced hencode
    generalize hkept : oid.content.take (gint oid.content.length).toNat = kept at *
    have hsmall : kept.length < 2 ^ 31 := by
      rw [← hkept, length_take, gint, Int.bmod_def]
      omega
    have hlt := lt_of_decode (by decide) hsmall hdecode
    have hvalue := eggAsn1xDecode_value readTime (fits_objectId h hvalid) rfl hclear hfuel
      (by rw [hbytes]; exact hlt)
    rw [hbytes] at hvalue
    rw [hvalue] at hdecode
    obtain rfl := congrArg Prod.snd (Except.ok.inj hdecode)
    rw [getOid_filled] at hread
    -- nothing was cut off
    rw [← hkept] at hread
    have hall := oid.take_of_read hread
    rw [hall] at hread hkept
    rw [← hkept] at hlt
    obtain ⟨hsecond, hrest⟩ := (anodeReadObjectId_content oid).1 hread
    exact ⟨hsecond, hrest, hlt⟩
  · rintro ⟨hsecond, hrest, hlt⟩
    have hread := (anodeReadObjectId_content oid).2 ⟨hsecond, hrest⟩
    have hfits := @fits_objectId node h oid.content (by rw [hread]; rfl)
    have hlength := length_element asn1ClassUniversal 6 oid.content
    have hkind : node.kind ≠ .any := by
      rw [h.kind]
      decide
    have hload := encodeTlvAndEnc_load hfits hkind (by omega)
    have hencode := eggAsn1xEncode_value readTime hfits rfl (by rw [hbytes]; exact hlt)
    have hdecode := eggAsn1xDecode_value readTime hfits rfl hclear hfuel (by rw [hbytes]; exact hlt)
    refine ⟨_, _, _, ?_, hencode, hdecode, ?_⟩
    · rw [eggAsn1xSetOidAsString, anodeWriteOid_text]
      dsimp only
      rw [hload, ok_bind]
      rfl
    · rw [getOid_filled]
      exact hread

/-- An `OBJECT IDENTIFIER` node without a name. -/
def bareObjectId : Node := .mk { row := { kind := .objectId } } []

theorem plainObjectId_bare : PlainObjectId bareObjectId := ⟨⟨rfl, rfl⟩, rfl, rfl, rfl⟩

/-- 1.2.34567.89 -/
def sampleOid : ObjectId := ⟨1, 2, [34567, 89], by decide, by decide, by decide, by decide⟩

theorem oid_round_trip_sample :
    0 < 1 ∧ PlainObjectId bareObjectId ∧
      (OidRoundTrip (fun _ _ => false) 1 bareObjectId sampleOid.text ↔ Returned sampleOid) :=
  ⟨by decide, plainObjectId_bare,
    oid_round_trip_iff (fun _ _ => false) 1 (by decide) bareObjectId plainObjectId_bare sampleOid⟩

/-- 1.2.16384, where the third arc is two groups of zero bits below a one -/
def zeroGroupOid : ObjectId := ⟨1, 2, [16384], by decide, by decide, by decide, by decide⟩

theorem oid_1_2_16384_not_round_trip :
    zeroGroupOid.text = ascii "1.2.16384" ∧
      ¬ OidRoundTrip (fun _ _ => false) 1 bareObjectId (ascii "1.2.16384") := by
  have htext : zeroGroupOid.text = ascii "1.2.16384" := by decide
  have hcontent : zeroGroupOid.content.take (gint zeroGroupOid.content.length).toNat =
      [0x2a, 0x81, 0x80, 0x00] := by decide
  have hunread : anodeReadObjectId [0x2a, 0x81, 0x80, 0x00] = none := by decide
  refine ⟨htext, ?_⟩
  rintro ⟨set, bytes, node', hset, hencode, -, -⟩
  rw [← htext, eggAsn1xSetOidAsString, anodeWriteOid_text] at hset
  obtain ⟨set', hplaced, hset⟩ := bind_eq_ok.1 hset
  cases hset
  obtain ⟨-, hvalid⟩ := encode_objectId (fun _ _ => false) plainObjectId_bare hplaced hencode
  rw [hcontent, hunread] at hvalid
  exact absurd hvalid Bool.false_ne_true

end MateKeyring.Asn1x
