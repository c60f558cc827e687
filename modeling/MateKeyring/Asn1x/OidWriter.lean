import Mathlib.Data.Nat.Log
import MateKeyring.Asn1x.ObjectIds

/-!
# The memory of the object identifier writer

`egg_asn1x_set_oid_as_string` gives `anode_write_oid` as many bytes as the text has characters. Here the writer
is taken with that memory: `at` is an `int`, each byte goes to `data[at]` behind an assertion, and the places
that were written are kept. `arcSize_le_length` is the reason why the memory is enough, and
`anodeWriteOid_eq` says that the writer with the memory writes what `anodeWriteOid` of the layer below gives.
-/

set_option autoImplicit false

namespace MateKeyring.Asn1x.OidWriter

open Lib List

variable {oid : Bytes} {acc : Bytes} {m : Nat}

/-! ## The writer -/

/-- `data`, `at` and the places that bytes were stored at, in order. -/
structure Writer where
  data : Option Bytes
  place : Int
  stored : List Nat
  deriving DecidableEq, Repr

/-- `data[at] = b`. -/
def store (data : Bytes) (place : Int) (b : UInt8) : Checked Bytes :=
  if 0 ≤ place ∧ place.toNat < data.length then .ok (data.set place.toNat b) else .error .outOfBounds

/-- `if (data) { g_assert (*n_data > at); data[at] = b; } ++at;`, where `at` becomes a `gsize` to be compared. -/
def put (w : Writer) (b : UInt8) : Checked Writer :=
  match w.data with
  | none => .ok { w with place := gint (w.place + 1) }
  | some data => do
      cAssert (w.place % 2 ^ 64 < data.length)
      let data ← store data w.place b
      pure ⟨some data, gint (w.place + 1), w.stored ++ [w.place.toNat]⟩

/-- Store one byte after the other. -/
def putAll : Bytes → Writer → Checked Writer
  | [], w => .ok w
  | b :: bytes, w => do
      let w ← put w b
      putAll bytes w

theorem splitDot_lt (h : oid ≠ []) : (splitDot oid).2.length < oid.length := by
  have hpos := length_pos_of_ne_nil h
  have hle := (dropWhile_suffix (· ≠ 0x2e) (l := oid)).length_le
  rw [splitDot, length_drop]
  omega

/-- The texts that the loop of `anode_write_oid` goes through. -/
def oidArcs (oid : Bytes) : List Bytes :=
  if _h : oid = [] then [] else (splitDot oid).1 :: oidArcs (splitDot oid).2
termination_by oid.length
decreasing_by exact splitDot_lt _h

/-- `atoin (oid, p - oid)`, where the number of the digits is an `int`. -/
def arcNumber (arc : Bytes) : Int := atoin (arc.take (gint arc.length).toNat)

/-- What the arc `i` is written as: nothing for the first, and one byte with it for the second. -/
def arcStore (i : Nat) (num1 num : Int) : Bytes :=
  if gint i = 0 then []
  else if gint i = 1 then [UInt8.ofNat ((40 * num1 + num) % 256).toNat]
  else arcBytes num.toNat 4 false

/-- The loop of `anode_write_oid`. -/
def writeLoop : Nat → Int → List Bytes → Writer → Checked (Option Writer)
  | _, _, [], w => .ok (some w)
  | i, num1, arc :: rest, w =>
    if arc = [] then .ok none
    else if arcNumber arc < 0 then .ok none
    else do
      let w ← putAll (arcStore i num1 (arcNumber arc)) w
      writeLoop (i + 1) (if gint i = 0 then arcNumber arc else num1) rest w

/-- `if (data) g_assert (*n_data >= at)`. -/
def assertRoom (w : Writer) : Checked Unit :=
  match w.data with
  | none => .ok ()
  | some data => cAssert (w.place % 2 ^ 64 ≤ data.length)

/-- `anode_write_oid`: the memory and the length, or `FALSE`. -/
def anodeWriteOid (oid : Bytes) (data : Option Bytes) : Checked (Option (Writer × Nat)) := do
  match ← writeLoop 0 0 (oidArcs oid) ⟨data, 0, []⟩ with
  | none => pure none
  | some w =>
    if w.place < 2 then pure none
    else do
      assertRoom w
      pure (some (w, w.place.toNat))

/-- `g_malloc0`. -/
def gMalloc0 (n : Nat) : Option Bytes := if n = 0 then none else some (replicate n 0)

/-- `anode_write_oid` as `egg_asn1x_set_oid_as_string` calls it. -/
def writeOidAllocated (oid : Bytes) : Checked (Option (Writer × Nat)) :=
  anodeWriteOid oid (gMalloc0 oid.length)

/-! ## What it should do -/

/-- It says `FALSE`, or the length is not above that of the text and the bytes in front of it were written
once each. -/
def WriterRight (oid : Bytes) : Prop :=
  writeOidAllocated oid = .ok none ∨
    ∃ w n, writeOidAllocated oid = .ok (some (w, n)) ∧ n ≤ oid.length ∧ w.stored = List.range n

/-- The number of bytes of the arc `i`: seven bits in each, from the third arc on. -/
def arcSize (i : Nat) (num : Nat) : Nat :=
  if gint i = 0 then 0 else if gint i = 1 then 1 else Nat.log 128 num + 1

/-- The number of bytes of arcs up to one that is no number. -/
def arcsSize : Nat → List Bytes → Nat
  | _, [] => 0
  | i, arc :: rest =>
    if arc = [] ∨ arcNumber arc < 0 then 0
    else arcSize i (arcNumber arc).toNat + arcsSize (i + 1) rest

/-! ## The size of an arc -/

theorem length_arcBytes_true (num k : Nat) : (arcBytes num k true).length = k + 1 := by
  induction k with
  | zero => rfl
  | succ k ih => rw [arcBytes, if_pos (.inr rfl), length_cons, ih]

/-- Groups of seven bits that are zero at the front are left out. -/
theorem length_arcBytes {num : Nat} (k : Nat) (h : num < 128 ^ (k + 1)) :
    (arcBytes num k false).length = Nat.log 128 num + 1 := by
  induction k with
  | zero =>
    rw [Nat.log_of_lt (by simpa using h)]
    rfl
  | succ k ih =>
    have hpow : 2 ^ ((k + 1) * 7) = 128 ^ (k + 1) := by
      rw [Nat.mul_comm, Nat.pow_mul]
    have hlt : num / 128 ^ (k + 1) < 128 := by
      rw [Nat.div_lt_iff_lt_mul (Nat.pow_pos (by decide)), Nat.mul_comm, ← Nat.pow_succ]
      exact h
    rw [arcBytes, hpow, Nat.mod_eq_of_lt hlt]
    by_cases hsmall : num < 128 ^ (k + 1)
    · have hzero : num / 128 ^ (k + 1) = 0 := Nat.div_eq_of_lt hsmall
      rw [hzero, if_neg (by simp)]
      exact ih hsmall
    · have hge := Nat.not_lt.1 hsmall
      have hne : num / 128 ^ (k + 1) ≠ 0 := Nat.ne_of_gt (Nat.div_pos hge (Nat.pow_pos (by decide)))
      have hlog : Nat.log 128 num = k + 1 := Nat.log_eq_of_pow_le_of_lt_pow hge h
      rw [if_pos (.inl hne), length_cons, length_arcBytes_true, hlog]

theorem arcNumber_lt (arc : Bytes) : arcNumber arc < 2 ^ 31 := by
  rw [arcNumber, atoin]
  split
  · rw [gint, Int.bmod_def]
    omega
  · decide

theorem length_arcStore {num : Int} (i : Nat) (num1 : Int) (h : num < 2 ^ 31) :
    (arcStore i num1 num).length = arcSize i num.toNat := by
  rw [arcStore, arcSize]
  split
  · rfl
  · split
    · rfl
    · exact length_arcBytes 4 (by omega)

/-- The value of digits has at most as many digits. -/
theorem foldl_digits_lt (digits : Bytes) (h : ∀ c ∈ digits, isDigit c = true) (n : Nat) :
    digits.foldl (fun n c => 10 * n + (c.toNat - 0x30)) n < (n + 1) * 10 ^ digits.length := by
  induction digits generalizing n with
  | nil => simp
  | cons c digits ih =>
    rw [forall_mem_cons] at h
    have hhigh : c.toNat ≤ 0x39 := by
      have hc := h.1
      simp only [isDigit, Bool.and_eq_true, decide_eq_true_eq, UInt8.le_iff_toNat_le] at hc
      exact hc.2
    have hstep : 10 * n + (c.toNat - 0x30) + 1 ≤ (n + 1) * 10 := by omega
    rw [foldl_cons, length_cons, Nat.pow_succ]
    calc digits.foldl (fun n c => 10 * n + (c.toNat - 0x30)) (10 * n + (c.toNat - 0x30))
        < (10 * n + (c.toNat - 0x30) + 1) * 10 ^ digits.length := ih h.2 _
      _ ≤ (n + 1) * 10 * 10 ^ digits.length := Nat.mul_le_mul_right _ hstep
      _ = (n + 1) * (10 ^ digits.length * 10) := by ring

/-- A number of some digits is below the power of ten, when there are too few for an `int` to overflow. -/
theorem atoin_lt {arc : Bytes} (hlen : arc.length ≤ 4) : atoin arc < 10 ^ arc.length := by
  rw [atoin]
  split
  · rename_i hall
    have hdigits := all_eq_true.1 hall
    have hlt := foldl_digits_lt arc hdigits 0
    have hpow : 10 ^ arc.length ≤ 10 ^ 4 := Nat.pow_le_pow_right (by decide) hlen
    have hcast := foldl_int_digits arc hdigits 0
    rw [Nat.cast_zero] at hcast
    rw [hcast, gint_of_lt (by omega)]
    rw [Nat.zero_add, Nat.one_mul] at hlt
    exact_mod_cast hlt
  · have hpos : (0 : Int) < 10 ^ arc.length := Int.pow_pos (by decide)
    omega

/-- **An arc takes at most as many bytes as it has characters.** -/
theorem arcSize_le_length (i : Nat) {arc : Bytes} (hne : arc ≠ []) :
    arcSize i (arcNumber arc).toNat ≤ arc.length := by
  have hpos := length_pos_of_ne_nil hne
  have hint := arcNumber_lt arc
  rw [arcSize]
  split
  · omega
  · split
    · omega
    · by_cases hlong : 5 ≤ arc.length
      · -- an `int` has at most five groups of seven bits
        have hlog : Nat.log 128 (arcNumber arc).toNat < 5 := by
          apply Nat.log_lt_of_lt_pow'
          · decide
          · omega
        omega
      · have hlen : arc.length ≤ 4 := by omega
        have htake : arc.take (gint arc.length).toNat = arc := by
          rw [gint_of_lt (by omega), Int.toNat_natCast, take_length]
        have hten : arcNumber arc < 10 ^ arc.length := by
          rw [arcNumber, htake]
          exact atoin_lt hlen
        have hpow : 10 ^ arc.length ≤ 128 ^ arc.length := Nat.pow_le_pow_left (by decide) _
        have hcast : ((10 ^ arc.length : Nat) : Int) = 10 ^ arc.length := by push_cast; rfl
        have hone : 0 < 128 ^ arc.length := Nat.pow_pos (by decide)
        have hlog : Nat.log 128 (arcNumber arc).toNat < arc.length := by
          apply Nat.log_lt_of_lt_pow'
          · omega
          · omega
        omega

/-! ## Storing -/

/-- The writer after it stored `acc` in memory for `m` bytes. -/
def stored (m : Nat) (acc : Bytes) : Writer :=
  ⟨some (acc ++ replicate (m - acc.length) 0), gint acc.length, List.range acc.length⟩

@[simp] theorem stored_place (m : Nat) (acc : Bytes) : (stored m acc).place = gint acc.length := by
  rw [stored]

theorem length_stored (h : acc.length ≤ m) :
    (acc ++ replicate (m - acc.length) (0 : UInt8)).length = m := by
  rw [length_append, length_replicate]
  omega

/-- Behind `2 ^ 31` bytes the place is negative. -/
theorem gint_two_pow : gint ((2 ^ 31 : Nat) : Int) = -2 ^ 31 := by decide

/-- A byte is stored where there is room for it. -/
theorem put_some {data : Bytes} {p : Nat} (places : List Nat) (b : UInt8) (hroom : p < data.length)
    (hint : p < 2 ^ 31) :
    put ⟨some data, gint p, places⟩ b = .ok ⟨some (data.set p b), gint (p + 1 : Nat), places ++ [p]⟩ := by
  have hplace := gint_of_lt hint
  have hunsigned : (p : Int) % 2 ^ 64 < data.length := by omega
  rw [put]
  dsimp only
  rw [hplace, cAssert_of_true hunsigned, ok_bind, store, Int.toNat_natCast,
    if_pos ⟨Int.natCast_nonneg p, hroom⟩, ok_bind]
  rfl

/-- A byte is stored behind the others. -/
theorem put_stored (b : UInt8) (hroom : acc.length < m) (hint : acc.length < 2 ^ 31) :
    put (stored m acc) b = .ok (stored m (acc ++ [b])) := by
  have hlen := length_stored (Nat.le_of_lt hroom)
  have hset : (acc ++ replicate (m - acc.length) 0).set acc.length b =
      acc ++ [b] ++ replicate (m - (acc ++ [b]).length) 0 := by
    rw [set_append_right _ _ (Nat.le_refl _), Nat.sub_self, append_assoc, length_append,
      length_singleton, show m - acc.length = (m - (acc.length + 1)) + 1 by omega, replicate_succ,
      set_cons_zero]
    rfl
  have hput := put_some (List.range acc.length) b (by rw [hlen]; exact hroom) hint
  rw [stored, hput, hset, stored, length_append, length_singleton, range_succ]

/-- There is no byte behind the `2 ^ 31`-th. -/
theorem put_full (b : UInt8) (hfull : acc.length = 2 ^ 31) :
    ∃ f, put (stored m acc) b = .error f := by
  have hplace : gint acc.length = -2 ^ 31 := by
    rw [hfull]
    exact gint_two_pow
  rw [put, stored]
  dsimp only
  rw [hplace, cAssert]
  split
  · refine ⟨.outOfBounds, ?_⟩
    rw [ok_bind, store, if_neg (by omega)]
    rfl
  · exact ⟨.assertion, rfl⟩

/-- Bytes are stored behind the others, up to `2 ^ 31`. -/
theorem putAll_stored (bytes : Bytes) (hroom : acc.length + bytes.length ≤ m)
    (hint : acc.length + bytes.length ≤ 2 ^ 31) :
    putAll bytes (stored m acc) = .ok (stored m (acc ++ bytes)) := by
  induction bytes generalizing acc with
  | nil => rw [putAll, append_nil]
  | cons b bytes ih =>
    rw [length_cons] at hroom hint
    rw [putAll, put_stored b (by omega) (by omega), ok_bind, append_cons acc b bytes]
    apply ih
    · rw [length_append, length_singleton]
      omega
    · rw [length_append, length_singleton]
      omega

theorem putAll_full (bytes : Bytes) (hroom : acc.length + bytes.length ≤ m)
    (hint : acc.length ≤ 2 ^ 31) (hfull : 2 ^ 31 < acc.length + bytes.length) :
    ∃ f, putAll bytes (stored m acc) = .error f := by
  induction bytes generalizing acc with
  | nil =>
    rw [length_nil] at hfull
    omega
  | cons b bytes ih =>
    rw [length_cons] at hroom hfull
    rw [putAll]
    by_cases hlast : acc.length = 2 ^ 31
    · obtain ⟨f, hf⟩ := put_full (m := m) b hlast
      exact ⟨f, by rw [hf]; rfl⟩
    · rw [put_stored b (by omega) (by omega), ok_bind]
      apply ih
      · rw [length_append, length_singleton]
        omega
      · rw [length_append, length_singleton]
        omega
      · rw [length_append, length_singleton]
        omega

/-! ## The loop -/

/-- The bytes of arcs up to one that is no number, and whether there is none such. -/
def arcsBytes : Nat → Int → List Bytes → Bytes × Bool
  | _, _, [] => ([], true)
  | i, num1, arc :: rest =>
    if arc = [] ∨ arcNumber arc < 0 then ([], false)
    else
      (arcStore i num1 (arcNumber arc) ++
        (arcsBytes (i + 1) (if gint i = 0 then arcNumber arc else num1) rest).1,
        (arcsBytes (i + 1) (if gint i = 0 then arcNumber arc else num1) rest).2)

theorem length_arcsBytes (i : Nat) (num1 : Int) (arcs : List Bytes) :
    (arcsBytes i num1 arcs).1.length = arcsSize i arcs := by
  induction arcs generalizing i num1 with
  | nil => rfl
  | cons arc rest ih =>
    rw [arcsBytes, arcsSize]
    split
    · rfl
    · rw [length_append, length_arcStore i num1 (arcNumber_lt arc), ih]

theorem arcsSize_le (i : Nat) (arcs : List Bytes) : arcsSize i arcs ≤ arcs.flatten.length := by
  induction arcs generalizing i with
  | nil => exact Nat.le_refl 0
  | cons arc rest ih =>
    rw [arcsSize, flatten_cons, length_append]
    split
    · exact Nat.zero_le _
    · rename_i hread
      have hne : arc ≠ [] := fun hnil => hread (.inl hnil)
      exact Nat.add_le_add (arcSize_le_length i hne) (ih (i + 1))

theorem length_oidArcs_le (oid : Bytes) : (oidArcs oid).flatten.length ≤ oid.length := by
  induction oid using oidArcs.induct with
  | case1 =>
    rw [oidArcs, dif_pos rfl]
    exact Nat.le_refl 0
  | case2 oid h ih =>
    have hwhole : (splitDot oid).1.length + (oid.dropWhile (· ≠ 0x2e)).length = oid.length := by
      rw [splitDot, ← length_append, takeWhile_append_dropWhile]
    have hrest : (splitDot oid).2.length ≤ (oid.dropWhile (· ≠ 0x2e)).length := by
      rw [splitDot, length_drop]
      omega
    rw [oidArcs, dif_neg h, flatten_cons, length_append]
    omega

/-- **The memory is enough.** -/
theorem arcsSize_le_length (oid : Bytes) : arcsSize 0 (oidArcs oid) ≤ oid.length :=
  Nat.le_trans (arcsSize_le 0 _) (length_oidArcs_le oid)

/-- The loop stores the bytes of the arcs, when there are at most `2 ^ 31`. -/
theorem writeLoop_stored {m i : Nat} (num1 : Int) (arcs : List Bytes)
    (hroom : acc.length + arcsSize i arcs ≤ m) (hint : acc.length + arcsSize i arcs ≤ 2 ^ 31) :
    writeLoop i num1 arcs (stored m acc) =
      .ok (if (arcsBytes i num1 arcs).2 then some (stored m (acc ++ (arcsBytes i num1 arcs).1)) else none) := by
  induction arcs generalizing i num1 acc with
  | nil => rw [writeLoop, arcsBytes, append_nil, if_pos rfl]
  | cons arc rest ih =>
    rw [writeLoop, arcsBytes]
    rw [arcsSize] at hroom hint
    by_cases hnil : arc = []
    · rw [if_pos hnil, if_pos (Or.inl hnil)]
      rfl
    · by_cases hneg : arcNumber arc < 0
      · rw [if_neg hnil, if_pos hneg, if_pos (Or.inr hneg)]
        rfl
      · have hread : ¬ (arc = [] ∨ arcNumber arc < 0) := by
          rintro (h | h)
          · exact hnil h
          · exact hneg h
        have hsize := length_arcStore i num1 (arcNumber_lt arc)
        rw [if_neg hread] at hroom hint ⊢
        rw [if_neg hnil, if_neg hneg, putAll_stored _ (by omega) (by omega), ok_bind, ih]
        · rw [append_assoc]
        · rw [length_append]
          omega
        · rw [length_append]
          omega

/-- Behind `2 ^ 31` bytes the loop runs into an assertion. -/
theorem writeLoop_full {m i : Nat} (num1 : Int) (arcs : List Bytes)
    (hroom : acc.length + arcsSize i arcs ≤ m) (hint : acc.length ≤ 2 ^ 31)
    (hfull : 2 ^ 31 < acc.length + arcsSize i arcs) :
    ∃ f, writeLoop i num1 arcs (stored m acc) = .error f := by
  induction arcs generalizing i num1 acc with
  | nil =>
    rw [arcsSize] at hfull
    omega
  | cons arc rest ih =>
    rw [writeLoop]
    rw [arcsSize] at hroom hfull
    by_cases hread : arc = [] ∨ arcNumber arc < 0
    · rw [if_pos hread] at hfull
      omega
    · have hsize := length_arcStore i num1 (arcNumber_lt arc)
      rw [if_neg hread] at hroom hfull
      rw [not_or] at hread
      rw [if_neg hread.1, if_neg hread.2]
      by_cases hthis : acc.length + arcSize i (arcNumber arc).toNat ≤ 2 ^ 31
      · rw [putAll_stored _ (by omega) (by omega), ok_bind]
        apply ih
        · rw [length_append]
          omega
        · rw [length_append]
          omega
        · rw [length_append]
          omega
      · obtain ⟨f, hf⟩ := putAll_full (m := m) (arcStore i num1 (arcNumber arc)) (by omega) hint (by omega)
        exact ⟨f, by rw [hf]; rfl⟩

/-! ## The whole function -/

theorem gMalloc0_of_ne_nil (h : oid ≠ []) :
    (⟨gMalloc0 oid.length, 0, []⟩ : Writer) = stored oid.length [] := by
  have hpos := length_pos_of_ne_nil h
  rw [gMalloc0, if_neg (Nat.ne_of_gt hpos), stored]
  rfl

theorem writeOidAllocated_nil : writeOidAllocated [] = .ok none := by
  rw [writeOidAllocated, anodeWriteOid, oidArcs, dif_pos rfl]
  rfl

/-- At most `2 ^ 31` bytes are written into the memory; when it is all of them, `at` is negative in the end. -/
theorem writeOidAllocated_eq (h : arcsSize 0 (oidArcs oid) ≤ 2 ^ 31) :
    writeOidAllocated oid = .ok
      (if (arcsBytes 0 0 (oidArcs oid)).2 ∧ 2 ≤ arcsSize 0 (oidArcs oid) ∧ arcsSize 0 (oidArcs oid) < 2 ^ 31 then
        some (stored oid.length (arcsBytes 0 0 (oidArcs oid)).1, arcsSize 0 (oidArcs oid))
      else none) := by
  by_cases hnil : oid = []
  · subst hnil
    rw [writeOidAllocated_nil, oidArcs, dif_pos rfl]
    rfl
  · have hsize := length_arcsBytes 0 0 (oidArcs oid)
    have hroom := arcsSize_le_length oid
    have hloop := @writeLoop_stored [] oid.length 0 0 (oidArcs oid)
      (by rw [length_nil]; omega) (by rw [length_nil]; omega)
    rw [writeOidAllocated, anodeWriteOid, gMalloc0_of_ne_nil hnil, hloop, ok_bind, nil_append]
    by_cases hread : (arcsBytes 0 0 (oidArcs oid)).2 = true
    · rw [if_pos hread]
      dsimp only
      by_cases hfull : arcsSize 0 (oidArcs oid) = 2 ^ 31
      · have hplace : (stored oid.length (arcsBytes 0 0 (oidArcs oid)).1).place = -2 ^ 31 := by
          rw [stored_place, hsize, hfull]
          exact gint_two_pow
        rw [hplace, if_pos (by decide), if_neg (by omega)]
        rfl
      · have hplace : (stored oid.length (arcsBytes 0 0 (oidArcs oid)).1).place = arcsSize 0 (oidArcs oid) := by
          rw [stored_place, hsize]
          exact gint_of_lt (by omega)
        rw [hplace]
        by_cases hshort : arcsSize 0 (oidArcs oid) < 2
        · rw [if_pos (by omega), if_neg (by omega)]
          rfl
        · have hassert : assertRoom (stored oid.length (arcsBytes 0 0 (oidArcs oid)).1) = .ok () := by
            have hlen := @length_stored (arcsBytes 0 0 (oidArcs oid)).1 oid.length (by omega)
            rw [assertRoom]
            apply cAssert_of_true
            rw [hplace, hlen]
            omega
          rw [if_neg (by omega), hassert, ok_bind, if_pos ⟨hread, by omega, by omega⟩, Int.toNat_natCast]
          rfl
    · rw [if_neg hread, if_neg (fun hall => hread hall.1)]
      rfl

theorem writeOidAllocated_full (h : 2 ^ 31 < arcsSize 0 (oidArcs oid)) :
    ∃ f, writeOidAllocated oid = .error f := by
  have hroom := arcsSize_le_length oid
  have hne : oid ≠ [] := by
    rintro rfl
    rw [length_nil] at hroom
    omega
  obtain ⟨f, hf⟩ := @writeLoop_full [] oid.length 0 0 (oidArcs oid)
    (by rw [length_nil]; omega) (by rw [length_nil]; omega) (by rw [length_nil]; omega)
  refine ⟨f, ?_⟩
  rw [writeOidAllocated, anodeWriteOid, gMalloc0_of_ne_nil hne, hf]
  rfl

/-! ## The writer of the layer below -/

/-- The arcs from the second on are written as `writeArcs` writes them. -/
theorem writeArcs_eq (fuel i : Nat) (num1 : Int) (text : Bytes) (hfuel : text.length < fuel) (hi : 1 ≤ i)
    (hint : i + text.length < 2 ^ 31) :
    writeArcs fuel (if i = 1 then some num1 else none) text =
      if (arcsBytes i num1 (oidArcs text)).2 then some (arcsBytes i num1 (oidArcs text)).1 else none := by
  induction fuel generalizing i text with
  | zero => exact absurd hfuel (Nat.not_lt_zero _)
  | succ fuel ih =>
    cases text with
    | nil =>
      rw [oidArcs, dif_pos rfl]
      rfl
    | cons c text =>
      have hne : c :: text ≠ [] := cons_ne_nil c text
      have hrest := splitDot_lt hne
      have harc : (splitDot (c :: text)).1.length ≤ (c :: text).length :=
        ( takeWhile_prefix _).length_le
      have hnumber : arcNumber (splitDot (c :: text)).1 = atoin (splitDot (c :: text)).1 := by
        rw [arcNumber, gint_of_lt (by omega), Int.toNat_natCast, take_length]
      have hgint := gint_of_lt (show i < 2 ^ 31 by omega)
      have ih := ih (i + 1) (splitDot (c :: text)).2 (by omega) (by omega) (by omega)
      rw [if_neg (show ¬ i + 1 = 1 by omega)] at ih
      rw [oidArcs, dif_neg hne, arcsBytes, hnumber, writeArcs.eq_def]
      dsimp only
      by_cases hread : (splitDot (c :: text)).1 = [] ∨ atoin (splitDot (c :: text)).1 < 0
      · rw [if_pos hread, if_pos hread]
        rfl
      · rw [if_neg hread, if_neg hread, ih, hgint, if_neg (show ¬ (i : Int) = 0 by omega), arcStore, hgint,
          if_neg (show ¬ (i : Int) = 0 by omega)]
        by_cases hsecond : i = 1
        · subst hsecond
          rw [if_pos rfl, if_pos (show ((1 : Nat) : Int) = 1 from rfl)]
          dsimp only
          split
          · rfl
          · rfl
        · rw [if_neg hsecond, if_neg (show ¬ (i : Int) = 1 by omega)]
          dsimp only
          split
          · rfl
          · rfl

/-- **Refinement.** For texts below two gigabytes the writer with the memory leaves there what the writer of
the layer below gives, and says how long it is. -/
theorem writeOidAllocated_refines (h : oid.length < 2 ^ 31) :
    writeOidAllocated oid =
      .ok ((Asn1x.anodeWriteOid oid).map fun bytes => (stored oid.length bytes, bytes.length)) := by
  by_cases hnil : oid = []
  · subst hnil
    exact writeOidAllocated_nil
  · have hroom := arcsSize_le_length oid
    have hsize := length_arcsBytes 0 0 (oidArcs oid)
    have hlen : (arcsBytes 0 0 (oidArcs oid)).1.length ≤ oid.length := hsize ▸ hroom
    have hrest := splitDot_lt hnil
    have harc : (splitDot oid).1.length ≤ oid.length := ( takeWhile_prefix _).length_le
    have hnumber : arcNumber (splitDot oid).1 = atoin (splitDot oid).1 := by
      rw [arcNumber, gint_of_lt (by omega), Int.toNat_natCast, take_length]
    have hloop := writeArcs_eq (oid.length + 1) 1 (atoin (splitDot oid).1) (splitDot oid).2 (by omega)
      (Nat.le_refl 1) (by omega)
    rw [if_pos rfl] at hloop
    rw [writeOidAllocated_eq (by omega), ← hsize, Asn1x.anodeWriteOid, if_neg hnil]
    dsimp only
    rw [hloop, oidArcs, dif_neg hnil, arcsBytes, hnumber]
    rw [oidArcs, dif_neg hnil, arcsBytes, hnumber] at hlen
    by_cases hread : (splitDot oid).1 = [] ∨ atoin (splitDot oid).1 < 0
    · rw [if_pos hread, if_pos hread]
      rfl
    · have hfirst : arcStore 0 0 (atoin (splitDot oid).1) = [] := rfl
      have hzero : gint ((0 : Nat) : Int) = 0 := rfl
      rw [if_neg hread] at hlen
      rw [if_neg hread, if_neg hread, hfirst, nil_append, if_pos hzero, Nat.zero_add]
      rw [hfirst, nil_append, if_pos hzero, Nat.zero_add] at hlen
      dsimp only at hlen ⊢
      split
      · rename_i hall
        rw [if_pos hall.1]
        dsimp only
        rw [if_neg (by omega)]
        rfl
      · rename_i hall
        split
        · rename_i hlast
          rfl
        · rename_i bytes hlast
          split at hlast
          · rename_i hgood
            have hbytes := Option.some.inj hlast
            rw [if_pos]
            · rfl
            · rw [← hbytes]
              by_contra hlong
              exact hall ⟨hgood, by omega, by omega⟩
          · cases hlast

theorem writeOidAllocated_refines_sample :
    writeOidAllocated [0x31, 0x2e, 0x32, 0x2e, 0x38, 0x34, 0x30] = .ok (some (stored 7 [0x2a, 0x86, 0x48], 3)) :=
  writeOidAllocated_refines (by decide)

/-! ## The bound -/

theorem right_of_size (h : arcsSize 0 (oidArcs oid) ≤ 2 ^ 31) : WriterRight oid := by
  have heq := writeOidAllocated_eq h
  split at heq
  · have hsize := length_arcsBytes 0 0 (oidArcs oid)
    refine .inr ⟨_, _, heq, arcsSize_le_length oid, ?_⟩
    show List.range _ = _
    rw [hsize]
  · exact .inl heq

theorem size_of_right (h : WriterRight oid) : arcsSize 0 (oidArcs oid) ≤ 2 ^ 31 := by
  by_contra hlong
  obtain ⟨f, hf⟩ := writeOidAllocated_full (Nat.not_le.1 hlong)
  rcases h with h | ⟨w, n, h, -⟩
  · rw [hf] at h
    cases h
  · rw [hf] at h
    cases h

/-- **The writer stays in its memory** and tells how much it wrote, if and only if there are at most `2 ^ 31`
bytes to write. -/
theorem oid_writer_right_iff (oid : Bytes) : WriterRight oid ↔ arcsSize 0 (oidArcs oid) ≤ 2 ^ 31 :=
  ⟨size_of_right, right_of_size⟩

/-- The text of `n` ones behind dots. -/
def dottedOnes : Nat → Bytes
  | 0 => []
  | n + 1 => 0x2e :: 0x31 :: dottedOnes n

/-- `1.1.1…`, with `n` arcs behind the first. -/
def manyOnes (n : Nat) : Bytes := 0x31 :: dottedOnes n

theorem splitDot_one (n : Nat) : splitDot (0x31 :: dottedOnes n) = ([0x31], (dottedOnes n).drop 1) := by
  cases n with
  | zero => rfl
  | succ n => rfl

theorem arcNumber_one : arcNumber [0x31] = 1 := by decide

/-- The size of a one and of the arcs behind it. -/
theorem arcsSize_cons_one (i n : Nat) :
    arcsSize i (oidArcs (0x31 :: dottedOnes n)) =
      arcSize i 1 + arcsSize (i + 1) (oidArcs ((dottedOnes n).drop 1)) := by
  have hread : ¬ ([0x31] = ([] : Bytes) ∨ (1 : Int) < 0) := by decide
  rw [oidArcs, dif_neg (cons_ne_nil _ _), splitDot_one, arcsSize, arcNumber_one, if_neg hread]
  rfl

/-- Each one behind the first takes a byte. -/
theorem arcsSize_ones (n i : Nat) (hi : 1 ≤ i) (hint : i + n < 2 ^ 32) :
    arcsSize i (oidArcs ((dottedOnes n).drop 1)) = n := by
  induction n generalizing i with
  | zero =>
    rw [show (dottedOnes 0).drop 1 = [] from rfl, oidArcs, dif_pos rfl]
    rfl
  | succ n ih =>
    have hne : gint i ≠ 0 := by
      rw [gint, Int.bmod_def]
      omega
    have hsize : arcSize i 1 = 1 := by
      rw [arcSize, if_neg hne, Nat.log_of_lt (by decide)]
      exact ite_self 1
    rw [show (dottedOnes (n + 1)).drop 1 = 0x31 :: dottedOnes n from rfl, arcsSize_cons_one, hsize,
      ih (i + 1) (by omega) (by omega), Nat.add_comm]

theorem arcsSize_manyOnes {n : Nat} (h : n + 1 < 2 ^ 32) : arcsSize 0 (oidArcs (manyOnes n)) = n := by
  rw [manyOnes, arcsSize_cons_one, arcsSize_ones n 1 (Nat.le_refl 1) (by omega)]
  exact Nat.zero_add n

/-- The byte behind the `2 ^ 31`-th fails the assertion. -/
theorem many_ones_fail : ¬ WriterRight (manyOnes (2 ^ 31 + 1)) := by
  intro hright
  have hsize := size_of_right hright
  rw [arcsSize_manyOnes (by decide)] at hsize
  omega

end MateKeyring.Asn1x.OidWriter
