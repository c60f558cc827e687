import Mathlib.Algebra.Group.Nat.Defs
import Mathlib.Data.List.Forall2
import MateKeyring.Gpg.Agent

/-!
# Arguments in place

`decode_assuan_arg` writes an argument over with what it decodes to. At a percent sign it looks two bytes ahead, the
second time only if the first byte is a digit. `strchr` finds the terminator among the digits, so that a percent sign
that is the last byte has it look behind the terminator (`Opens`). What `decodeAssuanArg` gives is what is left in the
place of the argument (`decodeLoop_eq`), and an encoding on a line comes back as it was
(`assuan_arguments_right_iff`).
-/

set_option autoImplicit false

namespace MateKeyring.Gpg

open Lib List
open Egg (hexcUpper hexByte)

/-! ## Memory and accesses -/

/-- Memory, with the places that were read or written. -/
structure Memory where
  bytes : Bytes
  touched : List Nat

namespace Memory

/-- `p[i]` -/
def read (m : Memory) (i : Nat) : Checked (UInt8 × Memory) :=
  match m.bytes[i]? with
  | some b => .ok (b, { m with touched := m.touched ++ [i] })
  | none => .error .outOfBounds

/-- `p[i] = b` -/
def write (m : Memory) (i : Nat) (b : UInt8) : Checked Memory :=
  if i < m.bytes.length then .ok { bytes := m.bytes.set i b, touched := m.touched ++ [i] }
  else .error .outOfBounds

/-- `memmove (p + dest, p + src, n)` -/
def memmove (m : Memory) (dest src n : Nat) : Checked Memory :=
  if src + n ≤ m.bytes.length ∧ dest + n ≤ m.bytes.length then
    .ok {
      bytes := m.bytes.take dest ++ ((m.bytes.drop src).take n ++ m.bytes.drop (dest + n))
      touched := m.touched ++ (List.range' src n ++ List.range' dest n) }
  else .error .outOfBounds

end Memory

/-! ## `decode_assuan_arg` -/

/-- The second digit of an escape. -/
def decodeLow (arg : Nat) (m : Memory) : Checked Memory := do
  let (b, m) ← m.read (arg + 2)
  match hexChar b with
  | none => .ok m
  | some low => do
      let (c, m) ← m.read arg
      m.write arg (c ||| UInt8.ofNat low)

/-- The digits of an escape. -/
def decodeHex (arg : Nat) (m : Memory) : Checked Memory := do
  let m ← m.write arg 0x3f
  let (a, m) ← m.read (arg + 1)
  match hexChar a with
  | none => .ok m
  | some high => do
      let m ← m.write arg (UInt8.ofNat (high * 16))
      decodeLow arg m

/-- What is behind an escape takes the place of its digits. -/
def collapse (arg : Nat) (len : Int) (m : Memory) : Checked Memory :=
  -- last char, null terminate
  if len < 1 then m.write (arg + 1) 0
  else m.memmove (arg + 1) (arg + 3) len.toNat

/-- The loop of `decode_assuan_arg`; `none` is that it is not at an end. -/
def decodeLoop : Nat → Nat → Int → Memory → Checked (Option Memory)
  | 0, _, _, _ => .ok none
  | fuel + 1, arg, len, m =>
    if len > 0 then do
      let (c, m) ← m.read arg
      if c = 0x2b then do
        let m ← m.write arg blank
        decodeLoop fuel (arg + 1) (len - 1) m
      else if c = percent then do
        let m ← decodeHex arg m
        let len := len - 2
        let m ← collapse arg len m
        decodeLoop fuel (arg + 1) (len - 1) m
      else decodeLoop fuel (arg + 1) (len - 1) m
    else .ok (some m)

/-- `decode_assuan_arg` of an argument in memory, whose length is a `gint`. -/
def decodeAssuanArgAt (front text behind : Bytes) : Checked (Option Memory) :=
  decodeLoop (text.length + 1) front.length (Int.bmod text.length (2 ^ 32))
    { bytes := front ++ (text ++ 0 :: behind), touched := [] }

/-! ## Places -/

variable {m : Memory} {front text behind rest : Bytes} {a b c d e : UInt8}

theorem getElem_behind (front rest : Bytes) (k : Nat) : (front ++ rest)[front.length + k]? = rest[k]? := by
  rw [getElem?_append_right (Nat.le_add_right _ _), Nat.add_sub_cancel_left]

theorem set_behind (front rest : Bytes) (k : Nat) (b : UInt8) :
    (front ++ rest).set (front.length + k) b = front ++ rest.set k b := by
  rw [set_append_right _ _ (Nat.le_add_right _ _), Nat.add_sub_cancel_left]

theorem read_behind {k : Nat} (hbytes : m.bytes = front ++ rest) (hk : rest[k]? = some b) :
    m.read (front.length + k) = .ok (b, { m with touched := m.touched ++ [front.length + k] }) := by
  rw [Memory.read, hbytes, getElem_behind, hk]

theorem write_behind {k : Nat} (hbytes : m.bytes = front ++ rest) (hk : k < rest.length) (b : UInt8) :
    m.write (front.length + k) b =
      .ok { bytes := front ++ rest.set k b, touched := m.touched ++ [front.length + k] } := by
  have hlt : front.length + k < m.bytes.length := by
    rw [hbytes, length_append]
    omega
  rw [Memory.write, if_pos hlt, hbytes, set_behind]

/-! ## The steps of an escape -/

/-- `m'` is left of `m`, with these bytes, and only these places were touched besides. -/
def Leaves (m m' : Memory) (bytes : Bytes) (places : Nat → Prop) : Prop :=
  m'.bytes = bytes ∧ ∃ l, m'.touched = m.touched ++ l ∧ ∀ i ∈ l, places i

theorem Leaves.trans {m m' m'' : Memory} {bytes bytes' : Bytes} {places : Nat → Prop}
    (h : Leaves m m' bytes places) (h' : Leaves m' m'' bytes' places) : Leaves m m'' bytes' places := by
  obtain ⟨-, l, hl, hplaces⟩ := h
  obtain ⟨hbytes, l', hl', hplaces'⟩ := h'
  refine ⟨hbytes, l ++ l', by rw [hl', hl, append_assoc], fun i hi => ?_⟩
  rcases mem_append.1 hi with hi | hi
  · exact hplaces i hi
  · exact hplaces' i hi

theorem Leaves.mono {m m' : Memory} {bytes : Bytes} {places places' : Nat → Prop} (h : Leaves m m' bytes places)
    (hle : ∀ i, places i → places' i) : Leaves m m' bytes places' := by
  obtain ⟨hbytes, l, hl, hplaces⟩ := h
  exact ⟨hbytes, l, hl, fun i hi => hle i (hplaces i hi)⟩

theorem leaves_read {k : Nat} (hbytes : m.bytes = front ++ rest) (hk : rest[k]? = some b) :
    ∃ m', m.read (front.length + k) = .ok (b, m') ∧
      Leaves m m' (front ++ rest) fun i => i = front.length + k :=
  ⟨_, read_behind hbytes hk, hbytes, [front.length + k], rfl, fun _ hi => mem_singleton.1 hi⟩

theorem leaves_write {k : Nat} (hbytes : m.bytes = front ++ rest) (hk : k < rest.length) (b : UInt8) :
    ∃ m', m.write (front.length + k) b = .ok m' ∧
      Leaves m m' (front ++ rest.set k b) fun i => i = front.length + k :=
  ⟨_, write_behind hbytes hk b, rfl, [front.length + k], rfl, fun _ hi => mem_singleton.1 hi⟩

theorem hexChar_lt {n : Nat} (h : hexChar b = some n) : n < 16 := by
  rw [hexChar] at h
  split at h
  · cases h
    decide
  · have hlt := (findIdx?_eq_some_iff_findIdx_eq.1 h).1
    exact hlt.trans_le (by decide)

/-- The two digits of a byte. -/
theorem or_digits {high low : Nat} (hhigh : high < 16) (hlow : low < 16) :
    UInt8.ofNat (high * 16) ||| UInt8.ofNat low = UInt8.ofNat (high * 16 + low) := by
  have hall : ∀ high < 16, ∀ low < 16,
      UInt8.ofNat (high * 16) ||| UInt8.ofNat low = UInt8.ofNat (high * 16 + low) := by decide
  exact hall high hhigh low hlow

/-- The two bytes behind a percent sign are read, and no others; the second one if the first is a digit. -/
theorem decodeHex_eq (hbytes : m.bytes = front ++ c :: a :: b :: rest) :
    ∃ m', decodeHex front.length m = .ok m' ∧
      Leaves m m' (front ++ hexEscape a b :: a :: b :: rest) fun i => i ≤ front.length + 2 := by
  obtain ⟨m₁, hm₁, hleaves₁⟩ := @leaves_write m front _ 0 hbytes (Nat.succ_pos _) 0x3f
  obtain ⟨m₂, hm₂, hleaves₂⟩ := @leaves_read m₁ front _ a 1 hleaves₁.1 rfl
  have hplaces : ∀ {k : Nat}, k ≤ 2 → ∀ i, i = front.length + k → i ≤ front.length + 2 := by
    rintro k hk i rfl
    omega
  have hstart : Leaves m m₂ (front ++ 0x3f :: a :: b :: rest) fun i => i ≤ front.length + 2 :=
    (hleaves₁.mono (hplaces (by decide))).trans (hleaves₂.mono (hplaces (by decide)))
  rw [Nat.add_zero] at hm₁
  rw [decodeHex, hm₁]
  simp only [ok_bind, hm₂]
  cases hhigh : hexChar a with
  | none =>
    refine ⟨m₂, rfl, ?_⟩
    rwa [hexEscape, hhigh]
  | some high =>
    obtain ⟨m₃, hm₃, hleaves₃⟩ := @leaves_write m₂ front _ 0 hstart.1 (Nat.succ_pos _) (UInt8.ofNat (high * 16))
    obtain ⟨m₄, hm₄, hleaves₄⟩ := @leaves_read m₃ front _ b 2 hleaves₃.1 rfl
    have hnext := (hstart.trans (hleaves₃.mono (hplaces (by decide)))).trans (hleaves₄.mono (hplaces (by decide)))
    rw [Nat.add_zero] at hm₃
    simp only [hm₃, ok_bind, decodeLow, hm₄]
    cases hlow : hexChar b with
    | none =>
      refine ⟨m₄, rfl, ?_⟩
      rw [hexEscape, hhigh, hlow]
      exact hnext
    | some low =>
      obtain ⟨m₅, hm₅, hleaves₅⟩ := @leaves_read m₄ front _ (UInt8.ofNat (high * 16)) 0 hnext.1 rfl
      obtain ⟨m₆, hm₆, hleaves₆⟩ := @leaves_write m₅ front _ 0 hleaves₅.1 (Nat.succ_pos _)
        (UInt8.ofNat (high * 16) ||| UInt8.ofNat low)
      rw [Nat.add_zero] at hm₅ hm₆
      simp only [hm₅, ok_bind]
      refine ⟨m₆, hm₆, ?_⟩
      have hlast := (hnext.trans (hleaves₅.mono (hplaces (by decide)))).trans
        (hleaves₆.mono (hplaces (by decide)))
      rw [or_digits (hexChar_lt hhigh) (hexChar_lt hlow)] at hlast
      rw [hexEscape, hhigh, hlow]
      exact hlast

/-- What is left behind a text that has moved by two places. -/
theorem drop_moved (e : UInt8) (s t : Bytes) : (e :: (s ++ t)).drop s.length = s.getLastD e :: t := by
  induction s generalizing e with
  | nil => rfl
  | cons c s ih =>
    rw [cons_append, length_cons, drop_succ_cons, ih, getLastD_cons]

/-- The text behind an escape moves to its second place, with its terminator. -/
theorem collapse_eq {text : Bytes} (hbytes : m.bytes = front ++ c :: d :: e :: (text ++ 0 :: behind)) :
    ∃ m', collapse front.length ((text.length + 1 : Nat) : Int) m = .ok m' ∧
      Leaves m m' (front ++ c :: (text ++ 0 :: text.getLastD e :: 0 :: behind))
        fun i => i ≤ front.length + 3 + text.length := by
  have hfits : front.length + 3 + (text.length + 1) ≤ m.bytes.length ∧
      front.length + 1 + (text.length + 1) ≤ m.bytes.length := by
    rw [hbytes]
    simp only [length_append, length_cons]
    omega
  have htake : m.bytes.take (front.length + 1) = front ++ [c] := by
    have hsplit : m.bytes = front ++ [c] ++ d :: e :: (text ++ 0 :: behind) := by
      rw [hbytes, append_assoc]
      rfl
    rw [hsplit]
    exact take_left' (by rw [length_append, length_singleton])
  have hmoved : (m.bytes.drop (front.length + 3)).take (text.length + 1) = text ++ [0] := by
    have hsplit : m.bytes = front ++ [c, d, e] ++ (text ++ [0] ++ behind) := by
      rw [hbytes, append_assoc, append_assoc]
      rfl
    rw [hsplit, drop_left' (by rw [length_append]; rfl)]
    exact take_left' (by rw [length_append, length_singleton])
  have hleft : m.bytes.drop (front.length + 1 + (text.length + 1)) = text.getLastD e :: 0 :: behind := by
    have hsplit : m.bytes = front ++ [c, d] ++ (e :: (text ++ 0 :: behind)) := by
      rw [hbytes, append_assoc]
      rfl
    have hlength : front.length + 1 + (text.length + 1) = (front ++ [c, d]).length + text.length := by
      simp only [length_append, length_cons, length_nil]
      omega
    rw [hsplit, hlength, ← drop_drop, drop_left, drop_moved]
  have hmove : m.memmove (front.length + 1) (front.length + 3) (text.length + 1) = .ok {
      bytes := front ++ c :: (text ++ 0 :: text.getLastD e :: 0 :: behind)
      touched := m.touched ++
        (List.range' (front.length + 3) (text.length + 1) ++ List.range' (front.length + 1) (text.length + 1)) } := by
    rw [Memory.memmove, if_pos hfits, htake, hmoved, hleft]
    simp only [append_assoc, cons_append, nil_append]
  have hlen : ¬ ((text.length + 1 : Nat) : Int) < 1 := by omega
  rw [collapse, if_neg hlen, Int.toNat_natCast, hmove]
  refine ⟨_, rfl, rfl, _, rfl, fun i hi => ?_⟩
  rcases mem_append.1 hi with hi | hi
  · have hlt := (List.mem_range'_1.1 hi).2
    omega
  · have hlt := (List.mem_range'_1.1 hi).2
    omega

/-! ## The loop -/

/-- The first percent sign is the last byte. -/
def Opens : Bytes → Prop
  | [] => False
  | [c] => c = percent
  | c :: d :: text => c ≠ percent ∧ Opens (d :: text)

theorem opens_cons (hc : c ≠ percent) (text : Bytes) : Opens (c :: text) ↔ Opens text := by
  cases text with
  | nil => exact iff_of_false hc id
  | cons d text => exact and_iff_right hc

/-- A byte that is no percent sign stands for itself, or for a space. -/
theorem decodeAssuanArg_cons (hc : c ≠ percent) (b : UInt8) (text : Bytes) :
    decodeAssuanArg b (c :: text) = (if c = 0x2b then blank else c) :: decodeAssuanArg b text := by
  rcases text with _ | ⟨d, _ | ⟨e, text⟩⟩
  · simp only [decodeAssuanArg, if_neg hc]
  · simp only [decodeAssuanArg, if_neg hc]
  · simp only [decodeAssuanArg, if_neg hc]

theorem decodeLoop_nil {fuel arg : Nat} {len : Int} (hlen : len ≤ 0) :
    decodeLoop (fuel + 1) arg len m = .ok (some m) := by
  rw [decodeLoop, if_neg (by omega)]

/-- A turn at a byte that is no percent sign. -/
theorem decodeLoop_plain {fuel : Nat} {len : Int} (hlen : 0 < len) (hc : c ≠ percent)
    (hbytes : m.bytes = front ++ c :: rest) :
    ∃ m', decodeLoop (fuel + 1) front.length len m = decodeLoop fuel (front.length + 1) (len - 1) m' ∧
      Leaves m m' (front ++ (if c = 0x2b then blank else c) :: rest) fun i => i = front.length := by
  obtain ⟨m₁, hm₁, hleaves₁⟩ := @leaves_read m front _ c 0 hbytes rfl
  rw [Nat.add_zero] at hm₁ hleaves₁
  rw [decodeLoop, if_pos hlen, hm₁]
  by_cases hplus : c = 0x2b
  · obtain ⟨m₂, hm₂, hleaves₂⟩ := @leaves_write m₁ front _ 0 hleaves₁.1 (Nat.succ_pos _) blank
    rw [Nat.add_zero] at hm₂ hleaves₂
    simp only [ok_bind, if_pos hplus, hm₂]
    exact ⟨m₂, rfl, hleaves₁.trans hleaves₂⟩
  · simp only [ok_bind, if_neg hplus, if_neg hc]
    exact ⟨m₁, rfl, hleaves₁⟩

/-- A turn at a percent sign that has two bytes behind it. -/
theorem decodeLoop_escape {fuel : Nat} {text : Bytes}
    (hbytes : m.bytes = front ++ percent :: d :: e :: (text ++ 0 :: behind)) :
    ∃ m', decodeLoop (fuel + 1) front.length ((text.length + 3 : Nat) : Int) m =
        decodeLoop fuel (front.length + 1) text.length m' ∧
      Leaves m m' (front ++ hexEscape d e :: (text ++ 0 :: text.getLastD e :: 0 :: behind))
        fun i => i ≤ front.length + 3 + text.length := by
  obtain ⟨m₁, hm₁, hleaves₁⟩ := @leaves_read m front _ percent 0 hbytes rfl
  obtain ⟨m₂, hm₂, hleaves₂⟩ := decodeHex_eq hleaves₁.1
  obtain ⟨m₃, hm₃, hleaves₃⟩ := collapse_eq hleaves₂.1
  rw [Nat.add_zero] at hm₁ hleaves₁
  have hlen : ((text.length + 3 : Nat) : Int) - 2 = ((text.length + 1 : Nat) : Int) := by omega
  have hlen' : ((text.length + 1 : Nat) : Int) - 1 = (text.length : Int) := by omega
  refine ⟨m₃, ?_, ((hleaves₁.mono ?_).trans (hleaves₂.mono ?_)).trans hleaves₃⟩
  · rw [decodeLoop, if_pos (by omega), hm₁]
    simp only [ok_bind, if_neg (by decide : ¬ percent = 0x2b), if_true, hm₂, hlen, hm₃, hlen']
  · rintro i rfl
    omega
  · intro i hi
    omega

/-- A turn at a percent sign that has one byte behind it, or none. -/
theorem decodeLoop_short {fuel : Nat} {len : Int} (hlen : 0 < len) (hlen' : len ≤ 2)
    (hbytes : m.bytes = front ++ percent :: a :: b :: rest) :
    ∃ m', decodeLoop (fuel + 2) front.length len m = .ok (some m') ∧
      Leaves m m' (front ++ hexEscape a b :: 0 :: b :: rest) fun i => i ≤ front.length + 2 := by
  obtain ⟨m₁, hm₁, hleaves₁⟩ := @leaves_read m front _ percent 0 hbytes rfl
  obtain ⟨m₂, hm₂, hleaves₂⟩ := decodeHex_eq hleaves₁.1
  obtain ⟨m₃, hm₃, hleaves₃⟩ := @leaves_write m₂ front _ 1 hleaves₂.1 (by simp) 0
  rw [Nat.add_zero] at hm₁ hleaves₁
  refine ⟨m₃, ?_, ((hleaves₁.mono ?_).trans hleaves₂).trans (hleaves₃.mono ?_)⟩
  · rw [decodeLoop, if_pos hlen, hm₁]
    simp only [ok_bind, if_neg (by decide : ¬ percent = 0x2b), if_true, hm₂, collapse,
      if_pos (by omega : len - 2 < 1), hm₃]
    exact decodeLoop_nil (by omega)
  · rintro i rfl
    omega
  · rintro i rfl
    omega

/-- What the loop leaves of the text that is still there. Only a percent sign that is the last byte, and the first one,
has it look behind the terminator. -/
theorem decodeLoop_eq {fuel : Nat} {text : Bytes} (hfuel : text.length < fuel)
    (hbytes : m.bytes = front ++ (text ++ 0 :: behind)) (hbehind : Opens text → behind ≠ []) :
    ∃ m' tail, decodeLoop fuel front.length text.length m = .ok (some m') ∧
      Leaves m m' (front ++ (decodeAssuanArg (behind.headD 0) text ++ 0 :: tail))
        fun i => i ≤ front.length + text.length ∨ Opens text ∧ i ≤ front.length + text.length + 1 := by
  induction fuel generalizing m front text behind with
  | zero => exact absurd hfuel (Nat.not_lt_zero _)
  | succ fuel ih =>
    -- a byte that is no percent sign
    have hplain : ∀ {c : UInt8} {rest : Bytes}, text = c :: rest → c ≠ percent →
        ∃ m' tail, decodeLoop (fuel + 1) front.length text.length m = .ok (some m') ∧
          Leaves m m' (front ++ (decodeAssuanArg (behind.headD 0) text ++ 0 :: tail))
            fun i => i ≤ front.length + text.length ∨ Opens text ∧ i ≤ front.length + text.length + 1 := by
      rintro c rest rfl hc
      obtain ⟨m₁, hm₁, hleaves⟩ := @decodeLoop_plain m front (rest ++ 0 :: behind) c fuel
        ((c :: rest).length : Int) (by rw [length_cons]; omega) hc hbytes
      have hlen : ((c :: rest).length : Int) - 1 = (rest.length : Int) := by
        rw [length_cons]
        omega
      have hbytes' : m₁.bytes = front ++ [if c = 0x2b then blank else c] ++ (rest ++ 0 :: behind) := by
        rw [hleaves.1, append_assoc]
        rfl
      have hlength : (front ++ [if c = 0x2b then blank else c]).length = front.length + 1 := by
        rw [length_append, length_singleton]
      rw [opens_cons hc] at hbehind ⊢
      obtain ⟨m', tail, hm', hleaves'⟩ := ih (Nat.lt_of_succ_lt_succ hfuel) hbytes' hbehind
      rw [hlength] at hm' hleaves'
      refine ⟨m', tail, ?_, ?_⟩
      · rw [hm₁, hlen, hm']
      · rw [decodeAssuanArg_cons hc]
        rw [append_assoc] at hleaves'
        refine (hleaves.mono ?_).trans (hleaves'.mono ?_)
        · rintro i rfl
          exact .inl (Nat.le_add_right _ _)
        · rw [length_cons]
          rintro i (hi | ⟨hopen, hi⟩)
          · exact .inl (by omega)
          · exact .inr ⟨hopen, by omega⟩
    rcases text with _ | ⟨c, _ | ⟨d, _ | ⟨e, text⟩⟩⟩
    · refine ⟨m, behind, decodeLoop_nil (Int.le_refl 0), hbytes, [], (append_nil _).symm, fun i hi => ?_⟩
      cases hi
    · by_cases hc : c = percent
      · -- the terminator is taken for a digit
        subst hc
        obtain ⟨b, behind, rfl⟩ := exists_cons_of_ne_nil (hbehind rfl)
        obtain ⟨fuel, rfl⟩ := Nat.exists_eq_add_one_of_ne_zero (by rw [length_singleton] at hfuel; omega : fuel ≠ 0)
        obtain ⟨m', hm', hleaves⟩ := @decodeLoop_short m front behind 0 b fuel 1 (by decide) (by decide) hbytes
        refine ⟨m', b :: behind, hm', hleaves.mono fun i hi => .inr ⟨rfl, hi⟩⟩
      · exact hplain rfl hc
    · by_cases hc : c = percent
      · subst hc
        obtain ⟨fuel, rfl⟩ := Nat.exists_eq_add_one_of_ne_zero
          (by rw [length_cons, length_singleton] at hfuel; omega : fuel ≠ 0)
        obtain ⟨m', hm', hleaves⟩ := @decodeLoop_short m front behind d 0 fuel 2 (by decide) (by decide) hbytes
        refine ⟨m', 0 :: behind, hm', hleaves.mono fun i hi => .inl hi⟩
      · exact hplain rfl hc
    · by_cases hc : c = percent
      · -- the byte behind the new terminator is one of the old text
        subst hc
        obtain ⟨m₁, hm₁, hleaves⟩ := @decodeLoop_escape m front behind d e fuel text hbytes
        have hbytes' : m₁.bytes =
            front ++ [hexEscape d e] ++ (text ++ 0 :: text.getLastD e :: 0 :: behind) := by
          rw [hleaves.1, append_assoc]
          rfl
        have hlength : (front ++ [hexEscape d e]).length = front.length + 1 := by
          rw [length_append, length_singleton]
        have hshorter : text.length < fuel := by
          simp only [length_cons] at hfuel
          omega
        obtain ⟨m', tail, hm', hleaves'⟩ := ih hshorter hbytes' fun _ => cons_ne_nil _ _
        rw [hlength] at hm' hleaves'
        rw [append_assoc] at hleaves'
        refine ⟨m', tail, hm₁.trans hm', (hleaves.mono ?_).trans (hleaves'.mono ?_)⟩
        · simp only [length_cons]
          intro i hi
          exact .inl (by omega)
        · simp only [length_cons]
          rintro i (hi | ⟨-, hi⟩)
          · exact .inl (by omega)
          · exact .inl (by omega)
      · exact hplain rfl hc

/-! ## Behind the terminator -/

section Records

variable {m' : Memory} {arg i : Nat}

theorem read_touched (h : m.read i = .ok (b, m')) : m'.touched = m.touched ++ [i] := by
  rw [Memory.read] at h
  split at h
  · cases h
    rfl
  · cases h

theorem write_touched (h : m.write i b = .ok m') : m'.touched = m.touched ++ [i] := by
  rw [Memory.write] at h
  split at h
  · cases h
    rfl
  · cases h

theorem decodeLow_touched (h : decodeLow arg m = .ok m') : m.touched ++ [arg + 2] <+: m'.touched := by
  obtain ⟨⟨b, m₁⟩, hm₁, h⟩ := bind_eq_ok.1 h
  rw [← read_touched hm₁]
  dsimp only at h
  split at h
  · cases h
    exact prefix_rfl
  · obtain ⟨⟨c, m₂⟩, hm₂, h⟩ := bind_eq_ok.1 h
    have hread := read_touched hm₂
    have hwrite := write_touched h
    exact ⟨[arg] ++ [arg], by rw [hwrite, hread, append_assoc]⟩

theorem decodeHex_touched (h : decodeHex arg m = .ok m') : m.touched <+: m'.touched := by
  obtain ⟨m₁, hm₁, h⟩ := bind_eq_ok.1 h
  obtain ⟨⟨a, m₂⟩, hm₂, h⟩ := bind_eq_ok.1 h
  have hstart : m.touched <+: m₂.touched :=
    ⟨[arg] ++ [arg + 1], by rw [read_touched hm₂, write_touched hm₁, append_assoc]⟩
  dsimp only at h
  split at h
  · cases h
    exact hstart
  · obtain ⟨m₃, hm₃, h⟩ := bind_eq_ok.1 h
    have hmore : m₂.touched <+: m₃.touched := ⟨[arg], (write_touched hm₃).symm⟩
    exact (hstart.trans hmore).trans ((prefix_append _ _).trans (decodeLow_touched h))

theorem collapse_touched {len : Int} (h : collapse arg len m = .ok m') : m.touched <+: m'.touched := by
  rw [collapse] at h
  split at h
  · exact ⟨_, (write_touched h).symm⟩
  · rw [Memory.memmove] at h
    split at h
    · cases h
      exact prefix_append _ _
    · cases h

theorem decodeLoop_touched {fuel : Nat} {len : Int} (h : decodeLoop fuel arg len m = .ok (some m')) :
    m.touched <+: m'.touched := by
  induction fuel generalizing arg len m with
  | zero => cases h
  | succ fuel ih =>
    rw [decodeLoop] at h
    split at h
    · obtain ⟨⟨c, m₁⟩, hm₁, h⟩ := bind_eq_ok.1 h
      have hread : m.touched <+: m₁.touched := ⟨_, (read_touched hm₁).symm⟩
      dsimp only at h
      split at h
      · obtain ⟨m₂, hm₂, h⟩ := bind_eq_ok.1 h
        have hwrite : m₁.touched <+: m₂.touched := ⟨_, (write_touched hm₂).symm⟩
        exact (hread.trans hwrite).trans (ih h)
      · split at h
        · obtain ⟨m₂, hm₂, h⟩ := bind_eq_ok.1 h
          obtain ⟨m₃, hm₃, h⟩ := bind_eq_ok.1 h
          exact ((hread.trans (decodeHex_touched hm₂)).trans (collapse_touched hm₃)).trans (ih h)
        · exact hread.trans (ih h)
    · cases h
      exact prefix_rfl

/-- The terminator is found among the digits. -/
theorem decodeHex_looks (hbytes : m.bytes = front ++ c :: 0 :: rest) (h : decodeHex front.length m = .ok m') :
    front.length + 2 ∈ m'.touched := by
  obtain ⟨m₁, hm₁, hleaves₁⟩ := @leaves_write m front _ 0 hbytes (Nat.succ_pos _) 0x3f
  obtain ⟨m₂, hm₂, -⟩ := @leaves_read m₁ front _ 0 1 hleaves₁.1 rfl
  rw [Nat.add_zero] at hm₁
  have hzero : hexChar 0 = some 0 := rfl
  rw [decodeHex, hm₁] at h
  simp only [ok_bind, hm₂, hzero] at h
  obtain ⟨m₃, -, h⟩ := bind_eq_ok.1 h
  exact (decodeLow_touched h).subset (mem_append_right _ (mem_singleton_self _))

/-- A percent sign that is the last byte, and the first one, has the loop look behind the terminator. -/
theorem decodeLoop_opens {fuel : Nat} {text : Bytes} (hopens : Opens text)
    (hbytes : m.bytes = front ++ (text ++ 0 :: behind))
    (h : decodeLoop fuel front.length text.length m = .ok (some m')) :
    front.length + text.length + 1 ∈ m'.touched := by
  induction text generalizing m front fuel with
  | nil => exact absurd hopens id
  | cons c text ih =>
    cases fuel with
    | zero => cases h
    | succ fuel =>
      have hlen : (0 : Int) < ((c :: text).length : Int) := by
        rw [length_cons]
        omega
      by_cases hc : c = percent
      · subst hc
        cases text with
        | nil =>
          obtain ⟨m₁, hm₁, hleaves₁⟩ := @leaves_read m front _ percent 0 hbytes rfl
          rw [Nat.add_zero] at hm₁
          rw [decodeLoop, if_pos hlen, hm₁] at h
          simp only [ok_bind, if_neg (by decide : ¬ percent = 0x2b), if_true] at h
          obtain ⟨m₂, hm₂, h⟩ := bind_eq_ok.1 h
          obtain ⟨m₃, hm₃, h⟩ := bind_eq_ok.1 h
          have hlook := decodeHex_looks hleaves₁.1 hm₂
          exact ((collapse_touched hm₃).trans (decodeLoop_touched h)).subset hlook
        | cons d text => exact absurd rfl hopens.1
      · obtain ⟨m₁, hm₁, hleaves⟩ := @decodeLoop_plain m front (text ++ 0 :: behind) c fuel _ hlen hc hbytes
        have hbytes' : m₁.bytes = front ++ [if c = 0x2b then blank else c] ++ (text ++ 0 :: behind) := by
          rw [hleaves.1, append_assoc]
          rfl
        have hlength : (front ++ [if c = 0x2b then blank else c]).length = front.length + 1 := by
          rw [length_append, length_singleton]
        have hlen' : ((c :: text).length : Int) - 1 = (text.length : Int) := by
          rw [length_cons]
          omega
        rw [hm₁, hlen', ← hlength] at h
        have hlook := ih ((opens_cons hc text).1 hopens) hbytes' h
        rw [hlength] at hlook
        rw [length_cons]
        have hplace : front.length + (text.length + 1) + 1 = front.length + 1 + text.length + 1 := by omega
        rwa [hplace]

end Records

/-! ## Long arguments -/

/-- `m'` is left of `m`, with as much memory, and only places in front of `n` were touched besides. -/
def Inside (m m' : Memory) (n : Int) : Prop :=
  m'.bytes.length = m.bytes.length ∧ ∃ l, m'.touched = m.touched ++ l ∧ ∀ i ∈ l, (i : Int) < n

theorem Inside.trans {m m' m'' : Memory} {n : Int} (h : Inside m m' n) (h' : Inside m' m'' n) : Inside m m'' n := by
  obtain ⟨hlength, l, hl, hplaces⟩ := h
  obtain ⟨hlength', l', hl', hplaces'⟩ := h'
  refine ⟨hlength'.trans hlength, l ++ l', by rw [hl', hl, append_assoc], fun i hi => ?_⟩
  rcases mem_append.1 hi with hi | hi
  · exact hplaces i hi
  · exact hplaces' i hi

section Inside

variable {arg i : Nat} {n : Int}

theorem inside_read (hi : i < m.bytes.length) (hn : (i : Int) < n) :
    ∃ b m', m.read i = .ok (b, m') ∧ Inside m m' n := by
  refine ⟨m.bytes[i], { m with touched := m.touched ++ [i] }, ?_, rfl, [i], rfl, fun j hj => ?_⟩
  · rw [Memory.read, getElem?_eq_getElem hi]
  · rwa [mem_singleton.1 hj]

theorem inside_write (hi : i < m.bytes.length) (hn : (i : Int) < n) (b : UInt8) :
    ∃ m', m.write i b = .ok m' ∧ Inside m m' n := by
  refine ⟨{ bytes := m.bytes.set i b, touched := m.touched ++ [i] }, if_pos hi, length_set, [i], rfl, fun j hj => ?_⟩
  rwa [mem_singleton.1 hj]

theorem inside_decodeLow (harg : arg + 2 < m.bytes.length) (hn : (arg + 2 : Int) < n) :
    ∃ m', decodeLow arg m = .ok m' ∧ Inside m m' n := by
  obtain ⟨b, m₁, hm₁, hinside₁⟩ := @inside_read m (arg + 2) n harg (by omega)
  rw [decodeLow, hm₁, ok_bind]
  dsimp only
  cases hexChar b with
  | none => exact ⟨m₁, rfl, hinside₁⟩
  | some low =>
    have hlength := hinside₁.1
    obtain ⟨c, m₂, hm₂, hinside₂⟩ := @inside_read m₁ arg n (by omega) (by omega)
    have hlength' := hinside₂.1
    obtain ⟨m₃, hm₃, hinside₃⟩ := @inside_write m₂ arg n (by omega) (by omega) (c ||| UInt8.ofNat low)
    refine ⟨m₃, ?_, (hinside₁.trans hinside₂).trans hinside₃⟩
    simp only [hm₂, ok_bind, hm₃]

theorem inside_decodeHex (harg : arg + 2 < m.bytes.length) (hn : (arg + 2 : Int) < n) :
    ∃ m', decodeHex arg m = .ok m' ∧ Inside m m' n := by
  obtain ⟨m₁, hm₁, hinside₁⟩ := @inside_write m arg n (by omega) (by omega) 0x3f
  have hlength := hinside₁.1
  obtain ⟨a, m₂, hm₂, hinside₂⟩ := @inside_read m₁ (arg + 1) n (by omega) (by omega)
  have hlength' := hinside₂.1
  rw [decodeHex, hm₁, ok_bind, hm₂, ok_bind]
  dsimp only
  cases hexChar a with
  | none => exact ⟨m₂, rfl, hinside₁.trans hinside₂⟩
  | some high =>
    obtain ⟨m₃, hm₃, hinside₃⟩ := @inside_write m₂ arg n (by omega) (by omega) (UInt8.ofNat (high * 16))
    have hlength'' := hinside₃.1
    obtain ⟨m₄, hm₄, hinside₄⟩ := @inside_decodeLow m₃ arg n (by omega) hn
    refine ⟨m₄, ?_, ((hinside₁.trans hinside₂).trans hinside₃).trans hinside₄⟩
    simp only [hm₃, ok_bind, hm₄]

theorem inside_collapse {len : Int} (hlen : len ≥ -1) (harg : (arg : Int) + len + 5 ≤ m.bytes.length)
    (hn : (arg : Int) + len + 5 ≤ n) : ∃ m', collapse arg len m = .ok m' ∧ Inside m m' n := by
  rw [collapse]
  by_cases hshort : len < 1
  · rw [if_pos hshort]
    exact inside_write (by omega) (by omega) 0
  · rw [if_neg hshort, Memory.memmove, if_pos (by omega)]
    refine ⟨_, rfl, ?_, _, rfl, fun i hi => ?_⟩
    · simp only [length_append, length_take, length_drop]
      omega
    · rcases mem_append.1 hi with hi | hi
      · have hlt := (List.mem_range'_1.1 hi).2
        omega
      · have hlt := (List.mem_range'_1.1 hi).2
        omega

/-- A loop for fewer bytes than there are stays inside of them. -/
theorem inside_decodeLoop {fuel : Nat} {len : Int} (hfuel : len < fuel) (hpos : 0 < fuel)
    (harg : 0 < len → (arg : Int) + len + 3 ≤ m.bytes.length) (hn : 0 < len → (arg : Int) + len + 3 ≤ n) :
    ∃ m', decodeLoop fuel arg len m = .ok (some m') ∧ Inside m m' n := by
  induction fuel generalizing arg len m with
  | zero => exact absurd hpos (Nat.lt_irrefl 0)
  | succ fuel ih =>
    rw [decodeLoop]
    by_cases hlen : len > 0
    · have harg' := harg hlen
      have hn' := hn hlen
      obtain ⟨c, m₁, hm₁, hinside₁⟩ := @inside_read m arg n (by omega) (by omega)
      have hlength := hinside₁.1
      rw [if_pos hlen, hm₁, ok_bind]
      dsimp only
      by_cases hplus : c = 0x2b
      · obtain ⟨m₂, hm₂, hinside₂⟩ := @inside_write m₁ arg n (by omega) (by omega) blank
        have hlength' := hinside₂.1
        obtain ⟨m₃, hm₃, hinside₃⟩ := @ih m₂ (arg + 1) (len - 1) (by omega) (by omega) (by omega) (by omega)
        refine ⟨m₃, ?_, (hinside₁.trans hinside₂).trans hinside₃⟩
        rw [if_pos hplus, hm₂, ok_bind, hm₃]
      · rw [if_neg hplus]
        by_cases hpercent : c = percent
        · obtain ⟨m₂, hm₂, hinside₂⟩ := @inside_decodeHex m₁ arg n (by omega) (by omega)
          have hlength' := hinside₂.1
          obtain ⟨m₃, hm₃, hinside₃⟩ := @inside_collapse m₂ arg n (len - 2) (by omega) (by omega) (by omega)
          have hlength'' := hinside₃.1
          obtain ⟨m₄, hm₄, hinside₄⟩ := @ih m₃ (arg + 1) (len - 2 - 1) (by omega) (by omega) (by omega) (by omega)
          refine ⟨m₄, ?_, ((hinside₁.trans hinside₂).trans hinside₃).trans hinside₄⟩
          rw [if_pos hpercent, hm₂, ok_bind, hm₃, ok_bind, hm₄]
        · obtain ⟨m₂, hm₂, hinside₂⟩ := @ih m₁ (arg + 1) (len - 1) (by omega) (by omega) (by omega) (by omega)
          refine ⟨m₂, ?_, hinside₁.trans hinside₂⟩
          rw [if_neg hpercent, hm₂]
    · rw [if_neg hlen]
      exact ⟨m, rfl, rfl, [], (append_nil _).symm, fun i hi => by cases hi⟩

end Inside

/-- An argument is decoded without a look at what is behind its terminator. -/
def Bounded (front text behind : Bytes) : Prop :=
  ∃ m, decodeAssuanArgAt front text behind = .ok (some m) ∧ ∀ i ∈ m.touched, i ≤ front.length + text.length

theorem bmod_length {n : Nat} (h : n < 2 ^ 31) : Int.bmod (n : Int) (2 ^ 32) = (n : Int) := by
  rw [Int.bmod_eq_of_le] <;> omega

/-- Exactly a percent sign that is the last byte, and the first one, goes wrong, in an argument whose length is not
less than nothing as a `gint`. -/
theorem bounded_iff {text : Bytes} :
    Bounded front text behind ↔ ¬ (Opens text ∧ text.length < 2 ^ 31) := by
  by_cases hlength : text.length < 2 ^ 31
  · rw [Bounded, decodeAssuanArgAt, bmod_length hlength, and_iff_left hlength]
    constructor
    · rintro ⟨m, hm, htouched⟩ hopens
      have hlook := htouched _ (decodeLoop_opens hopens rfl hm)
      omega
    · intro hopens
      obtain ⟨m, tail, hm, -, l, hl, hplaces⟩ := @decodeLoop_eq
        { bytes := front ++ (text ++ 0 :: behind), touched := [] } front behind (text.length + 1) text
        (Nat.lt_succ_self _) rfl fun h => absurd h hopens
      refine ⟨m, hm, fun i hi => ?_⟩
      rw [hl, nil_append] at hi
      exact (hplaces i hi).resolve_right fun h => hopens h.1
  · refine iff_of_true ?_ fun h => hlength h.2
    -- a length that is too long for a `gint` comes out smaller by 2^32 at least
    have hsmall : Int.bmod (text.length : Int) (2 ^ 32) ≤ (text.length : Int) - 2 ^ 32 := by
      rw [Int.bmod_def]
      split <;> omega
    have hbytes : (front ++ (text ++ 0 :: behind)).length = front.length + (text.length + (behind.length + 1)) := by
      simp only [length_append, length_cons]
    obtain ⟨m, hm, -, l, hl, hplaces⟩ := @inside_decodeLoop
      { bytes := front ++ (text ++ 0 :: behind), touched := [] } front.length (front.length + text.length + 1)
      (text.length + 1) (Int.bmod (text.length : Int) (2 ^ 32)) (by omega) (Nat.succ_pos _)
      (fun _ => by rw [hbytes]; omega) (fun _ => by omega)
    refine ⟨m, hm, fun i hi => ?_⟩
    rw [hl, nil_append] at hi
    have hlt := hplaces i hi
    omega

/-! ## Encodings -/

/-- The second text is an encoding of the first one. A space is a plus sign or escaped, and a percent sign, a plus sign
and other white space are always escaped. -/
inductive Encodes : Bytes → Bytes → Prop where
  | nil : Encodes [] []
  | plus {s e : Bytes} : Encodes s e → Encodes (blank :: s) (0x2b :: e)
  | plain {c : UInt8} {s e : Bytes} : c ≠ 0 → c ≠ percent → c ≠ 0x2b → isSpace c = false → Encodes s e →
      Encodes (c :: s) (c :: e)
  | hex {c : UInt8} {s e : Bytes} : c ≠ 0 → Encodes s e → Encodes (c :: s) (percent :: (hexByte hexcUpper c ++ e))

/-- The two digits of a byte. -/
theorem hexByte_digits (c : UInt8) :
    ∃ a b, hexByte hexcUpper c = [a, b] ∧ hexEscape a b = c ∧ isSpace a = false ∧ isSpace b = false := by
  have hdigit : ∀ n < 16, hexChar (hexcUpper.getD n 0) = some n ∧ isSpace (hexcUpper.getD n 0) = false := by decide
  have hc := c.toNat_lt
  obtain ⟨hhigh, hspace⟩ := hdigit (c.toNat / 16) (by omega)
  obtain ⟨hlow, hspace'⟩ := hdigit (c.toNat % 16) (by omega)
  refine ⟨_, _, rfl, ?_, hspace, hspace'⟩
  have hsum : c.toNat / 16 * 16 + c.toNat % 16 = c.toNat := by omega
  simp only [hexEscape, hhigh, hlow, Option.getD_some, hsum, UInt8.ofNat_toNat]

/-- What is used of an encoding. -/
structure Word (s e : Bytes) : Prop where
  decode : ∀ behind, decodeAssuanArg behind e = s
  opens : ¬ Opens e
  noSpace : ∀ c ∈ e, isSpace c = false
  noNul : 0 ∉ s
  empty : e = [] ↔ s = []

theorem Encodes.word {s e : Bytes} (h : Encodes s e) : Word s e := by
  induction h with
  | nil =>
    exact ⟨fun _ => rfl, id, fun _ hc => absurd hc not_mem_nil, not_mem_nil, Iff.rfl⟩
  | plus _ ih =>
    have hplus : (0x2b : UInt8) ≠ percent := by decide
    refine ⟨fun behind => ?_, fun hopens => ih.opens ((opens_cons hplus _).1 hopens), ?_, ?_, by simp⟩
    · rw [decodeAssuanArg_cons hplus, ih.decode, if_pos rfl]
    · exact forall_mem_cons.2 ⟨by decide, ih.noSpace⟩
    · rw [mem_cons, not_or]
      exact ⟨by decide, ih.noNul⟩
  | plain hzero hpercent hplus hspace _ ih =>
    refine ⟨fun behind => ?_, fun hopens => ih.opens ((opens_cons hpercent _).1 hopens), ?_, ?_, by simp⟩
    · rw [decodeAssuanArg_cons hpercent, ih.decode, if_neg hplus]
    · exact forall_mem_cons.2 ⟨hspace, ih.noSpace⟩
    · rw [mem_cons, not_or]
      exact ⟨hzero.symm, ih.noNul⟩
  | @hex c s e hzero _ ih =>
    obtain ⟨a, b, hdigits, hescape, hspace, hspace'⟩ := hexByte_digits c
    rw [hdigits]
    refine ⟨fun behind => ?_, fun hopens => hopens.1 rfl, ?_, ?_, by simp⟩
    · have hdecode : decodeAssuanArg behind (percent :: ([a, b] ++ e)) =
          hexEscape a b :: decodeAssuanArg (e.getLastD b) e := if_pos rfl
      rw [hdecode, ih.decode, hescape]
    · refine forall_mem_cons.2 ⟨by decide, forall_mem_append.2 ⟨?_, ih.noSpace⟩⟩
      exact forall_mem_cons.2 ⟨hspace, forall_mem_cons.2 ⟨hspace', fun _ h => absurd h not_mem_nil⟩⟩
    · rw [mem_cons, not_or]
      exact ⟨hzero.symm, ih.noNul⟩

/-- In memory the text is written over with what it stands for. -/
def DecodesTo (s e : Bytes) : Prop :=
  ∀ front behind, ∃ m tail, decodeAssuanArgAt front e behind = .ok (some m) ∧ m.bytes = front ++ (s ++ 0 :: tail)

theorem Word.decodesTo {s e : Bytes} (h : Word s e) (hlength : e.length < 2 ^ 31) : DecodesTo s e := by
  intro front behind
  rw [decodeAssuanArgAt, bmod_length hlength]
  obtain ⟨m, tail, hm, hleaves⟩ := @decodeLoop_eq { bytes := front ++ (e ++ 0 :: behind), touched := [] } front behind
    (e.length + 1) e (Nat.lt_succ_self _) rfl fun hopens => absurd hopens h.opens
  refine ⟨m, tail, hm, ?_⟩
  rw [hleaves.1, h.decode]

/-! ## Lines -/

/-- Words with a blank between them. -/
def lineOf : List Bytes → Bytes
  | [] => []
  | [e] => e
  | e :: es => e ++ blank :: lineOf es

variable {s : Bytes} {ss es : List Bytes}

theorem lineOf_cons (e : Bytes) {es : List Bytes} (h : es ≠ []) :
    lineOf (e :: es) = e ++ blank :: lineOf es := by
  cases es with
  | nil => exact absurd rfl h
  | cons e' es => rfl

theorem takeWord_lineOf {e : Bytes} (h : ∀ c ∈ e, isSpace c = false) (es : List Bytes) :
    takeWord (lineOf (e :: es)) = (e, (lineOf es).dropWhile isSpace) := by
  have hpos : ∀ c ∈ e, (!isSpace c) = true := by
    intro c hc
    rw [h c hc]
    rfl
  by_cases hes : es = []
  · subst hes
    have htake : e.takeWhile (!isSpace ·) = e := takeWhile_eq_self_iff.2 hpos
    have hdrop : e.dropWhile (!isSpace ·) = [] := dropWhile_eq_nil_iff.2 hpos
    show takeWord e = (e, [])
    rw [takeWord, htake, hdrop]
    rfl
  · have htake : (e ++ blank :: lineOf es).takeWhile (!isSpace ·) = e := by
      rw [takeWhile_append_of_pos hpos, takeWhile_cons_of_neg (by decide), append_nil]
    have hdrop : (e ++ blank :: lineOf es).dropWhile (!isSpace ·) = blank :: lineOf es := by
      rw [dropWhile_append_of_pos hpos, dropWhile_cons_of_neg (by decide)]
    rw [takeWord, lineOf_cons e hes, htake, hdrop, dropWhile_cons_of_pos (by decide)]

theorem lineOf_head (c : UInt8) (e : Bytes) (es : List Bytes) :
    ∃ rest, lineOf ((c :: e) :: es) = c :: rest := by
  cases es with
  | nil => exact ⟨e, rfl⟩
  | cons e' es => exact ⟨e ++ blank :: lineOf (e' :: es), rfl⟩

/-- A line starts with its first word, if that is not empty. -/
theorem dropWhile_full {c : UInt8} (hc : isSpace c = false) (e : Bytes) (es : List Bytes) :
    (lineOf ((c :: e) :: es)).dropWhile isSpace = lineOf ((c :: e) :: es) := by
  obtain ⟨rest, hrest⟩ := lineOf_head c e es
  rw [hrest, dropWhile_cons_of_neg (by rw [hc]; decide)]

theorem dropWhile_empty (es : List Bytes) :
    (lineOf ([] :: es)).dropWhile isSpace = (lineOf es).dropWhile isSpace := by
  by_cases hnil : es = []
  · rw [hnil]
    rfl
  · rw [lineOf_cons [] hnil, nil_append, dropWhile_cons_of_pos (by decide)]

theorem lineOf_ne_nil (c : UInt8) (e : Bytes) (es : List Bytes) : lineOf ((c :: e) :: es) ≠ [] := by
  obtain ⟨rest, hrest⟩ := lineOf_head c e es
  rw [hrest]
  exact cons_ne_nil _ _

/-- Every encoding that is not empty comes back. -/
theorem splitArgs_lineOf {behind : UInt8} (h : List.Forall₂ Word ss es) (hne : ∀ s ∈ ss, s ≠ []) :
    splitArgs behind ss.length ((lineOf es).dropWhile isSpace) = ss.map some := by
  induction h with
  | nil => rfl
  | @cons s e ss es hword hrest ih =>
    obtain ⟨hs, hss⟩ := forall_mem_cons.1 hne
    have he : e ≠ [] := fun he => hs (hword.empty.1 he)
    obtain ⟨c, e', rfl⟩ := exists_cons_of_ne_nil he
    have hc : isSpace c = false := hword.noSpace c (mem_cons_self ..)
    have htext : cString s = s := takeWhile_of_zero_not_mem hword.noNul
    rw [dropWhile_full hc, length_cons, splitArgs, if_neg (lineOf_ne_nil c e' es)]
    simp only [takeWord_lineOf hword.noSpace, hword.decode, htext, ih hss, map_cons]

/-- The number of words that are not empty. -/
def fullWords (es : List Bytes) : Nat := es.countP (· ≠ [])

/-- With fewer words than arguments one of these is missing. -/
theorem none_mem_splitArgs {behind : UInt8} {n : Nat} (h : ∀ e ∈ es, ∀ c ∈ e, isSpace c = false)
    (hn : fullWords es < n) : none ∈ splitArgs behind n ((lineOf es).dropWhile isSpace) := by
  induction es generalizing n with
  | nil =>
    obtain ⟨n, rfl⟩ := Nat.exists_eq_add_one_of_ne_zero (Nat.ne_of_gt hn)
    exact mem_cons_self ..
  | cons e es ih =>
    obtain ⟨he, hes⟩ := forall_mem_cons.1 h
    cases e with
    | nil =>
      rw [dropWhile_empty]
      exact ih hes hn
    | cons c e =>
      have hcount : fullWords ((c :: e) :: es) = fullWords es + 1 := countP_cons_of_pos (by simp)
      obtain ⟨n, rfl⟩ := Nat.exists_eq_add_one_of_ne_zero (by omega : n ≠ 0)
      rw [dropWhile_full (he c (mem_cons_self ..)), splitArgs, if_neg (lineOf_ne_nil c e es)]
      simp only [takeWord_lineOf he]
      exact mem_cons_of_mem _ (ih hes (by omega))

/-- The first word looks like a flag. -/
def Dashes (e : Bytes) : Prop := [0x2d, 0x2d] <+: e

theorem fullWords_le {es es' : List Bytes} (h : es' <:+ es) : fullWords es' ≤ fullWords es :=
  h.sublist.countP_le

/-- A flag is taken off the line. -/
theorem splitFlags_dashes {fuel : Nat} {flags : Flags} {e : Bytes} (he : ∀ c ∈ e, isSpace c = false)
    (es : List Bytes) :
    splitFlags (fuel + 1) flags (lineOf ((0x2d :: 0x2d :: e) :: es)) =
      splitFlags fuel (parseAssuanFlag flags e) ((lineOf es).dropWhile isSpace) := by
  have hline : lineOf ((0x2d :: 0x2d :: e) :: es) = 0x2d :: 0x2d :: lineOf (e :: es) := by
    cases es with
    | nil => rfl
    | cons e' es => rfl
  rw [hline, splitFlags]
  simp only [takeWord_lineOf he]

/-- A line that does not start with a flag is left. -/
theorem splitFlags_plain {fuel : Nat} {flags : Flags} {c : UInt8} {e : Bytes} (h : ¬ Dashes (c :: e))
    (es : List Bytes) :
    splitFlags fuel flags (lineOf ((c :: e) :: es)) = (flags, lineOf ((c :: e) :: es)) := by
  cases fuel with
  | zero => rfl
  | succ fuel =>
    rw [splitFlags]
    -- the second dash would be the second byte of the word
    intro line hline
    rcases e with _ | ⟨d, e⟩
    · cases es with
      | nil => cases hline
      | cons e' es =>
        obtain ⟨-, hblank⟩ := List.cons.inj hline
        exact absurd (List.cons.inj hblank).1 (by decide)
    · have htext : lineOf ((c :: d :: e) :: es) = c :: d :: lineOf (e :: es) := by
        cases es with
        | nil => rfl
        | cons e' es => rfl
      obtain ⟨rfl, hrest⟩ := List.cons.inj (htext.symm.trans hline)
      obtain ⟨rfl, -⟩ := List.cons.inj hrest
      exact h ⟨e, rfl⟩

/-- What the flags leave of a line are its last words. -/
theorem splitFlags_lineOf {fuel : Nat} {flags : Flags} (h : ∀ e ∈ es, ∀ c ∈ e, isSpace c = false) :
    ∃ es', es' <:+ es ∧
      (splitFlags fuel flags ((lineOf es).dropWhile isSpace)).2 = (lineOf es').dropWhile isSpace := by
  induction fuel generalizing flags es with
  | zero => exact ⟨es, suffix_rfl, rfl⟩
  | succ fuel ih =>
    induction es with
    | nil => exact ⟨[], suffix_rfl, rfl⟩
    | cons e es ihes =>
      obtain ⟨he, hes⟩ := forall_mem_cons.1 h
      cases e with
      | nil =>
        rw [dropWhile_empty]
        obtain ⟨es', hsuffix, heq⟩ := ihes hes
        exact ⟨es', hsuffix.trans (suffix_cons _ _), heq⟩
      | cons c e =>
        have hc := he c (mem_cons_self ..)
        rw [dropWhile_full hc]
        by_cases hdashes : Dashes (c :: e)
        · obtain ⟨e', he'⟩ := hdashes
          obtain ⟨rfl, hrest⟩ := List.cons.inj he'
          obtain rfl := hrest
          have hword : ∀ b ∈ e', isSpace b = false := fun b hb =>
            he b (mem_cons_of_mem _ (mem_cons_of_mem _ hb))
          obtain ⟨es', hsuffix, heq⟩ := @ih es (parseAssuanFlag flags e') hes
          refine ⟨es', hsuffix.trans (suffix_cons _ _), ?_⟩
          rw [← heq]
          exact congrArg Prod.snd (splitFlags_dashes hword es)
        · refine ⟨(c :: e) :: es, suffix_rfl, ?_⟩
          rw [splitFlags_plain hdashes, dropWhile_full hc]

/-! ## Arguments that come back -/

/-- The arguments of a line, behind its flags if these are asked for. -/
def lineArguments (flags : Bool) (behind : UInt8) (n : Nat) (line : Bytes) : List (Option Bytes) :=
  if flags then (splitArguments behind n line).2 else splitArgs behind n (line.dropWhile isSpace)

/-- The words of a line are split off as the arguments, and every one is decoded in its place. -/
structure ComesBack (flags : Bool) (behind : UInt8) (ss es : List Bytes) : Prop where
  split : lineArguments flags behind ss.length (lineOf es) = ss.map some
  decode : List.Forall₂ DecodesTo ss es

/-- No argument is empty, and the first one does not look like a flag where there can be flags. -/
structure Splittable (flags : Bool) (ss es : List Bytes) : Prop where
  full : ∀ s ∈ ss, s ≠ []
  first : flags = true → ∀ e ∈ es.head?, ¬ Dashes e

theorem fullWords_eq (h : List.Forall₂ Word ss es) : fullWords es = ss.countP (· ≠ []) := by
  induction h with
  | nil => rfl
  | @cons s e ss es hword _ ih =>
    have hiff : decide (e ≠ []) = decide (s ≠ []) := by simp [hword.empty]
    rw [fullWords, countP_cons, countP_cons, hiff]
    exact congrArg (· + _) ih

theorem noSpace_of_words (h : List.Forall₂ Word ss es) : ∀ e ∈ es, ∀ c ∈ e, isSpace c = false := by
  induction h with
  | nil => exact fun e he => absurd he not_mem_nil
  | cons hword _ ih => exact forall_mem_cons.2 ⟨hword.noSpace, ih⟩

/-- A missing argument is none of those that were encoded. -/
theorem ne_of_none_mem {args : List (Option Bytes)} (h : none ∈ args) : args ≠ ss.map some := by
  rintro rfl
  obtain ⟨s, -, hs⟩ := mem_map.1 h
  cases hs

/-- The arguments come back exactly if none is empty and the first one is not taken for a flag. -/
theorem lineArguments_iff {flags : Bool} {behind : UInt8} (h : List.Forall₂ Word ss es) :
    lineArguments flags behind ss.length (lineOf es) = ss.map some ↔ Splittable flags ss es := by
  have hnoSpace := noSpace_of_words h
  constructor
  · intro hsplit
    have hfull : ∀ s ∈ ss, s ≠ [] := by
      by_contra hempty
      have hcount : fullWords es < ss.length := by
        rw [fullWords_eq h]
        refine lt_of_le_of_ne countP_le_length fun heq => hempty fun s hs => ?_
        exact of_decide_eq_true (countP_eq_length.1 heq s hs)
      refine ne_of_none_mem ?_ hsplit
      rw [lineArguments]
      cases flags with
      | false => exact none_mem_splitArgs hnoSpace hcount
      | true =>
        obtain ⟨es', hsuffix, heq⟩ := @splitFlags_lineOf es ((lineOf es).dropWhile isSpace).length
          { passAsData := false, rep := false } hnoSpace
        rw [if_pos rfl, splitArguments]
        simp only [heq]
        exact none_mem_splitArgs (fun e he => hnoSpace e (hsuffix.subset he)) ((fullWords_le hsuffix).trans_lt hcount)
    refine ⟨hfull, ?_⟩
    rintro rfl e he ⟨e', rfl⟩
    cases h with
    | nil => cases he
    | @cons s _ ss es hword hrest =>
      cases he
      refine ne_of_none_mem ?_ hsplit
      have hc : isSpace 0x2d = false := by decide
      obtain ⟨k, hk⟩ : ∃ k, (lineOf ((0x2d :: 0x2d :: e') :: es)).length = k + 1 :=
        Nat.exists_eq_add_one_of_ne_zero fun h => lineOf_ne_nil _ _ _ (length_eq_zero_iff.1 h)
      have hword' : ∀ c ∈ e', isSpace c = false := fun c hc =>
        hword.noSpace c (mem_cons_of_mem _ (mem_cons_of_mem _ hc))
      have hnoSpace' := noSpace_of_words hrest
      obtain ⟨es', hsuffix, heq⟩ := @splitFlags_lineOf es k
        (parseAssuanFlag { passAsData := false, rep := false } e') hnoSpace'
      have hcount : fullWords es' < (s :: ss).length := by
        have hle := (fullWords_le hsuffix).trans countP_le_length
        rw [← hrest.length_eq] at hle
        exact Nat.lt_succ_of_le hle
      rw [lineArguments, if_pos rfl, splitArguments]
      simp only [cons_append, nil_append, dropWhile_full hc, hk, splitFlags_dashes hword', heq]
      exact none_mem_splitArgs (fun e he => hnoSpace' e (hsuffix.subset he)) hcount
  · intro hright
    rw [lineArguments]
    cases flags with
    | false => exact splitArgs_lineOf h hright.full
    | true =>
      rw [if_pos rfl, splitArguments]
      have hsplit := @splitArgs_lineOf ss es behind h hright.full
      cases h with
      | nil => rfl
      | @cons s e ss es hword hrest =>
        have hs := hright.full s (mem_cons_self ..)
        obtain ⟨c, e', rfl⟩ := exists_cons_of_ne_nil fun he => hs (hword.empty.1 he)
        have hc := hword.noSpace c (mem_cons_self ..)
        have hdashes := hright.first rfl (c :: e') rfl
        rw [dropWhile_full hc] at hsplit
        simp only [dropWhile_full hc, splitFlags_plain hdashes]
        exact hsplit

theorem forall₂_decodesTo (h : List.Forall₂ Word ss es) (hlength : ∀ e ∈ es, e.length < 2 ^ 31) :
    List.Forall₂ DecodesTo ss es := by
  induction h with
  | nil => exact .nil
  | cons hword _ ih =>
    obtain ⟨he, hes⟩ := forall_mem_cons.1 hlength
    exact .cons (hword.decodesTo he) (ih hes)

/-- Arguments whose length is a `gint` come back from a line exactly if none is empty and the first one is not taken for
a flag, and an argument of any text is decoded within its place exactly if its first percent sign is not its last
byte. -/
theorem assuan_arguments_right_iff {flags : Bool} {behind : UInt8} {ss es : List Bytes}
    (henc : List.Forall₂ Encodes ss es) (hlength : ∀ e ∈ es, e.length < 2 ^ 31) (front text after : Bytes) :
    (ComesBack flags behind ss es ↔ Splittable flags ss es) ∧
      (Bounded front text after ↔ ¬ (Opens text ∧ text.length < 2 ^ 31)) := by
  have hwords : List.Forall₂ Word ss es := henc.imp fun _ _ h => h.word
  refine ⟨?_, bounded_iff⟩
  rw [← lineArguments_iff hwords]
  constructor
  · exact ComesBack.split
  · exact fun hsplit => ⟨hsplit, forall₂_decodesTo hwords hlength⟩

/-- A text with a space and a percent sign and one without, and an argument with an escape that is whole. -/
theorem assuan_arguments_right_sample :
    ComesBack true 0 [[0x61, 0x20, 0x25], [0x62]] [[0x61, 0x2b, 0x25, 0x32, 0x35], [0x62]] ∧
      Bounded [] [0x25, 0x34, 0x31] [] := by
  have henc : List.Forall₂ Encodes [[0x61, 0x20, 0x25], [0x62]] [[0x61, 0x2b, 0x25, 0x32, 0x35], [0x62]] :=
    .cons (.plain (by decide) (by decide) (by decide) (by decide) (.plus (.hex (by decide) .nil)))
      (.cons (.plain (by decide) (by decide) (by decide) (by decide) .nil) .nil)
  have hlength : ∀ e ∈ [([0x61, 0x2b, 0x25, 0x32, 0x35] : Bytes), [0x62]], e.length < 2 ^ 31 := by decide
  have hright := @assuan_arguments_right_iff true 0 _ _ henc hlength [] [0x25, 0x34, 0x31] []
  refine ⟨hright.1.2 ⟨?_, ?_⟩, hright.2.2 ?_⟩
  · decide
  · rintro - e he
    cases he
    rintro ⟨t, ht⟩
    cases ht
  · rintro ⟨hopens, -⟩
    exact hopens.1 rfl

/-- The percent sign at the end of `50%` has the byte behind the terminator read. -/
theorem percent_at_end_looks_behind : ¬ Bounded [] [0x35, 0x30, 0x25] [0x41] := by
  rintro ⟨m, hm, htouched⟩
  have hlook : decodeAssuanArgAt [] [0x35, 0x30, 0x25] [0x41] =
      .ok (some { bytes := [0x35, 0x30, 0x0a, 0, 0x41], touched := [0, 1, 2, 2, 3, 2, 4, 2, 2, 3] }) := rfl
  rw [hlook] at hm
  cases hm
  exact absurd (htouched 4 (by decide)) (by decide)

end MateKeyring.Gpg
