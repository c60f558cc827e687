import MateKeyring.Egg.Hex
import MateKeyring.Egg.Unpadding

/-!
# Which text is hex

`egg_hex_decode_full` as it walks through the text, and what it accepts. The text is read block by block: the
digits of a group and the delimiter behind it. Three kinds of text pass that no bytes have for their encoding: the
terminator of the table of digits is found for a null character, which counts as a zero; a delimiter at the end is
passed over; and without a delimiter the groups are read with nothing between them, where they are written with null
characters.
-/

set_option autoImplicit false

namespace MateKeyring.Egg.HexCodec

open Lib List

variable {part : Nat} {half : Option Nat} {g : HexGroup} {n : Nat}

/-! ## The walk -/

/-- The place in the text, the number of characters left, `state`, the bytes that are complete and the one that
is begun. -/
structure Walk where
  place : Nat
  left : Nat
  state : Int
  decoded : Bytes
  begun : UInt8

/-- The inner loop, `part` bytes into a group. -/
def decodeGroup (data : Bytes) (group : Nat) : Nat → Nat → Int → Nat → Bytes → UInt8 → Checked Walk
  | 0, place, state, _, decoded, begun => .ok ⟨place, 0, state, decoded, begun⟩
  | left + 1, place, state, part, decoded, begun =>
    if part < group then do
      let c ← octetAt data place
      match hexPos c with
      | none => .ok ⟨place, left + 1, -1, decoded, begun⟩
      | some j =>
        if state = 0 then decodeGroup data group left (place + 1) 1 part decoded (UInt8.ofNat (j % 16) <<< 4)
        else
          decodeGroup data group left (place + 1) 0 (part + 1) (decoded ++ [begun ||| UInt8.ofNat (j % 16)]) begun
    else .ok ⟨place, left + 1, state, decoded, begun⟩

/-- The outer loop; every round takes a character. -/
def decodeText (data : Bytes) (delim : UInt8) (group : Nat) : Nat → Walk → Checked Walk
  | 0, w => .ok w
  | fuel + 1, w =>
    if 0 < w.left ∧ w.state = 0 then
      if w.decoded ≠ [] ∧ delim ≠ 0 then do
        let c ← octetAt data w.place
        if c ≠ delim then .ok { w with state := -1 }
        else do
          let w ← decodeGroup data group (w.left - 1) (w.place + 1) w.state 0 w.decoded w.begun
          decodeText data delim group fuel w
      else do
        let w ← decodeGroup data group w.left w.place w.state 0 w.decoded w.begun
        decodeText data delim group fuel w
    else .ok w

/-- `egg_hex_decode_full`; `none` is a null pointer. -/
def eggHexDecodeFull (data : Bytes) (delim : UInt8) (group : Nat) : Checked (Option Bytes) :=
  if group < 1 then .ok none
  else do
    let w ← decodeText data delim group data.length ⟨0, data.length, 0, [], 0⟩
    pure (if w.state ≠ 0 then none else some w.decoded)

variable {data decoded text piece rest : Bytes} {delim c : UInt8} {group : Nat}

theorem drop_cons {place left : Nat} (h : place + (left + 1) = data.length) :
    ∃ c, data.drop place = c :: data.drop (place + 1) ∧ octetAt data place = .ok c := by
  have hlt : place < data.length := by omega
  exact ⟨data[place], drop_eq_getElem_cons hlt, octetAt_eq hlt⟩

/-- The byte that is begun, as the functions of the remaining text know it. -/
inductive Begun (group part : Nat) : Int → UInt8 → Option Nat → Prop where
  | whole (begun : UInt8) : Begun group part 0 begun none
  | half {h : Nat} (hlt : h < 16) (hpart : part < group) : Begun group part 1 (UInt8.ofNat h <<< 4) (some h)

theorem nibbles_or {h l : Nat} (hh : h < 16) (hl : l < 16) :
    UInt8.ofNat h <<< 4 ||| UInt8.ofNat l = UInt8.ofNat (h * 16 + l) := by
  have hall : ∀ h < 16, ∀ l < 16, UInt8.ofNat h <<< 4 ||| UInt8.ofNat l = UInt8.ofNat (h * 16 + l) := by decide
  exact hall h hh l hl

/-- What a walk has come to, where the function of the remaining text gives `r`. -/
def Agrees (data : Bytes) (w : Walk) : Option HexGroup → Prop
  | none => w.state ≠ 0
  | some g => w.state = 0 ∧ w.decoded = g.decoded ∧ g.rest = data.drop w.place ∧ w.place + w.left = data.length

/-- The inner loop reads inside of the text, and does what the function of the remaining text does. -/
theorem decodeGroup_eq {left place part : Nat} {state : Int} {begun : UInt8} {half : Option Nat}
    (hplace : place + left = data.length) (hbegun : Begun group part state begun half) :
    ∃ w, decodeGroup data group left place state part decoded begun = .ok w ∧
      Agrees data w (hexDecodeGroup group (data.drop place) half part decoded) := by
  induction left generalizing place part state begun half decoded with
  | zero =>
    have hempty : data.drop place = [] := drop_eq_nil_of_le (by omega)
    refine ⟨_, rfl, ?_⟩
    rw [hempty]
    cases hbegun with
    | whole begun => exact ⟨rfl, rfl, hempty.symm, hplace⟩
    | half hlt hpart => exact (by decide : (1 : Int) ≠ 0)
  | succ left ih =>
    obtain ⟨c, hdrop, hc⟩ := drop_cons hplace
    have hnext : place + 1 + left = data.length := by omega
    rw [decodeGroup, hdrop, hexDecodeGroup.eq_def]
    dsimp only
    by_cases hpart : part < group
    · rw [if_pos hpart, if_neg (by omega), hc, ok_bind]
      cases hpos : hexPos c with
      | none => exact ⟨_, rfl, (by decide : (-1 : Int) ≠ 0)⟩
      | some j =>
        have hj : j % 16 < 16 := Nat.mod_lt _ (by decide)
        cases hbegun with
        | whole begun => exact ih hnext (.half hj hpart)
        | half hlt _ =>
          dsimp only
          rw [if_neg (by decide), nibbles_or hlt hj]
          exact ih hnext (.whole _)
    · rw [if_neg hpart, if_pos (by omega)]
      refine ⟨_, rfl, ?_⟩
      cases hbegun with
      | whole begun => exact ⟨rfl, rfl, hdrop.symm, hplace⟩
      | half _ hmore => exact absurd hmore hpart

/-- A round: the delimiter, and the digits behind it. -/
theorem hexDecodeLoop_cons (fuel : Nat) (c : UInt8) (text decoded : Bytes) :
    hexDecodeLoop delim group (fuel + 1) (c :: text) decoded =
      if decoded ≠ [] ∧ delim ≠ 0 ∧ c ≠ delim then none
      else (hexDecodeGroup group (if decoded ≠ [] ∧ delim ≠ 0 then text else c :: text) none 0 decoded).bind
        fun g => hexDecodeLoop delim group fuel g.rest g.decoded := by
  rw [hexDecodeLoop]
  dsimp only
  cases hexDecodeGroup group (if decoded ≠ [] ∧ delim ≠ 0 then text else c :: text) none 0 decoded with
  | none => rfl
  | some g => rfl

/-- So does the outer loop. -/
theorem decodeText_eq {fuel : Nat} {w : Walk} (hstate : w.state = 0) (hplace : w.place + w.left = data.length) :
    ∃ w', decodeText data delim group fuel w = .ok w' ∧
      (if w'.state ≠ 0 then none else some w'.decoded) =
        hexDecodeLoop delim group fuel (data.drop w.place) w.decoded := by
  induction fuel generalizing w with
  | zero =>
    refine ⟨w, rfl, ?_⟩
    rw [if_neg (not_not.2 hstate)]
    rfl
  | succ fuel ih =>
    obtain ⟨place, left, state, decoded, begun⟩ := w
    dsimp only at hstate hplace
    subst hstate
    cases left with
    | zero =>
      have hempty : data.drop place = [] := drop_eq_nil_of_le (by omega)
      refine ⟨_, if_neg fun h => absurd h.1 (Nat.lt_irrefl 0), ?_⟩
      rw [hempty]
      rfl
    | succ left =>
      obtain ⟨c, hdrop, hc⟩ := drop_cons hplace
      -- the digits behind the delimiter, if one is to be there
      have hdigits : ∀ {place' left' : Nat}, place' + left' = data.length →
          ∃ w', (do
              let w ← decodeGroup data group left' place' 0 0 decoded begun
              decodeText data delim group fuel w) = .ok w' ∧
            (if w'.state ≠ 0 then none else some w'.decoded) =
              (hexDecodeGroup group (data.drop place') none 0 decoded).bind
                fun g => hexDecodeLoop delim group fuel g.rest g.decoded := by
        intro place' left' hplace'
        obtain ⟨w, hrun, hagrees⟩ := @decodeGroup_eq data decoded group left' place' 0 0 begun none hplace'
          (.whole begun)
        rw [hrun, ok_bind]
        cases hgroup : hexDecodeGroup group (data.drop place') none 0 decoded with
        | none =>
          rw [hgroup] at hagrees
          refine ⟨w, ?_, if_pos hagrees⟩
          cases fuel with
          | zero => rfl
          | succ fuel => exact if_neg fun h => hagrees h.2
        | some g =>
          rw [hgroup] at hagrees
          obtain ⟨hzero, hdecoded, hrest, hend⟩ := hagrees
          obtain ⟨w', hrun', heq⟩ := ih hzero hend
          refine ⟨w', hrun', ?_⟩
          rw [Option.bind_some, heq, hdecoded, hrest]
      rw [decodeText, hdrop, hexDecodeLoop_cons]
      dsimp only
      rw [if_pos ⟨Nat.succ_pos left, rfl⟩]
      by_cases hdelim : decoded ≠ [] ∧ delim ≠ 0
      · rw [if_pos hdelim, hc, ok_bind]
        by_cases hc' : c ≠ delim
        · rw [if_pos hc', if_pos ⟨hdelim.1, hdelim.2, hc'⟩]
          exact ⟨_, rfl, if_pos (show (-1 : Int) ≠ 0 by decide)⟩
        · rw [if_neg hc', if_neg fun h => hc' h.2.2, if_pos hdelim]
          exact hdigits (by omega)
      · rw [if_neg hdelim, if_neg fun h => hdelim ⟨h.1, h.2.1⟩, if_neg hdelim, ← hdrop]
        exact hdigits hplace

/-- The text is read inside of its characters, and what comes out is what the functions of the text give. -/
theorem decodeFull_eq (data : Bytes) (delim : UInt8) (hgroup : 1 ≤ group) :
    eggHexDecodeFull data delim group = .ok (hexDecoded data delim group) := by
  rw [eggHexDecodeFull, if_neg (by omega)]
  obtain ⟨w, hrun, heq⟩ := @decodeText_eq data delim group data.length ⟨0, data.length, 0, [], 0⟩ rfl
    (Nat.zero_add _)
  rw [hrun, ok_bind, heq]
  rfl

/-! ## Character by character -/

/-- The bytes of the text, `part` bytes into a group; `half` is the upper half of a byte that is begun. -/
def hexBytes (delim : UInt8) (group : Nat) : Nat → Option Nat → Bytes → Option Bytes
  | _, none, [] => some []
  | _, some _, [] => none
  | part, none, c :: text =>
    if delim ≠ 0 ∧ part = group then if c = delim then hexBytes delim group 0 none text else none
    else (hexPos c).bind fun j => hexBytes delim group part (some (j % 16)) text
  | part, some h, c :: text =>
    (hexPos c).bind fun j =>
      (hexBytes delim group (part + 1) none text).map fun bytes => UInt8.ofNat (h * 16 + j % 16) :: bytes

theorem hexBytes_cons (part : Nat) (hpart : ¬ (delim ≠ 0 ∧ part = group)) (c : UInt8) (text : Bytes) :
    hexBytes delim group part none (c :: text) =
      (hexPos c).bind fun j => hexBytes delim group part (some (j % 16)) text := by
  rw [hexBytes, if_neg hpart]

theorem hexBytes_delim (hdelim : delim ≠ 0) (c : UInt8) (text : Bytes) :
    hexBytes delim group group none (c :: text) =
      if c = delim then hexBytes delim group 0 none text else none := by
  rw [hexBytes, if_pos ⟨hdelim, rfl⟩]

/-- Without a delimiter the groups make no difference. -/
theorem hexBytes_part (part part' : Nat) (half : Option Nat) (text : Bytes) :
    hexBytes 0 group part half text = hexBytes 0 group part' half text := by
  induction text generalizing part part' half with
  | nil =>
    cases half with
    | none => rfl
    | some h => rfl
  | cons c text ih =>
    cases half with
    | none =>
      rw [hexBytes_cons part (fun h => h.1 rfl), hexBytes_cons part' (fun h => h.1 rfl)]
      congr 1
      funext j
      exact ih _ _ _
    | some h => rw [hexBytes, hexBytes, ih (part + 1) (part' + 1)]

/-- The digits of a group, and what follows it. -/
theorem hexDecodeGroup_bind (text : Bytes) (half : Option Nat) (part : Nat) (decoded : Bytes)
    (hpart : part ≤ group) (hhalf : half ≠ none → part < group) :
    ((hexDecodeGroup group text half part decoded).bind fun g =>
        (hexBytes delim group group none g.rest).map fun bytes => g.decoded ++ bytes) =
      (hexBytes delim group part half text).map fun bytes => decoded ++ bytes := by
  induction text generalizing half part decoded with
  | nil =>
    cases half with
    | none => rfl
    | some h => rfl
  | cons c text ih =>
    rw [hexDecodeGroup.eq_def]
    dsimp only
    by_cases hfull : group ≤ part
    · rw [if_pos hfull]
      have hnone : half = none := by
        by_contra h
        have := hhalf h
        omega
      rw [hnone, Nat.le_antisymm hpart hfull]
      rfl
    · rw [if_neg hfull]
      cases half with
      | none =>
        rw [hexBytes_cons part (fun h => hfull h.2.ge)]
        cases hexPos c with
        | none => rfl
        | some j => exact ih _ _ _ hpart fun _ => by omega
      | some h =>
        rw [hexBytes]
        cases hexPos c with
        | none => rfl
        | some j =>
          dsimp only [Option.bind_some]
          rw [ih _ _ _ (by omega) (fun h => absurd rfl h), Option.map_map]
          congr 1
          funext bytes
          rw [append_assoc]
          rfl

/-- What follows a group is no longer than the text. -/
theorem hexDecodeGroup_rest (h : hexDecodeGroup group text half part decoded = some g) :
    g.rest.length ≤ text.length := by
  induction text generalizing half part decoded with
  | nil =>
    cases half with
    | none =>
      cases h
      exact Nat.le_refl _
    | some x => cases h
  | cons c text ih =>
    rw [hexDecodeGroup.eq_def] at h
    dsimp only at h
    by_cases hfull : group ≤ part
    · rw [if_pos hfull] at h
      cases h
      exact Nat.le_refl _
    · rw [if_neg hfull] at h
      cases hpos : hexPos c with
      | none =>
        rw [hpos] at h
        cases h
      | some j =>
        rw [hpos] at h
        cases half with
        | none => exact (ih h).trans (Nat.le_succ _)
        | some x => exact (ih h).trans (Nat.le_succ _)

/-- Bytes stay. -/
theorem hexDecodeGroup_decoded (h : hexDecodeGroup group text half part decoded = some g)
    (hbytes : decoded ≠ [] ∨ (part < group ∧ (half ≠ none ∨ text ≠ []))) : g.decoded ≠ [] := by
  induction text generalizing half part decoded with
  | nil =>
    cases half with
    | none =>
      cases h
      exact hbytes.resolve_right fun h => h.2.elim (fun h => h rfl) fun h => h rfl
    | some x => cases h
  | cons c text ih =>
    rw [hexDecodeGroup.eq_def] at h
    dsimp only at h
    by_cases hfull : group ≤ part
    · rw [if_pos hfull] at h
      cases h
      exact hbytes.resolve_right fun h => absurd h.1 (by omega)
    · rw [if_neg hfull] at h
      cases hpos : hexPos c with
      | none =>
        rw [hpos] at h
        cases h
      | some j =>
        rw [hpos] at h
        cases half with
        | none => exact ih h (.inr ⟨by omega, .inl (Option.some_ne_none _)⟩)
        | some x => exact ih h (.inl (append_ne_nil_of_right_ne_nil _ (cons_ne_nil _ _)))

/-- A group that has text takes a digit. -/
theorem hexDecodeGroup_lt {c : UInt8} (hgroup : 1 ≤ group)
    (h : hexDecodeGroup group (c :: text) none 0 decoded = some g) : g.rest.length < (c :: text).length := by
  rw [hexDecodeGroup.eq_def] at h
  dsimp only at h
  rw [if_neg (by omega)] at h
  cases hpos : hexPos c with
  | none =>
    rw [hpos] at h
    cases h
  | some j =>
    rw [hpos] at h
    exact Nat.lt_succ_of_le (hexDecodeGroup_rest h)

/-- The two loops, character by character. -/
theorem hexDecodeLoop_eq (hgroup : 1 ≤ group) {fuel : Nat} {text decoded : Bytes}
    (hfuel : text.length ≤ fuel) :
    hexDecodeLoop delim group fuel text decoded =
      (hexBytes delim group (if decoded = [] then 0 else group) none text).map fun bytes => decoded ++ bytes := by
  induction fuel generalizing text decoded with
  | zero =>
    rw [length_eq_zero_iff.1 (Nat.le_zero.1 hfuel)]
    exact congrArg some (append_nil decoded).symm
  | succ fuel ih =>
    cases text with
    | nil => exact congrArg some (append_nil decoded).symm
    | cons c text =>
      rw [length_cons] at hfuel
      -- a group, and the groups behind it
      have hdigits : ∀ text' : Bytes, (decoded ≠ [] ∨ text' ≠ []) →
          (∀ g, hexDecodeGroup group text' none 0 decoded = some g → g.rest.length ≤ fuel) →
          ((hexDecodeGroup group text' none 0 decoded).bind fun g =>
            hexDecodeLoop delim group fuel g.rest g.decoded) =
          (hexBytes delim group 0 none text').map fun bytes => decoded ++ bytes := by
        intro text' hsome hrest
        rw [← hexDecodeGroup_bind text' none 0 decoded (Nat.zero_le _) (fun h => absurd rfl h)]
        cases hg : hexDecodeGroup group text' none 0 decoded with
        | none => rfl
        | some g =>
          dsimp only [Option.bind_some]
          rw [ih (hrest g hg),
            if_neg (hexDecodeGroup_decoded hg (hsome.imp_right fun h => ⟨by omega, .inr h⟩))]
      rw [hexDecodeLoop_cons]
      by_cases hsep : decoded ≠ [] ∧ delim ≠ 0
      · rw [if_neg hsep.1, hexBytes_delim hsep.2]
        by_cases hc : c = delim
        · rw [if_neg fun h => h.2.2 hc, if_pos hc, if_pos hsep]
          exact hdigits text (.inl hsep.1) fun g hg => (hexDecodeGroup_rest hg).trans (by omega)
        · rw [if_pos ⟨hsep.1, hsep.2, hc⟩, if_neg hc]
          rfl
      · rw [if_neg fun h => hsep ⟨h.1, h.2.1⟩, if_neg hsep, hdigits (c :: text) (.inr (cons_ne_nil _ _)) fun g hg => by
          have := hexDecodeGroup_lt hgroup hg
          rw [length_cons] at this
          omega]
        by_cases hnil : decoded = []
        · rw [if_pos hnil]
        · have hzero : delim = 0 := by
            by_contra h
            exact hsep ⟨hnil, h⟩
          rw [if_neg hnil, hzero, hexBytes_part 0 group]

theorem decode_eq (hgroup : 1 ≤ group) (text : Bytes) :
    hexDecoded text delim group = hexBytes delim group 0 none text := by
  rw [hexDecoded, hexDecodeLoop_eq hgroup (Nat.le_refl _), if_pos rfl]
  exact Option.map_id'

/-! ## The text of the bytes -/

/-- The table that `upper_case` picks. -/
def hexc (upper : Bool) : Bytes := if upper then hexcUpper else hexcLower

/-- The text of the bytes, `part` bytes into a group. -/
def hexText (hexc : Bytes) (delim : UInt8) (group : Nat) : Nat → Bytes → Bytes
  | _, [] => []
  | part, b :: data =>
    if part = group then delim :: (hexByte hexc b ++ hexText hexc delim group 1 data)
    else hexByte hexc b ++ hexText hexc delim group (part + 1) data

/-- The bytes are counted from the start, and the groups by themselves. -/
theorem hexEncodeLoop_eq {hexc : Bytes} (hgroup : 1 ≤ group) {bytes part : Nat} (hpart : part ≤ group)
    (hzero : bytes = 0 ↔ part = 0) (hmod : bytes % group = part % group) :
    hexEncodeLoop hexc delim group bytes data = hexText hexc delim group part data := by
  induction data generalizing bytes part with
  | nil => rfl
  | cons b data ih =>
    rw [hexEncodeLoop, hexText]
    have hnext : (bytes + 1) % group = (part + 1) % group := by rw [Nat.add_mod, hmod, ← Nat.add_mod]
    by_cases hfull : part = group
    · have hsep : group ≠ 0 ∧ bytes ≠ 0 ∧ bytes % group = 0 :=
        ⟨by omega, by omega, by rw [hmod, hfull, Nat.mod_self]⟩
      rw [if_pos hsep, if_pos hfull, @ih _ 1 hgroup (by omega), append_assoc]
      · rfl
      · rw [hnext, hfull, Nat.add_mod_left]
    · have hsep : ¬ (group ≠ 0 ∧ bytes ≠ 0 ∧ bytes % group = 0) := by
        rintro ⟨-, hne, hdvd⟩
        rw [hmod, Nat.mod_eq_of_lt (by omega)] at hdvd
        omega
      rw [if_neg hsep, if_neg hfull, ih (by omega) (by omega) hnext, nil_append]

theorem encode_eq (data : Bytes) (upper : Bool) (hgroup : 1 ≤ group) :
    eggHexEncodeFull data upper delim group = hexText (hexc upper) delim group 0 data :=
  hexEncodeLoop_eq hgroup (Nat.zero_le _) Iff.rfl rfl

theorem hexPos_hexc (upper : Bool) (h : n < 16) : hexPos ((hexc upper).getD n 0) = some n := by
  have hall : ∀ n < 16, hexPos (hexcUpper.getD n 0) = some n := by decide
  cases upper with
  | false => exact hexPos_hexcLower h
  | true => exact hall n h

/-- The digits of a byte are read as this byte. -/
theorem hexBytes_byte (upper : Bool) (b : UInt8) (hpart : ¬ (delim ≠ 0 ∧ part = group)) (text : Bytes) :
    hexBytes delim group part none (hexByte (hexc upper) b ++ text) =
      (hexBytes delim group (part + 1) none text).map fun bytes => b :: bytes := by
  have hb := b.toNat_lt
  have hvalue : UInt8.ofNat (b.toNat / 16 % 16 * 16 + b.toNat % 16 % 16) = b := by
    rw [Nat.mod_eq_of_lt (by omega : b.toNat / 16 < 16), Nat.mod_mod, Nat.mul_comm, Nat.div_add_mod,
      UInt8.ofNat_toNat]
  rw [hexByte, cons_append, cons_append, nil_append, hexBytes_cons part hpart,
    hexPos_hexc upper (by omega : b.toNat / 16 < 16), Option.bind_some, hexBytes,
    hexPos_hexc upper (by omega : b.toNat % 16 < 16), Option.bind_some, hvalue]

/-- With a delimiter, and without one in a single group, what is written is read. -/
theorem hexBytes_hexText (upper : Bool) (hgroup : 1 ≤ group) (hpart : part ≤ group)
    (hsep : delim ≠ 0 ∨ part + data.length ≤ group) :
    hexBytes delim group part none (hexText (hexc upper) delim group part data) = some data := by
  induction data generalizing part with
  | nil => rw [hexText, hexBytes]
  | cons b data ih =>
    rw [length_cons] at hsep
    rw [hexText]
    by_cases hfull : part = group
    · have hdelim : delim ≠ 0 := hsep.resolve_right (by omega)
      rw [if_pos hfull, hfull, hexBytes_delim hdelim, if_pos rfl,
        hexBytes_byte upper b (fun h => absurd h.2 (by omega)), ih hgroup (.inl hdelim)]
      rfl
    · rw [if_neg hfull, hexBytes_byte upper b (fun h => hfull h.2),
        ih (by omega) (hsep.imp_right fun h => by omega)]
      rfl

theorem length_hexByte (hexc : Bytes) (b : UInt8) : (hexByte hexc b).length = 2 := rfl

/-- Two digits for a byte, -/
theorem two_mul_le_length (hexc : Bytes) (delim : UInt8) (group part : Nat) (data : Bytes) :
    2 * data.length ≤ (hexText hexc delim group part data).length := by
  induction data generalizing part with
  | nil => exact Nat.zero_le _
  | cons b data ih =>
    rw [hexText]
    have h1 := ih 1
    have h2 := ih (part + 1)
    by_cases hfull : part = group
    · rw [if_pos hfull, length_cons, length_cons, length_append, length_hexByte]
      omega
    · rw [if_neg hfull, length_cons, length_append, length_hexByte]
      omega

/-- and more where there is another group. -/
theorem two_mul_lt_length (hexc : Bytes) (delim : UInt8) {part : Nat} (hpart : part ≤ group)
    (hmore : group < part + data.length) :
    2 * data.length < (hexText hexc delim group part data).length := by
  induction data generalizing part with
  | nil => exact absurd hmore (by rw [length_nil]; omega)
  | cons b data ih =>
    rw [length_cons] at hmore
    rw [hexText]
    by_cases hfull : part = group
    · have h1 := two_mul_le_length hexc delim group 1 data
      rw [if_pos hfull, length_cons, length_cons, length_append, length_hexByte]
      omega
    · have h2 := @ih (part + 1) (by omega) (by omega)
      rw [if_neg hfull, length_cons, length_append, length_hexByte]
      omega

/-- The last character is not the delimiter of a whole group. -/
theorem length_hexText_mod (hexc : Bytes) (delim : UInt8) (hgroup : 1 ≤ group) (hpart : part ≤ group)
    (hdata : data ≠ []) :
    (2 * part + (hexText hexc delim group part data).length) % (2 * group + 1) ≠ 0 := by
  induction data generalizing part with
  | nil => exact absurd rfl hdata
  | cons b data ih =>
    -- what the digits of the byte leave, `p` bytes into the group
    have hnext : ∀ p < group,
        (2 * (p + 1) + (hexText hexc delim group (p + 1) data).length) % (2 * group + 1) ≠ 0 := by
      intro p hp
      by_cases hnil : data = []
      · rw [hnil, hexText, length_nil, Nat.mod_eq_of_lt (by omega)]
        omega
      · exact ih hp hnil
    rw [hexText]
    by_cases hfull : part = group
    · rw [if_pos hfull, length_cons, length_append, length_hexByte, hfull,
        show ∀ n, 2 * group + (2 + n + 1) = 2 * group + 1 + (2 * (0 + 1) + n) by intro n; omega,
        Nat.add_mod_left]
      exact hnext 0 hgroup
    · rw [if_neg hfull, length_append, length_hexByte,
        show ∀ n, 2 * part + (2 + n) = 2 * (part + 1) + n by intro n; omega]
      exact hnext part (by omega)

theorem hexc_xdigit (upper : Bool) (h : n < 16) : isXdigit ((hexc upper).getD n 0) = true := by
  have hall : ∀ n < 16, isXdigit (hexcUpper.getD n 0) = true ∧ isXdigit (hexcLower.getD n 0) = true := by decide
  cases upper with
  | false => exact (hall n h).2
  | true => exact (hall n h).1

/-- Digits are all there is, and delimiters where there is another group. -/
theorem mem_hexText {upper : Bool} (hgroup : 1 ≤ group) (hpart : part ≤ group)
    (h : c ∈ hexText (hexc upper) delim group part data) :
    isXdigit c = true ∨ c = delim ∧ group < part + data.length := by
  induction data generalizing part with
  | nil => exact absurd h not_mem_nil
  | cons b data ih =>
    have hb := b.toNat_lt
    have hbyte : c ∈ hexByte (hexc upper) b → isXdigit c = true := by
      intro h
      rw [hexByte] at h
      rcases mem_cons.1 h with rfl | h
      · exact hexc_xdigit upper (by omega)
      · rw [mem_singleton.1 h]
        exact hexc_xdigit upper (by omega)
    rw [hexText] at h
    rw [length_cons]
    by_cases hfull : part = group
    · rw [if_pos hfull] at h
      rcases mem_cons.1 h with rfl | h
      · exact .inr ⟨rfl, by omega⟩
      · rcases mem_append.1 h with h | h
        · exact .inl (hbyte h)
        · exact (ih hgroup h).imp_right fun h => ⟨h.1, by omega⟩
    · rw [if_neg hfull] at h
      rcases mem_append.1 h with h | h
      · exact .inl (hbyte h)
      · exact (ih (by omega) h).imp_right fun h => ⟨h.1, by omega⟩

/-! ## The text that passes -/

/-- What may stand at a place of the text: the delimiter behind a whole group, else a digit or a null character. -/
def Fits (delim : UInt8) (group place : Nat) (c : UInt8) : Prop :=
  if delim ≠ 0 ∧ place % (2 * group + 1) = 2 * group then c = delim else c = 0 ∨ isXdigit c = true

/-- The text of whole bytes, from a place of a longer text on. -/
structure Shaped (delim : UInt8) (group start : Nat) (text : Bytes) : Prop where
  places : ∀ p c, text[p]? = some c → Fits delim group (start + p) c
  whole : (if delim = 0 then start + text.length else (start + text.length) % (2 * group + 1)) % 2 = 0

/-- Text that passes although it is no encoding. -/
def Stray (text : Bytes) (delim : UInt8) (group : Nat) : Prop :=
  Shaped delim group 0 text ∧
    (0 ∈ text ∨ (delim = 0 ∧ 2 * group < text.length) ∨
      (delim ≠ 0 ∧ text ≠ [] ∧ text.length % (2 * group + 1) = 0))

theorem shaped_cons {start : Nat} :
    Shaped delim group start (c :: text) ↔ Fits delim group start c ∧ Shaped delim group (start + 1) text := by
  have hlength : start + (c :: text).length = start + 1 + text.length := by
    rw [length_cons]
    omega
  constructor
  · intro h
    refine ⟨h.places 0 c rfl, ⟨fun p d hp => ?_, ?_⟩⟩
    · have := h.places (p + 1) d hp
      rwa [show start + (p + 1) = start + 1 + p by omega] at this
    · rw [← hlength]
      exact h.whole
  · intro h
    refine ⟨fun p d hp => ?_, ?_⟩
    · cases p with
      | zero =>
        cases hp
        exact h.1
      | succ p =>
        rw [show start + (p + 1) = start + 1 + p by omega]
        exact h.2.places p d hp
    · rw [hlength]
      exact h.2.whole

/-- A delimiter begins the count again. -/
theorem shaped_block (hdelim : delim ≠ 0) :
    Shaped delim group (2 * group + 1) text ↔ Shaped delim group 0 text := by
  have hfits : ∀ p c, Fits delim group (2 * group + 1 + p) c = Fits delim group (0 + p) c := by
    intro p c
    rw [Fits, Fits, Nat.add_mod_left, Nat.zero_add]
  constructor
  · intro h
    refine ⟨fun p c hp => hfits p c ▸ h.places p c hp, ?_⟩
    have := h.whole
    rw [if_neg hdelim, Nat.add_mod_left] at this
    rwa [if_neg hdelim, Nat.zero_add]
  · intro h
    refine ⟨fun p c hp => (hfits p c).symm ▸ h.places p c hp, ?_⟩
    have := h.whole
    rw [if_neg hdelim, Nat.zero_add] at this
    rwa [if_neg hdelim, Nat.add_mod_left]

theorem hexPos_isSome (c : UInt8) : (hexPos c).isSome = true ↔ c = 0 ∨ isXdigit c = true := by
  have hall : ∀ n < 256, ((hexPos (UInt8.ofNat n)).isSome = true ↔
      UInt8.ofNat n = 0 ∨ isXdigit (UInt8.ofNat n) = true) := by decide +kernel
  have := hall c.toNat c.toNat_lt
  rwa [UInt8.ofNat_toNat] at this

theorem shaped_nil {start : Nat} (hstart : delim ≠ 0 → start ≤ 2 * group) :
    Shaped delim group start [] ↔ start % 2 = 0 := by
  have hwhole : (if delim = 0 then start + 0 else (start + 0) % (2 * group + 1)) = start := by
    by_cases hdelim : delim = 0
    · exact if_pos hdelim
    · have := hstart hdelim
      rw [if_neg hdelim]
      exact Nat.mod_eq_of_lt (by omega)
  constructor
  · intro h
    have := h.whole
    rwa [length_nil, hwhole] at this
  · intro h
    refine ⟨fun p c hp => by simp at hp, ?_⟩
    rwa [length_nil, hwhole]

/-- Text is read just if it has the shape. -/
theorem hexBytes_isSome (hpart : delim ≠ 0 → 2 * part + half.toList.length ≤ 2 * group) :
    (hexBytes delim group part half text).isSome = true ↔
      Shaped delim group (2 * part + half.toList.length) text := by
  induction text generalizing part half with
  | nil =>
    rw [shaped_nil hpart]
    cases half with
    | none =>
      refine ⟨fun _ => ?_, fun _ => rfl⟩
      rw [Option.toList_none, length_nil]
      omega
    | some h =>
      rw [Option.toList_some, length_singleton]
      exact ⟨fun h => absurd h Bool.false_ne_true, fun h => by omega⟩
  | cons c text ih =>
    rw [shaped_cons, Fits]
    have hdigit : ∀ read : Nat → Option Bytes, ∀ P : Prop, (∀ j, (read j).isSome = true ↔ P) →
        (((hexPos c).bind read).isSome = true ↔ (c = 0 ∨ isXdigit c = true) ∧ P) := by
      intro read P hread
      rw [← hexPos_isSome]
      cases hexPos c with
      | none => exact ⟨fun h => absurd h Bool.false_ne_true, fun h => absurd h.1 Bool.false_ne_true⟩
      | some j => exact (hread j).trans ⟨fun h => ⟨rfl, h⟩, fun h => h.2⟩
    cases half with
    | none =>
      rw [Option.toList_none, length_nil, Nat.add_zero] at hpart ⊢
      by_cases hsep : delim ≠ 0 ∧ part = group
      · have hblock : 2 * part % (2 * group + 1) = 2 * group := by
          rw [hsep.2]
          exact Nat.mod_eq_of_lt (by omega)
        rw [if_pos ⟨hsep.1, hblock⟩, hsep.2, hexBytes_delim hsep.1, shaped_block hsep.1]
        by_cases hc : c = delim
        · rw [if_pos hc]
          exact (ih fun _ => by rw [Option.toList_none, length_nil]; omega).trans
            ⟨fun h => ⟨hc, h⟩, fun h => h.2⟩
        · rw [if_neg hc]
          exact ⟨fun h => absurd h Bool.false_ne_true, fun h => absurd h.1 hc⟩
      · have hblock : ¬ (delim ≠ 0 ∧ 2 * part % (2 * group + 1) = 2 * group) := by
          rintro ⟨hdelim, hmod⟩
          have := hpart hdelim
          rw [Nat.mod_eq_of_lt (by omega)] at hmod
          exact hsep ⟨hdelim, by omega⟩
        rw [if_neg hblock, hexBytes_cons part hsep]
        refine hdigit _ _ fun j => ih fun hdelim => ?_
        have := hpart hdelim
        rw [Option.toList_some, length_singleton]
        by_contra hover
        exact hsep ⟨hdelim, by omega⟩
    | some h =>
      rw [Option.toList_some, length_singleton] at hpart ⊢
      have hblock : ¬ (delim ≠ 0 ∧ (2 * part + 1) % (2 * group + 1) = 2 * group) := by
        rintro ⟨hdelim, hmod⟩
        have := hpart hdelim
        rw [Nat.mod_eq_of_lt (by omega)] at hmod
        omega
      rw [if_neg hblock, hexBytes]
      refine hdigit _ _ fun j => ?_
      rw [Option.isSome_map]
      refine ih fun hdelim => ?_
      have := hpart hdelim
      rw [Option.toList_none, length_nil]
      omega

/-- The letter case apart, a digit is the upper case digit of its place in the table. -/
theorem hexPos_upper {j : Nat} (hne : c ≠ 0) (h : hexPos c = some j) :
    j < 16 ∧ gAsciiToupper c = hexcUpper.getD j 0 := by
  rw [hexPos, if_neg hne] at h
  obtain ⟨hlt, heq, -⟩ := findIdx?_eq_some_iff_getElem.1 h
  refine ⟨hlt, ?_⟩
  rw [getD_eq_getElem?_getD, getElem?_eq_getElem hlt, Option.getD_some]
  exact (eq_of_beq heq).symm

theorem toupper_hexc (upper : Bool) (h : n < 16) :
    gAsciiToupper ((hexc upper).getD n 0) = hexcUpper.getD n 0 := by
  have hall : ∀ n < 16, gAsciiToupper (hexcUpper.getD n 0) = hexcUpper.getD n 0 ∧
      gAsciiToupper (hexcLower.getD n 0) = hexcUpper.getD n 0 := by decide
  cases upper with
  | false => exact (hall n h).2
  | true => exact (hall n h).1

/-- Two digits are, up to their case, those of the byte that they are read as. -/
theorem hexByte_of_pos (upper : Bool) {d : UInt8} {i j : Nat} (hc : c ≠ 0) (hd : d ≠ 0) (hi : hexPos c = some i)
    (hj : hexPos d = some j) :
    [c, d].map gAsciiToupper =
      (hexByte (hexc upper) (UInt8.ofNat (i % 16 * 16 + j % 16))).map gAsciiToupper := by
  obtain ⟨hilt, hi⟩ := hexPos_upper hc hi
  obtain ⟨hjlt, hj⟩ := hexPos_upper hd hj
  have hvalue : (UInt8.ofNat (i % 16 * 16 + j % 16)).toNat = i * 16 + j := by
    rw [Nat.mod_eq_of_lt hilt, Nat.mod_eq_of_lt hjlt, UInt8.toNat_ofNat']
    exact Nat.mod_eq_of_lt (by omega)
  rw [hexByte, hvalue, show (i * 16 + j) / 16 = i by omega, show (i * 16 + j) % 16 = j by omega]
  simp only [map_cons, map_nil, hi, hj, toupper_hexc upper hilt, toupper_hexc upper hjlt]

/-- Text of digits that does not end in a delimiter is the text of its bytes, up to the case of the digits. -/
theorem hexBytes_sound (upper : Bool) (hgroup : 1 ≤ group) (fuel : Nat) {text bytes : Bytes}
    (hfuel : text.length ≤ fuel) (hpart : part ≤ group) (hnul : (0 : UInt8) ∉ text)
    (hsep : delim = 0 → 2 * part + text.length ≤ 2 * group)
    (hend : delim ≠ 0 → text = [] ∨ (2 * part + text.length) % (2 * group + 1) ≠ 0)
    (h : hexBytes delim group part none text = some bytes) :
    text.map gAsciiToupper = (hexText (hexc upper) delim group part bytes).map gAsciiToupper := by
  induction fuel generalizing text bytes part with
  | zero =>
    obtain rfl := length_eq_zero_iff.1 (Nat.le_zero.1 hfuel)
    cases h
    rfl
  | succ fuel ih =>
    cases text with
    | nil =>
      cases h
      rfl
    | cons c rest =>
      rw [length_cons] at hfuel
      have hrest : (0 : UInt8) ∉ rest := fun hmem => hnul (mem_cons_of_mem c hmem)
      by_cases hfull : part = group
      · have hdelim : delim ≠ 0 := by
          intro hzero
          have := hsep hzero
          rw [length_cons] at this
          omega
        have hlength : 2 * group + (c :: rest).length = 2 * group + 1 + rest.length := by
          rw [length_cons]
          omega
        have hmod := (hend hdelim).resolve_left (cons_ne_nil c rest)
        rw [hfull, hlength, Nat.add_mod_left] at hmod
        rw [hfull, hexBytes_delim hdelim] at h
        by_cases hc : c = delim
        · rw [if_pos hc] at h
          have hsame := ih (by omega) (Nat.zero_le _) hrest (fun h => absurd h hdelim)
            (fun _ => .inr (by rwa [Nat.mul_zero, Nat.zero_add])) h
          cases bytes with
          | nil =>
            rw [map_eq_nil_iff.1 hsame] at hmod
            exact absurd (Nat.zero_mod _) hmod
          | cons b bytes =>
            rw [hexText, if_neg (by omega)] at hsame
            rw [hfull, hexText, if_pos rfl, hc, map_cons, map_cons, hsame]
        · rw [if_neg hc] at h
          cases h
      · rw [hexBytes_cons part fun h => hfull h.2] at h
        obtain ⟨i, hi, h⟩ := Option.bind_eq_some_iff.1 h
        cases rest with
        | nil => cases h
        | cons d rest =>
          rw [hexBytes] at h
          obtain ⟨j, hj, h⟩ := Option.bind_eq_some_iff.1 h
          obtain ⟨bytes, hbytes, rfl⟩ := Option.map_eq_some_iff.1 h
          rw [length_cons] at hfuel
          have hlength : 2 * part + (c :: d :: rest).length = 2 * (part + 1) + rest.length := by
            rw [length_cons, length_cons]
            omega
          rw [hlength] at hsep hend
          have hsame := ih (by omega) (by omega) (fun hmem => hrest (mem_cons_of_mem d hmem)) hsep
            (fun hdelim => .inr ((hend hdelim).resolve_left (cons_ne_nil _ _))) hbytes
          have hpair := hexByte_of_pos upper (fun h => hnul (h ▸ mem_cons_self))
            (fun h => hrest (h ▸ mem_cons_self)) hi hj
          rw [hexText, if_neg hfull, map_append, ← hpair, ← hsame]
          rfl

/-- Without a delimiter there are two characters for a byte. -/
theorem hexBytes_length {bytes : Bytes} (h : hexBytes 0 group part half text = some bytes) :
    half.toList.length + text.length = 2 * bytes.length := by
  induction text generalizing part half bytes with
  | nil =>
    cases half with
    | none =>
      cases h
      rfl
    | some x => cases h
  | cons c text ih =>
    cases half with
    | none =>
      rw [hexBytes_cons part fun h => h.1 rfl] at h
      obtain ⟨i, -, h⟩ := Option.bind_eq_some_iff.1 h
      have := ih h
      rw [Option.toList_some, length_singleton] at this
      rw [Option.toList_none, length_nil, length_cons]
      omega
    | some x =>
      rw [hexBytes] at h
      obtain ⟨j, -, h⟩ := Option.bind_eq_some_iff.1 h
      obtain ⟨bytes, hbytes, rfl⟩ := Option.map_eq_some_iff.1 h
      have := ih hbytes
      rw [Option.toList_none, length_nil] at this
      rw [Option.toList_some, length_singleton, length_cons, length_cons]
      omega

/-! ## The codec -/

/-- The bytes come back. -/
def RoundTrip (data : Bytes) (upper : Bool) (delim : UInt8) (group : Nat) : Prop :=
  eggHexDecodeFull (eggHexEncodeFull data upper delim group) delim group = .ok (some data)

/-- The text is read inside of its characters, and what comes out is what the text is the encoding of, up to the
case of the digits. -/
def Exact (text : Bytes) (upper : Bool) (delim : UInt8) (group : Nat) : Prop :=
  ∃ r, eggHexDecodeFull text delim group = .ok r ∧
    ∀ bytes ∈ r, text.map gAsciiToupper = (eggHexEncodeFull bytes upper delim group).map gAsciiToupper

theorem roundTrip_iff (data : Bytes) (upper : Bool) (delim : UInt8) (hgroup : 1 ≤ group) :
    RoundTrip data upper delim group ↔ delim ≠ 0 ∨ data.length ≤ group := by
  rw [RoundTrip, decodeFull_eq _ _ hgroup, encode_eq data upper hgroup, decode_eq hgroup]
  constructor
  · intro h
    by_contra hnot
    obtain ⟨hdelim, hmore⟩ := not_or.1 hnot
    obtain rfl := not_not.1 hdelim
    have hlength := hexBytes_length (Except.ok.inj h)
    have := @two_mul_lt_length data group (hexc upper) 0 0 (Nat.zero_le group) (by omega)
    rw [Option.toList_none, length_nil] at hlength
    omega
  · intro h
    rw [hexBytes_hexText upper hgroup (Nat.zero_le _) (h.imp_right fun h => by omega)]

theorem toupper_eq_zero (h : gAsciiToupper c = 0) : c = 0 := by
  have hall : ∀ n < 256, gAsciiToupper (UInt8.ofNat n) = 0 → n = 0 := by decide +kernel
  have := hall c.toNat c.toNat_lt (by rwa [UInt8.ofNat_toNat])
  exact UInt8.toNat.inj this

theorem exact_iff (text : Bytes) (upper : Bool) (delim : UInt8) (hgroup : 1 ≤ group) :
    Exact text upper delim group ↔ ¬ Stray text delim group := by
  have hread : (hexBytes delim group 0 none text).isSome = true ↔ Shaped delim group 0 text :=
    hexBytes_isSome fun _ => Nat.zero_le _
  rw [Exact, decodeFull_eq _ _ hgroup, decode_eq hgroup]
  constructor
  · rintro ⟨r, hr, hsame⟩ ⟨hshaped, hwrong⟩
    obtain ⟨bytes, hbytes⟩ := Option.isSome_iff_exists.1 (hread.2 hshaped)
    have hsame := hsame bytes (by rw [← Except.ok.inj hr, hbytes]; rfl)
    rw [encode_eq bytes upper hgroup] at hsame
    have hlength : text.length = (hexText (hexc upper) delim group 0 bytes).length := by
      have := congrArg List.length hsame
      rwa [length_map, length_map] at this
    -- without a delimiter, two characters for a byte leave no room for another group
    have hone : delim = 0 → bytes.length ≤ group := by
      intro hdelim
      rw [hdelim] at hbytes hlength
      have htwo := hexBytes_length hbytes
      rw [Option.toList_none, length_nil] at htwo
      by_contra hmore
      have := @two_mul_lt_length bytes group (hexc upper) 0 0 (Nat.zero_le group) (by omega)
      omega
    rcases hwrong with hnul | ⟨hdelim, hlong⟩ | ⟨hdelim, hne, hmod⟩
    · have hmem : (0 : UInt8) ∈ (hexText (hexc upper) delim group 0 bytes).map gAsciiToupper :=
        hsame ▸ mem_map.2 ⟨0, hnul, rfl⟩
      obtain ⟨c, hc, hzero⟩ := mem_map.1 hmem
      have hczero := toupper_eq_zero hzero
      rcases mem_hexText hgroup (Nat.zero_le _) hc with hdigit | ⟨hdelim, hmore⟩
      · rw [hczero] at hdigit
        exact absurd hdigit (by decide)
      · have := hone (hdelim ▸ hczero)
        omega
    · have := hone hdelim
      rw [hdelim] at hbytes
      have htwo := hexBytes_length hbytes
      rw [Option.toList_none, length_nil] at htwo
      omega
    · cases bytes with
      | nil =>
        rw [hexText, length_nil] at hlength
        exact hne (length_eq_zero_iff.1 hlength)
      | cons b bytes =>
        have := length_hexText_mod (hexc upper) delim hgroup (Nat.zero_le group) (cons_ne_nil b bytes)
        rw [Nat.mul_zero, Nat.zero_add, ← hlength] at this
        exact this hmod
  · intro hnot
    refine ⟨_, rfl, fun bytes hbytes => ?_⟩
    have hshaped := hread.1 (Option.isSome_iff_exists.2 ⟨bytes, hbytes⟩)
    rw [encode_eq bytes upper hgroup]
    have hnot := fun h => hnot ⟨hshaped, h⟩
    refine hexBytes_sound upper hgroup text.length (Nat.le_refl _) (Nat.zero_le _) (fun h => hnot (.inl h))
      (fun hdelim => ?_) (fun hdelim => ?_) hbytes
    · by_contra h
      exact hnot (.inr (.inl ⟨hdelim, by omega⟩))
    · by_contra h
      obtain ⟨hne, hmod⟩ := not_or.1 h
      rw [Nat.mul_zero, Nat.zero_add] at hmod
      exact hnot (.inr (.inr ⟨hdelim, hne, not_not.1 hmod⟩))

/-- With a delimiter, and without one in a single group, the bytes come back; and a text gives just the bytes that
it is the encoding of, unless it has the shape of one and has a null character in place of a digit, a delimiter at
its end, or groups that nothing separates. -/
theorem hex_codec_iff (data text : Bytes) (upper : Bool) (delim : UInt8) (group : Nat) (hgroup : 1 ≤ group) :
    (RoundTrip data upper delim group ↔ delim ≠ 0 ∨ data.length ≤ group) ∧
      (Exact text upper delim group ↔ ¬ Stray text delim group) :=
  ⟨roundTrip_iff data upper delim hgroup, exact_iff text upper delim hgroup⟩

theorem hex_codec_sample :
    1 ≤ 1 ∧ (RoundTrip [0x41, 0x42] true 0x3a 1 ↔ (0x3a : UInt8) ≠ 0 ∨ [0x41, 0x42].length ≤ 1) ∧
      (Exact [0x34, 0x31, 0x3a] true 0x3a 1 ↔ ¬ Stray [0x34, 0x31, 0x3a] 0x3a 1) :=
  ⟨Nat.le_refl 1, hex_codec_iff [0x41, 0x42] [0x34, 0x31, 0x3a] true 0x3a 1 (Nat.le_refl 1)⟩

/-- `41:` gives the byte, whose encoding is `41`. -/
theorem trailing_delimiter_taken :
    eggHexDecodeFull [0x34, 0x31, 0x3a] 0x3a 1 = .ok (some [0x41]) ∧
      ¬ Exact [0x34, 0x31, 0x3a] true 0x3a 1 ∧
      eggHexDecodeFull [0x34, 0] 0x3a 1 = .ok (some [0x40]) ∧ ¬ Exact [0x34, 0] true 0x3a 1 ∧
      ¬ RoundTrip [0x41, 0x42] true 0 1 := by
  have hdelim : eggHexDecodeFull [0x34, 0x31, 0x3a] 0x3a 1 = .ok (some [0x41]) := by rfl
  have hnul : eggHexDecodeFull [0x34, 0] 0x3a 1 = .ok (some [0x40]) := by rfl
  refine ⟨hdelim, ?_, hnul, ?_, ?_⟩
  · rintro ⟨r, hr, hsame⟩
    rw [hdelim] at hr
    have := hsame [0x41] (by rw [← Except.ok.inj hr]; rfl)
    exact absurd this (by decide)
  · rintro ⟨r, hr, hsame⟩
    rw [hnul] at hr
    have := hsame [0x40] (by rw [← Except.ok.inj hr]; rfl)
    exact absurd this (by decide)
  · intro h
    have hnone : eggHexDecodeFull (eggHexEncodeFull [0x41, 0x42] true 0 1) 0 1 = .ok none := by rfl
    rw [RoundTrip, hnone] at h
    cases h

end MateKeyring.Egg.HexCodec
