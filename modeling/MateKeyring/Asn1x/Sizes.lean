import Mathlib.Data.List.Perm.Subperm
import MateKeyring.Asn1x.Values

/-!
# Size constraints

`SIZE (n)` and `SIZE (min..max)` of a definition, whose bounds are numbers, `MAX`, or the names of constants that are
numbers, `MAX` or names in turn. A node looks for these constants among its options, where `traverse_and_prepare` puts
the one that the upper end names and no other. The upper end itself is not within the limits of
`anode_validate_size`, though it is within those of the constraint (`size_right_iff`).
-/

set_option autoImplicit false

namespace MateKeyring.Asn1x.Sizes

open Lib List

/-! ## Bounds -/

/-- `lookup_def_of_type`, among the definitions. -/
def lookupDefOfType (defs : List Def) (name : Bytes) (kind : Kind) : Option Def :=
  defs.find? fun row => row.kind = kind && row.name == some name

/-- `g_ascii_isalpha (text[0])`. -/
def isName (text : Bytes) : Prop := (text.headD 0).toNat ∈ List.range' 65 26 ++ List.range' 97 26

/-- What `traverse_and_prepare` puts among the options of a node for its size: the row, and the constant that is
named as the upper end. -/
def sizeOptions (defs : List Def) (size : Def) : List Def :=
  match size.name with
  | none => [size]
  | some name =>
    if name ≠ ascii "MAX" ∧ (name.headD 0).toNat ∈ List.range' 65 26 ++ List.range' 97 26 then
      size :: (lookupDefOfType defs name .integer).toList
    else [size]

/-- The bound that a text is, `none` being no bound, after so many constants that were looked up. -/
inductive BoundAt (find : Bytes → Option Def) : Nat → Bytes → Option Nat → Prop where
  | literal {n : Nat} (hlt : n < 2 ^ 64) : BoundAt find 0 (decimal n) (some n)
  | max : BoundAt find 0 (ascii "MAX") none
  | constant {depth : Nat} {name text : Bytes} {row : Def} {bound : Option Nat} (hmax : name ≠ ascii "MAX")
      (hname : isName name) (hrow : find name = some row) (hvalue : row.value = some text)
      (hbound : BoundAt find depth text bound) : BoundAt find (depth + 1) name bound

/-- The bound that a text is. -/
def Bound (find : Bytes → Option Def) (text : Bytes) (bound : Option Nat) : Prop :=
  ∃ depth, BoundAt find depth text bound

variable {find : Bytes → Option Def} {depth : Nat} {text : Bytes} {bound : Option Nat}

theorem not_isName_decimal (n : Nat) : ¬ isName (decimal n) := by
  cases h : decimal n with
  | nil => exact absurd h (decimal_ne_nil n)
  | cons c rest =>
    have hc := isDigit_of_mem_decimal (n := n) (c := c) (h ▸ mem_cons_self)
    simp only [isDigit, Bool.and_eq_true, decide_eq_true_eq, UInt8.le_iff_toNat_le] at hc
    have hhi : (0x39 : UInt8).toNat = 57 := rfl
    rw [isName, headD_cons, mem_append, List.mem_range'_1, List.mem_range'_1]
    omega

theorem max_ne_decimal (n : Nat) : decimal n ≠ ascii "MAX" := by
  intro h
  have := not_isName_decimal n
  rw [h] at this
  exact this (by unfold isName; decide)

/-- A text is one bound, by one number of constants. -/
theorem BoundAt.unique {depth' : Nat} {bound' : Option Nat} (h : BoundAt find depth text bound)
    (h' : BoundAt find depth' text bound') : depth = depth' ∧ bound = bound' := by
  induction h generalizing depth' bound' with
  | @literal n hlt =>
    generalize htext : decimal n = text at h'
    cases h' with
    | literal hlt' => exact ⟨rfl, congrArg some (decimal_injective htext)⟩
    | max => exact absurd htext (max_ne_decimal n)
    | constant hmax hname => exact absurd (htext ▸ hname) (not_isName_decimal n)
  | max =>
    generalize htext : ascii "MAX" = text at h'
    cases h' with
    | literal hlt' => exact absurd htext.symm (max_ne_decimal _)
    | max => exact ⟨rfl, rfl⟩
    | constant hmax => exact absurd htext.symm hmax
  | constant hmax hname hrow hvalue hbound ih =>
    cases h' with
    | literal hlt' => exact absurd hname (not_isName_decimal _)
    | max => exact absurd rfl hmax
    | constant hmax' hname' hrow' hvalue' hbound' =>
      rw [hrow] at hrow'
      cases hrow'
      rw [hvalue] at hvalue'
      cases hvalue'
      obtain ⟨hdepth, hsame⟩ := ih hbound'
      exact ⟨congrArg Nat.succ hdepth, hsame⟩

section

variable {opts : List Def} (hfind : ∀ name row, find name = some row → row ∈ opts)
  (h : BoundAt find depth text bound)

include hfind h

/-- The constants that are looked up are different rows, as each is by one number of constants. -/
theorem BoundAt.rows :
    ∃ rows : List Def, rows.length = depth ∧ rows.Nodup ∧
      ∀ row ∈ rows, row ∈ opts ∧ ∃ k t b, k < depth ∧ row.value = some t ∧ BoundAt find k t b := by
  induction h with
  | literal hlt => exact ⟨[], rfl, nodup_nil, fun row h => absurd h not_mem_nil⟩
  | max => exact ⟨[], rfl, nodup_nil, fun row h => absurd h not_mem_nil⟩
  | @constant depth name text row bound hmax hname hrow hvalue hbound ih =>
    obtain ⟨rows, hlength, hnodup, hrows⟩ := ih
    refine ⟨row :: rows, by rw [length_cons, hlength], nodup_cons.2 ⟨fun hmem => ?_, hnodup⟩, ?_⟩
    · obtain ⟨-, k, t, b, hk, ht, hat⟩ := hrows row hmem
      rw [hvalue] at ht
      cases ht
      have := (hbound.unique hat).1
      omega
    · intro r hr
      rcases mem_cons.1 hr with rfl | hr
      · exact ⟨hfind _ _ hrow, depth, text, bound, Nat.lt_succ_self depth, hvalue, hbound⟩
      · obtain ⟨hmem, k, t, b, hk, ht, hat⟩ := hrows r hr
        exact ⟨hmem, k, t, b, Nat.lt_succ_of_lt hk, ht, hat⟩

theorem BoundAt.depth_le : depth ≤ opts.length := by
  obtain ⟨rows, hlength, hnodup, hrows⟩ := h.rows hfind
  rw [← hlength]
  exact (hnodup.subperm fun row hrow => (hrows row hrow).1).length_le

end

/-! ## What the code makes of a bound -/

/-- The options of a node, by their names. -/
def option (node : Node) (name : Bytes) : Option Def := anodeOptLookupName node .integer name

variable {name : Bytes}

theorem option_mem {node : Node} {row : Def} (h : option node name = some row) :
    row ∈ node.an.opts :=
  mem_of_find?_eq_some h

theorem parseSize_literal (node : Node) (fuel : Nat) {n : Nat} (hlt : n < 2 ^ 64) :
    anodeParseSize node (fuel + 1) (some (decimal n)) = some n := by
  have hname : ¬ ((decimal n).headD 0).toNat ∈ List.range' 65 26 ++ List.range' 97 26 := not_isName_decimal n
  rw [anodeParseSize, if_neg (max_ne_decimal n), if_neg hname, strtoul_decimal hlt, if_pos rfl]

theorem parseSize_name (node : Node) (fuel : Nat) (hmax : name ≠ ascii "MAX")
    (hname : isName name) :
    anodeParseSize node (fuel + 1) (some name) =
      (option node name).bind fun row => anodeParseSize node fuel row.value := by
  have hname : (name.headD 0).toNat ∈ List.range' 65 26 ++ List.range' 97 26 := hname
  rw [anodeParseSize, if_neg hmax, if_pos hname, option]
  cases anodeOptLookupName node .integer name with
  | none => rfl
  | some row => rfl

/-- A bound that is resolved among the options is parsed. -/
theorem parseSize_of_bound {node : Node} {fuel : Nat} (h : BoundAt (option node) depth text bound)
    (hfuel : depth < fuel) : anodeParseSize node fuel (some text) = some (bound.getD (2 ^ 64 - 1)) := by
  induction h generalizing fuel with
  | @literal n hlt =>
    obtain ⟨fuel, rfl⟩ := Nat.exists_eq_add_one_of_ne_zero (by omega : fuel ≠ 0)
    exact parseSize_literal node fuel hlt
  | max =>
    obtain ⟨fuel, rfl⟩ := Nat.exists_eq_add_one_of_ne_zero (by omega : fuel ≠ 0)
    rw [anodeParseSize, if_pos rfl]
    rfl
  | @constant depth name text row bound hmax hname hrow hvalue hbound ih =>
    obtain ⟨fuel, rfl⟩ := Nat.exists_eq_add_one_of_ne_zero (by omega : fuel ≠ 0)
    rw [parseSize_name node fuel hmax hname, hrow, Option.bind_some, hvalue]
    exact ih (by omega)

/-- A bound of the definitions that is parsed is resolved among the options, if these are of the definitions. -/
theorem bound_of_parseSize {node : Node} {fuel x : Nat}
    (hoptions : ∀ name row, option node name = some row → find name = some row)
    (h : BoundAt find depth text bound) (hparse : anodeParseSize node fuel (some text) = some x) :
    Bound (option node) text bound := by
  induction h generalizing fuel with
  | literal hlt => exact ⟨0, .literal hlt⟩
  | max => exact ⟨0, .max⟩
  | @constant depth name text row bound hmax hname hrow hvalue hbound ih =>
    cases fuel with
    | zero => cases hparse
    | succ fuel =>
      rw [parseSize_name node fuel hmax hname] at hparse
      obtain ⟨row', hlookup, hparse⟩ := Option.bind_eq_some_iff.1 hparse
      have hsame := hoptions name row' hlookup
      rw [hrow] at hsame
      cases hsame
      rw [hvalue] at hparse
      obtain ⟨k, hat⟩ := ih hparse
      exact ⟨k + 1, .constant hmax hname hlookup hvalue hat⟩

/-- The bound of a text is what is parsed, if it is resolved among the options. -/
theorem parseSize_eq {node : Node} (hoptions : ∀ name row, option node name = some row → find name = some row)
    (h : Bound find text bound) :
    (Bound (option node) text bound → anodeParseSize node (node.an.opts.length + 1) (some text) =
        some (bound.getD (2 ^ 64 - 1))) ∧
      (¬ Bound (option node) text bound → anodeParseSize node (node.an.opts.length + 1) (some text) = none) := by
  constructor
  · rintro ⟨k, hat⟩
    exact parseSize_of_bound hat (Nat.lt_succ_of_le (hat.depth_le fun _ _ => option_mem))
  · intro hnot
    cases hparse : anodeParseSize node (node.an.opts.length + 1) (some text) with
    | none => rfl
    | some x =>
      obtain ⟨k, hat⟩ := h
      exact absurd (bound_of_parseSize hoptions hat hparse) hnot

/-! ## Limits -/

/-- The limits of a size with the given bounds, the upper end being `none` where there is none. -/
def Limits (bounds : Bytes → Option Nat → Prop) (size : Def) (low : Nat) (high : Option Nat) : Prop :=
  (∃ text, size.value = some text ∧ bounds text (some low)) ∧
    if size.flags.minMax then ∃ text, size.name = some text ∧ bounds text high else high = some low

/-- A length within the limits. -/
def Within (low : Nat) (high : Option Nat) (length : Nat) : Prop := low ≤ length ∧ ∀ m ∈ high, length ≤ m

/-- The constants of the definitions. -/
def constant (defs : List Def) (name : Bytes) : Option Def := lookupDefOfType defs name .integer

/-- A bound is a number or `MAX`, or it is the name of the upper end and stands for one of them. -/
def Known (defs : List Def) (size : Def) (text : Bytes) (bound : Option Nat) : Prop :=
  BoundAt (constant defs) 0 text bound ∨
    (size.name = some text ∧ text ≠ ascii "MAX" ∧ isName text ∧
      ∃ row value, constant defs text = some row ∧ row.value = some value ∧ BoundAt (constant defs) 0 value bound)

/-- A node of a definition with a size, as `traverse_and_prepare` leaves it. -/
structure Sized (defs : List Def) (node : Node) (size : Def) : Prop where
  flag : node.flags.size = true
  found : anodeOptLookup node .size = some size
  options : ∀ name, option node name =
    (sizeOptions defs size).find? fun row => row.kind = .integer && row.name == some name

variable {defs : List Def} {node : Node} {size : Def} {low : Nat} {high : Option Nat}

/-- A constant among the options is that of the upper end. -/
theorem Sized.option_eq_some {row : Def} (h : Sized defs node size) :
    option node name = some row ↔
      size.name = some name ∧ name ≠ ascii "MAX" ∧ isName name ∧ constant defs name = some row := by
  have hkind : size.kind = .size := by
    have hfound := find?_some h.found
    exact of_decide_eq_true hfound
  have hnot : (size.kind = .integer && size.name == some name) = false := by
    rw [hkind]
    rfl
  rw [h.options, sizeOptions]
  cases hname : size.name with
  | none =>
    rw [hname] at hnot
    simp [hkind]
  | some upper =>
    dsimp only
    split
    · rename_i hupper
      rw [find?_cons, hnot]
      cases hlookup : lookupDefOfType defs upper .integer with
      | none =>
        refine iff_of_false (fun h => by cases h) ?_
        rintro ⟨heq, -, -, hconstant⟩
        cases heq
        rw [constant, hlookup] at hconstant
        cases hconstant
      | some found =>
        have hfound := find?_some hlookup
        rw [Bool.and_eq_true] at hfound
        have hnamed : found.name = some upper := eq_of_beq hfound.2
        have hinteger : found.kind = .integer := of_decide_eq_true hfound.1
        rw [Option.toList_some, find?_singleton, hnamed, hinteger]
        by_cases heq : upper = name
        · subst heq
          rw [if_pos (by simp), constant, hlookup]
          exact ⟨fun hrow => ⟨rfl, hupper.1, hupper.2, hrow⟩, fun hrow => hrow.2.2.2⟩
        · rw [if_neg (by simpa using heq)]
          refine iff_of_false (fun h => by cases h) fun hrow => heq (Option.some.inj hrow.1)
    · rename_i hupper
      rw [find?_cons, hnot]
      refine iff_of_false (fun h => by cases h) ?_
      rintro ⟨heq, hmax, hisName, -⟩
      cases heq
      exact hupper ⟨hmax, hisName⟩

/-- A bound of the definitions is resolved among the options exactly if it is known. -/
theorem Sized.bound_iff (h : Sized defs node size) : Bound (option node) text bound ↔ Known defs size text bound := by
  have hplain : ∀ {find find' : Bytes → Option Def} {text : Bytes} {bound : Option Nat},
      BoundAt find 0 text bound → BoundAt find' 0 text bound := by
    intro find find' text bound hat
    cases hat with
    | literal hlt => exact .literal hlt
    | max => exact .max
  constructor
  · rintro ⟨depth, hat⟩
    cases hat with
    | literal hlt => exact .inl (.literal hlt)
    | max => exact .inl .max
    | @constant depth _ value row _ hmax hname hrow hvalue hbound =>
      obtain ⟨hupper, -, -, hconstant⟩ := h.option_eq_some.1 hrow
      refine .inr ⟨hupper, hmax, hname, row, value, hconstant, hvalue, ?_⟩
      cases hbound with
      | literal hlt => exact .literal hlt
      | max => exact .max
      | @constant depth _ value' row' _ hmax' hname' hrow' hvalue' hbound' =>
        -- the second name is the first one again, so that it would have two depths
        obtain ⟨hupper', -⟩ := h.option_eq_some.1 hrow'
        rw [hupper] at hupper'
        cases hupper'
        have hinner := BoundAt.constant hmax' hname' hrow' hvalue' hbound'
        have houter := BoundAt.constant hmax hname hrow hvalue hinner
        have := (hinner.unique houter).1
        omega
  · rintro (hat | ⟨hupper, hmax, hname, row, value, hconstant, hvalue, hat⟩)
    · exact ⟨0, hplain hat⟩
    · exact ⟨1, .constant hmax hname (h.option_eq_some.2 ⟨hupper, hmax, hname, hconstant⟩) hvalue (hplain hat)⟩

/-- Lengths within the limits that are refused: that of the upper end, and all where a bound is not known. -/
def Refused (defs : List Def) (size : Def) (low : Nat) (high : Option Nat) (length : Nat) : Prop :=
  Within low high length ∧
    (¬ Limits (Known defs size) size low high ∨ size.flags.minMax = true ∧ high.getD (2 ^ 64 - 1) ≤ length)

/-- What is parsed for a bound of the definitions. -/
theorem Sized.parseSize_eq (h : Sized defs node size) (hbound : Bound (constant defs) text bound) :
    (Known defs size text bound → anodeParseSize node (node.an.opts.length + 1) (some text) =
        some (bound.getD (2 ^ 64 - 1))) ∧
      (¬ Known defs size text bound → anodeParseSize node (node.an.opts.length + 1) (some text) = none) := by
  have hoptions : ∀ name row, option node name = some row → constant defs name = some row :=
    fun name row hrow => (h.option_eq_some.1 hrow).2.2.2
  rw [← h.bound_iff]
  exact Sizes.parseSize_eq hoptions hbound

/-- A length is accepted if it is within the limits and is not refused. -/
theorem validateSize_iff (h : Sized defs node size) (hlimits : Limits (Bound (constant defs)) size low high)
    (length : Nat) :
    anodeValidateSize node length = true ↔ Within low high length ∧ ¬ Refused defs size low high length := by
  obtain ⟨⟨lower, hvalue, hlow⟩, hupper⟩ := hlimits
  obtain ⟨hparse, hfail⟩ := h.parseSize_eq hlow
  have hexpand : (Within low high length ∧ ¬ Refused defs size low high length) ↔
      Within low high length ∧ Limits (Known defs size) size low high ∧
        ¬ (size.flags.minMax = true ∧ high.getD (2 ^ 64 - 1) ≤ length) := by
    rw [Refused]
    tauto
  rw [hexpand, anodeValidateSize, if_pos h.flag, h.found, Limits]
  dsimp only
  rw [hvalue]
  by_cases hbound : Known defs size lower (some low)
  · rw [hparse hbound]
    dsimp only
    have hlower : ∃ text, some lower = some text ∧ Known defs size text (some low) := ⟨lower, rfl, hbound⟩
    by_cases hminMax : size.flags.minMax = true
    · rw [if_pos hminMax] at hupper
      obtain ⟨upper, hname, hhigh⟩ := hupper
      obtain ⟨hparse', hfail'⟩ := h.parseSize_eq hhigh
      rw [if_pos hminMax, if_pos hminMax, hname]
      by_cases hbound' : Known defs size upper high
      · rw [hparse' hbound']
        have hboth : ∃ text, some upper = some text ∧ Known defs size text high := ⟨upper, rfl, hbound'⟩
        rw [Bool.not_eq_true', Bool.or_eq_false_iff, decide_eq_false_iff_not, decide_eq_false_iff_not]
        constructor
        · rintro ⟨hge, hlt⟩
          refine ⟨⟨Nat.not_lt.1 hge, fun m hm => ?_⟩, ⟨hlower, hboth⟩, fun h => hlt h.2⟩
          rw [Option.mem_def.1 hm, Option.getD_some] at hlt
          exact (Nat.not_le.1 hlt).le
        · rintro ⟨⟨hge, -⟩, -, hlt⟩
          exact ⟨Nat.not_lt.2 hge, fun h => hlt ⟨hminMax, h⟩⟩
      · rw [hfail' hbound']
        refine iff_of_false Bool.false_ne_true ?_
        rintro ⟨-, ⟨-, text, htext, hat⟩, -⟩
        cases htext
        exact hbound' hat
    · rw [if_neg hminMax] at hupper
      rw [if_neg hminMax, if_neg hminMax, beq_iff_eq, hupper, Within]
      constructor
      · rintro rfl
        exact ⟨⟨Nat.le_refl _, fun m hm => (Option.mem_some_iff.1 hm).le⟩, ⟨hlower, rfl⟩, fun h => hminMax h.1⟩
      · rintro ⟨⟨hge, hle⟩, -⟩
        exact Nat.le_antisymm (hle low rfl) hge
  · rw [hfail hbound]
    refine iff_of_false Bool.false_ne_true ?_
    rintro ⟨-, ⟨⟨text, htext, hat⟩, -⟩, -⟩
    cases htext
    exact hbound hat

/-! ## Validation -/

variable {readTime : TimeReader}

/-- All but the size of a value is valid, which has the given length: that of a string, or the number of elements. -/
def ValidButSize (readTime : TimeReader) (node : Node) (tlv : Atlv) (length : Nat) : Prop :=
  match node.kind with
  | .octetString | .generalString => ∃ string, anodeReadString tlv = .ok (some string) ∧ string.length = length
  | .sequenceOf =>
    anodeValidatePresent readTime node.children = .ok true ∧ sameTags node.children = true ∧
      (node.children.filterMap Node.tlv).length = length
  | .setOf =>
    anodeValidatePresent readTime node.children = .ok true ∧ sameTags node.children = true ∧
      ascending (node.children.filterMap Node.tlv) = true ∧ (node.children.filterMap Node.tlv).length = length
  | _ => False

theorem ok_true_iff {b : Bool} : (Except.ok b : Checked Bool) = .ok true ↔ b = true :=
  ⟨Except.ok.inj, congrArg Except.ok⟩

variable {tlv : Atlv} {length : Nat}

theorem validateString_iff
    (h : ∃ string, anodeReadString tlv = .ok (some string) ∧ string.length = length) :
    anodeValidateString node tlv = .ok true ↔ anodeValidateSize node length = true := by
  obtain ⟨string, hread, rfl⟩ := h
  rw [anodeValidateString, hread]
  exact ok_true_iff

/-- The validation of such a value is that of its size. -/
theorem validate_iff (htlv : node.tlv = some tlv) (hmemory : tlv.isNull = false)
    (h : ValidButSize readTime node tlv length) :
    anodeValidateAnything readTime node = .ok true ↔ anodeValidateSize node length = true := by
  obtain ⟨an, children⟩ := node
  have htlv : an.tlv = some tlv := htlv
  rw [anodeValidateAnything, htlv]
  dsimp only
  rw [hmemory, if_neg Bool.false_ne_true]
  unfold ValidButSize at h
  split at h
  · rename_i hkind
    rw [hkind]
    exact validateString_iff h
  · rename_i hkind
    rw [hkind]
    exact validateString_iff h
  · rename_i hkind
    obtain ⟨hpresent, hsame, rfl⟩ := h
    rw [hkind]
    dsimp only [Node.children] at hpresent hsame ⊢
    rw [hpresent, hsame]
    exact ok_true_iff
  · rename_i hkind
    obtain ⟨hpresent, hsame, hascending, rfl⟩ := h
    rw [hkind]
    dsimp only [Node.children] at hpresent hsame hascending ⊢
    rw [hpresent, hsame, hascending]
    exact ok_true_iff
  · exact h.elim

/-- The validation of a string, a `SEQUENCE OF` or a `SET OF` is right about the limits exactly if the bounds are
known and the length is not that of the upper end. -/
theorem size_right_iff (h : Sized defs node size)
    (hlimits : Limits (Bound (constant defs)) size low high) (htlv : node.tlv = some tlv)
    (hmemory : tlv.isNull = false) (hvalid : ValidButSize readTime node tlv length) :
    (anodeValidateAnything readTime node = .ok true ↔ Within low high length) ↔
      ¬ Refused defs size low high length := by
  rw [validate_iff htlv hmemory hvalid, validateSize_iff h hlimits]
  constructor
  · exact fun hright hrefused => (hright.2 hrefused.1).2 hrefused
  · exact fun haccepted => ⟨And.left, fun hwithin => ⟨hwithin, haccepted⟩⟩

/-! ### An octet string of one to three octets -/

/-- `SIZE (1..3)` -/
def oneToThree : Def :=
  { name := some [0x33], kind := .size, flags := { minMax := true }, value := some [0x31] }

/-- The element of an octet string. -/
def octetTlv (content : Bytes) : Atlv :=
  { cls := 0, tag := 4, off := 2, len := content.length, buf := [0x04, UInt8.ofNat content.length] ++ content,
    size := content.length + 2 }

/-- A node of `OCTET STRING (SIZE (1..3))`. -/
def octetNode (content : Bytes) : Node :=
  .mk { row := { kind := .octetString, flags := { size := true } }, opts := [oneToThree],
        tlv := some (octetTlv content) } []

theorem octetNode_sized (content : Bytes) : Sized [] (octetNode content) oneToThree where
  flag := rfl
  found := rfl
  options name := by
    rw [show sizeOptions [] oneToThree = [oneToThree] by decide]
    simp [option, anodeOptLookupName, octetNode, Node.an, oneToThree]

theorem oneToThree_limits : Limits (Bound (constant [])) oneToThree 1 (some 3) := by
  refine ⟨⟨_, rfl, 0, ?_⟩, ?_⟩
  · exact BoundAt.literal (by decide : 1 < 2 ^ 64)
  · exact ⟨_, rfl, 0, BoundAt.literal (by decide : 3 < 2 ^ 64)⟩

theorem oneToThree_known : Limits (Known [] oneToThree) oneToThree 1 (some 3) := by
  refine ⟨⟨_, rfl, .inl ?_⟩, ?_⟩
  · exact BoundAt.literal (by decide : 1 < 2 ^ 64)
  · exact ⟨_, rfl, .inl (BoundAt.literal (by decide : 3 < 2 ^ 64))⟩

/-- Two octets are accepted. -/
theorem size_right_sample :
    anodeValidateAnything (fun _ _ => false) (octetNode [7, 8]) = .ok true ↔ Within 1 (some 3) 2 :=
  (size_right_iff (octetNode_sized [7, 8]) oneToThree_limits rfl rfl ⟨[7, 8], rfl, rfl⟩).2 fun hrefused =>
    hrefused.2.elim (fun h => h oneToThree_known) fun h => absurd h.2 (by decide)

/-- Three octets are within the limits, and refused. -/
theorem upper_end_refused :
    ¬ (anodeValidateAnything (fun _ _ => false) (octetNode [7, 8, 9]) = .ok true ↔ Within 1 (some 3) 3) := by
  intro h
  have hwithin : Within 1 (some 3) 3 := ⟨by decide, fun m hm => (Option.mem_some_iff.1 hm).le⟩
  have hanswer := h.2 hwithin
  rw [show anodeValidateAnything (fun _ _ => false) (octetNode [7, 8, 9]) = .ok false by rfl] at hanswer
  cases hanswer

end MateKeyring.Asn1x.Sizes
