import Mathlib.Data.List.Nodup
import Mathlib.Logic.Function.Basic
import MateKeyring.Asn1x.DefTables

/-!
# Values of object identifiers

`match_oid_in_definition` gives an object identifier its value when all its constants are numbers or
names that are resolved already. The value that an identifier has is that for some number of levels of
names (`HasValue`); what the function does is said by it (`matchOidInDefinition_cases`).
-/

set_option autoImplicit false

namespace MateKeyring.Asn1x.Tables

open List

abbrev Text := Bytes

/-- The hash table `names`. -/
abbrev Names := Text → Option Text

/-! ## The functions -/

/-- `strspn (value, "01234567890") == strlen (value)` -/
def isNumber (value : Text) : Bool := value.all Lib.isDigit

/-- What the loop of `match_oid_in_definition` ends with: a name that is not resolved, a constant
without a value, or `oid`, which may be null. -/
inductive Scan where
  | problem (value : Text)
  | invalid
  | done (oid : Option Text)

/-- The value of a constant. -/
def constantValue (names : Names) (value : Text) : Option Text :=
  if isNumber value then some value else names value

/-- `oid` with another number. -/
def appendOid (value : Text) : Option Text → Text
  | none => value
  | some oid => oid ++ 0x2e :: value

/-- The loop of `match_oid_in_definition`. -/
def scanConstants (names : Names) : List Def → Option Text → Scan
  | [], oid => .done oid
  | odef :: odefs, oid =>
    if odef.kind ≠ .constant then scanConstants names odefs oid
    else
      match odef.value with
      | none => .invalid
      | some value =>
        match constantValue names value with
        | none => .problem value
        | some v => scanConstants names odefs (some (appendOid v oid))

/-- The result of `match_oid_in_definition`, with `names` and `problem` after it. -/
structure Matched where
  result : Option (List Row)
  names : Names
  problem : Option Text

/-- The rows of the children. -/
def childRows (def' : List Row) : List Def :=
  (siblings (adefFirstChild def')).filterMap fun odef => odef.head?.map Row.row

/-- `match_oid_in_definition`, for a definition with a name. -/
def matchOidInDefinition (def' : List Row) (name : Text) (names : Names) (match' : Text)
    (problem : Option Text) : Matched :=
  match scanConstants names (childRows def') none with
  | .problem value => ⟨none, names, some value⟩
  | .invalid => ⟨none, names, problem⟩
  | .done none => ⟨none, names, problem⟩
  | .done (some oid) =>
    ⟨if oid = match' then adefNextSibling def' else none, Function.update names name (some oid),
      problem⟩

/-! ## The values of identifiers -/

/-- The name of a tree that is an object identifier and has one. -/
def nameOf (t : Tree) : Option Text := if t.row.kind = .objectId then t.row.name else none

/-- The constants in a definition. -/
def components (t : Tree) : List Text :=
  (t.children.filter fun c => c.row.kind = .constant).filterMap fun c => c.row.value

/-- A table: an object identifier has a name of its own, and its constants have values. -/
structure Table where
  root : Def
  defs : List Tree
  names_nodup : (defs.filterMap nameOf).Nodup
  constants : ∀ t ∈ defs, ∀ c ∈ t.children, c.row.kind = .constant → c.row.value ≠ none

def Table.rows (table : Table) : List Row := treeRows false (.mk table.root table.defs)

/-- The values of constants, if all have one. -/
def valuesAt (names : Names) : List Text → Option (List Text)
  | [] => some []
  | c :: cs => (constantValue names c).bind fun v => (valuesAt names cs).map (v :: ·)

/-- Numbers with points between them. -/
def dotted : List Text → Text
  | [] => []
  | v :: vs => v ++ vs.flatMap (0x2e :: ·)

/-- The value of an identifier whose constants have the given values. -/
def valueAt (names : Names) (t : Tree) : Option Text :=
  if components t = [] then none else (valuesAt names (components t)).map dotted

/-- The definition of a name. -/
def definition (defs : List Tree) (name : Text) : Option Tree :=
  defs.find? fun t => nameOf t = some name

/-- The values of the names that are resolved in so many levels. -/
def resolve (defs : List Tree) : Nat → Names
  | 0 => fun _ => none
  | k + 1 => fun name => (definition defs name).bind (valueAt (resolve defs k))

/-- The value of an identifier, with all names resolved. -/
def HasValue (defs : List Tree) (t : Tree) (value : Text) : Prop :=
  ∃ k, valueAt (resolve defs k) t = some value

/-- A named identifier with a value. -/
def Named (defs : List Tree) (t : Tree) (value : Text) : Prop :=
  nameOf t ≠ none ∧ HasValue defs t value

/-! ## Levels of names -/

/-- A table of names is part of another. -/
def Part (names names' : Names) : Prop := ∀ name v, names name = some v → names' name = some v

variable {names names' : Names} {t : Tree} {v v' value : Text} {defs : List Tree}

theorem constantValue_mono (h : Part names names') {c : Text}
    (hv : constantValue names c = some v) : constantValue names' c = some v := by
  unfold constantValue at hv ⊢
  split at hv
  · rename_i hnumber
    rw [if_pos hnumber]
    exact hv
  · rename_i hnumber
    rw [if_neg hnumber]
    exact h c v hv

variable {cs vs : List Text} {name : Text}

theorem valuesAt_cons_eq_some {c : Text} :
    valuesAt names (c :: cs) = some vs ↔
      ∃ w ws, constantValue names c = some w ∧ valuesAt names cs = some ws ∧ vs = w :: ws := by
  rw [valuesAt, Option.bind_eq_some_iff]
  constructor
  · rintro ⟨w, hw, h⟩
    obtain ⟨ws, hws, rfl⟩ := Option.map_eq_some_iff.1 h
    exact ⟨w, ws, hw, hws, rfl⟩
  · rintro ⟨w, ws, hw, hws, rfl⟩
    exact ⟨w, hw, Option.map_eq_some_iff.2 ⟨ws, hws, rfl⟩⟩

theorem valuesAt_mono (h : Part names names')
    (hv : valuesAt names cs = some vs) : valuesAt names' cs = some vs := by
  induction cs generalizing vs with
  | nil => exact hv
  | cons c cs ih =>
    obtain ⟨w, ws, hw, hws, rfl⟩ := valuesAt_cons_eq_some.1 hv
    exact valuesAt_cons_eq_some.2 ⟨w, ws, constantValue_mono h hw, ih hws, rfl⟩

theorem valueAt_eq_some :
    valueAt names t = some v ↔
      components t ≠ [] ∧ ∃ vs, valuesAt names (components t) = some vs ∧ dotted vs = v := by
  unfold valueAt
  split
  · rename_i h
    exact iff_of_false (fun h => by cases h) fun hne => hne.1 h
  · rename_i h
    rw [Option.map_eq_some_iff]
    exact ⟨fun hv => ⟨h, hv⟩, And.right⟩

theorem valueAt_mono (h : Part names names') (hv : valueAt names t = some v) :
    valueAt names' t = some v := by
  obtain ⟨hne, vs, hvs, rfl⟩ := valueAt_eq_some.1 hv
  exact valueAt_eq_some.2 ⟨hne, vs, valuesAt_mono h hvs, rfl⟩

theorem resolve_succ (k : Nat) : Part (resolve defs k) (resolve defs (k + 1)) := by
  induction k with
  | zero =>
    intro name v h
    cases h
  | succ k ih =>
    intro name v h
    obtain ⟨t, ht, hv⟩ := Option.bind_eq_some_iff.1 h
    exact Option.bind_eq_some_iff.2 ⟨t, ht, valueAt_mono ih hv⟩

theorem resolve_mono {j k : Nat} (h : j ≤ k) : Part (resolve defs j) (resolve defs k) := by
  induction h with
  | refl => exact fun _ _ hv => hv
  | step _ ih => exact fun name v hv => resolve_succ _ name v (ih name v hv)

theorem resolve_unique {j k : Nat} (h : resolve defs j name = some v)
    (h' : resolve defs k name = some v') : v = v' := by
  have hj := resolve_mono (Nat.le_max_left j k) name v h
  have hk := resolve_mono (Nat.le_max_right j k) name v' h'
  exact Option.some.inj (hj.symm.trans hk)

theorem HasValue.unique (h : HasValue defs t v) (h' : HasValue defs t v') : v = v' := by
  obtain ⟨j, hj⟩ := h
  obtain ⟨k, hk⟩ := h'
  have hj := valueAt_mono (resolve_mono (Nat.le_max_left j k)) hj
  have hk := valueAt_mono (resolve_mono (Nat.le_max_right j k)) hk
  exact Option.some.inj (hj.symm.trans hk)

theorem HasValue.components_ne_nil (h : HasValue defs t v) : components t ≠ [] := by
  obtain ⟨k, hk⟩ := h
  exact (valueAt_eq_some.1 hk).1

/-- Each name has the value that its definition has. -/
def Sound (defs : List Tree) (names : Names) : Prop :=
  ∀ name v, names name = some v → ∃ k, resolve defs k name = some v

/-- Finitely many constants are resolved in a common number of levels. -/
theorem valuesAt_of_sound (h : Sound defs names)
    (hv : valuesAt names cs = some vs) : ∃ k, valuesAt (resolve defs k) cs = some vs := by
  induction cs generalizing vs with
  | nil => exact ⟨0, hv⟩
  | cons c cs ih =>
    obtain ⟨w, ws, hw, hws, rfl⟩ := valuesAt_cons_eq_some.1 hv
    obtain ⟨k, hk⟩ := ih hws
    have hone : ∃ j, constantValue (resolve defs j) c = some w := by
      unfold constantValue at hw ⊢
      split at hw
      · rename_i hnumber
        exact ⟨0, (if_pos hnumber).trans hw⟩
      · rename_i hnumber
        obtain ⟨j, hj⟩ := h c w hw
        exact ⟨j, (if_neg hnumber).trans hj⟩
    obtain ⟨j, hj⟩ := hone
    exact ⟨max j k, valuesAt_cons_eq_some.2 ⟨w, ws,
      constantValue_mono (resolve_mono (Nat.le_max_left j k)) hj,
      valuesAt_mono (resolve_mono (Nat.le_max_right j k)) hk, rfl⟩⟩

theorem hasValue_of_sound (h : Sound defs names) (hv : valueAt names t = some v) :
    HasValue defs t v := by
  obtain ⟨hne, vs, hvs, rfl⟩ := valueAt_eq_some.1 hv
  obtain ⟨k, hk⟩ := valuesAt_of_sound h hvs
  exact ⟨k, valueAt_eq_some.2 ⟨hne, vs, hk, rfl⟩⟩

theorem nameOf_of_definition (h : definition defs name = some t) : nameOf t = some name := by
  have hname := find?_some h
  exact of_decide_eq_true hname

/-- There is a number of levels in which all is resolved that can be. -/
theorem exists_last_level (defs : List Tree) : ∃ K, ∀ k, Part (resolve defs k) (resolve defs K) := by
  have hlist : ∀ ns : List Text, ∃ K, ∀ k, ∀ name ∈ ns, ∀ v, resolve defs k name = some v →
      resolve defs K name = some v := by
    intro ns
    induction ns with
    | nil => exact ⟨0, fun k name h => absurd h not_mem_nil⟩
    | cons n ns ih =>
      obtain ⟨K, hK⟩ := ih
      by_cases hn : ∃ j w, resolve defs j n = some w
      · obtain ⟨j, w, hj⟩ := hn
        refine ⟨max j K, fun k name hname v hv => ?_⟩
        rcases mem_cons.1 hname with rfl | hname
        · rw [resolve_unique hv hj]
          exact resolve_mono (Nat.le_max_left j K) _ _ hj
        · exact resolve_mono (Nat.le_max_right j K) _ _ (hK k name hname v hv)
      · refine ⟨K, fun k name hname v hv => ?_⟩
        rcases mem_cons.1 hname with rfl | hname
        · exact absurd ⟨k, v, hv⟩ hn
        · exact hK k name hname v hv
  obtain ⟨K, hK⟩ := hlist (defs.filterMap nameOf)
  refine ⟨K, fun k name v hv => hK k name ?_ v hv⟩
  cases k with
  | zero => cases hv
  | succ k =>
    obtain ⟨t, ht, -⟩ := Option.bind_eq_some_iff.1 hv
    exact mem_filterMap.2 ⟨t, mem_of_find?_eq_some ht, nameOf_of_definition ht⟩

/-- In a table a name has one definition. -/
theorem definition_of_mem (hnodup : (defs.filterMap nameOf).Nodup) (ht : t ∈ defs)
    (hname : nameOf t = some name) : definition defs name = some t := by
  induction defs with
  | nil => cases ht
  | cons d defs ih =>
    unfold definition
    rw [find?_cons]
    by_cases hd : nameOf d = some name
    · rw [filterMap_cons_some hd, nodup_cons] at hnodup
      rcases mem_cons.1 ht with rfl | ht
      · simp [hname]
      · exact absurd (mem_filterMap.2 ⟨t, ht, hname⟩) hnodup.1
    · rcases mem_cons.1 ht with rfl | ht
      · exact absurd hname hd
      · have hrest : (defs.filterMap nameOf).Nodup :=
          hnodup.sublist ((sublist_cons_self d defs).filterMap nameOf)
        rw [decide_eq_false hd]
        exact ih hrest ht

/-! ## One identifier -/

/-- `oid` after numbers. -/
def appendAll (vs : List Text) : Option Text → Option Text
  | none => if vs = [] then none else some (dotted vs)
  | some oid => some (oid ++ vs.flatMap (0x2e :: ·))

theorem appendAll_cons (v : Text) (vs : List Text) (oid : Option Text) :
    appendAll vs (some (appendOid v oid)) = appendAll (v :: vs) oid := by
  cases oid with
  | none => simp [appendAll, appendOid, dotted]
  | some oid => simp [appendAll, appendOid]

/-- The constants of rows. -/
def constantsOf (rows : List Def) : List Text :=
  (rows.filter fun r => r.kind = .constant).filterMap Def.value

theorem scanConstants_eq (names : Names) {rows : List Def} (hrows : ∀ r ∈ rows, r.kind = .constant → r.value ≠ none)
    (oid : Option Text) :
    (∃ value, scanConstants names rows oid = .problem value ∧
        valuesAt names (constantsOf rows) = none) ∨
      ∃ vs, scanConstants names rows oid = .done (appendAll vs oid) ∧
        valuesAt names (constantsOf rows) = some vs := by
  induction rows generalizing oid with
  | nil =>
    refine .inr ⟨[], ?_, rfl⟩
    cases oid with
    | none => rfl
    | some oid => simp [scanConstants, appendAll]
  | cons r rows ih =>
    have hrest := ih fun r' hr' => hrows r' (mem_cons_of_mem r hr')
    by_cases hkind : r.kind = .constant
    · obtain ⟨c, hc⟩ := Option.ne_none_iff_exists'.1 (hrows r mem_cons_self hkind)
      have hconstants : constantsOf (r :: rows) = c :: constantsOf rows := by
        rw [constantsOf, filter_cons_of_pos (by simpa using hkind), filterMap_cons_some hc]
        rfl
      rw [scanConstants, if_neg (not_not_intro hkind), hc, hconstants]
      dsimp only
      cases hv : constantValue names c with
      | none =>
        refine .inl ⟨c, rfl, ?_⟩
        rw [valuesAt, hv]
        rfl
      | some v =>
        rcases hrest (some (appendOid v oid)) with ⟨value, hscan, hnone⟩ | ⟨vs, hscan, hsome⟩
        · refine .inl ⟨value, hscan, ?_⟩
          rw [valuesAt, hv, Option.bind_some, hnone]
          rfl
        · refine .inr ⟨v :: vs, ?_, valuesAt_cons_eq_some.2 ⟨v, vs, hv, hsome, rfl⟩⟩
          rw [← appendAll_cons]
          exact hscan
    · have hconstants : constantsOf (r :: rows) = constantsOf rows := by
        rw [constantsOf, filter_cons_of_neg (by simpa using hkind)]
        rfl
      rw [scanConstants, if_pos hkind, hconstants]
      exact hrest oid

theorem places_rows (trees : List Tree) (rest : List Row) :
    (places rest trees).filterMap (fun odef => odef.head?.map Row.row) = trees.map Tree.row := by
  induction trees with
  | nil => rfl
  | cons t after ih =>
    obtain ⟨row, children⟩ := t
    rw [places, forest, treeRows, append_assoc, cons_append, filterMap_cons, map_cons, ← ih]
    rfl

theorem childRows_forest (t : Tree) (after : List Tree) (rest : List Row) :
    childRows (forest (t :: after) ++ rest) = t.children.map Tree.row := by
  rw [childRows, adefFirstChild_forest, siblings_forest, places_rows]

theorem constantsOf_children (t : Tree) : constantsOf (t.children.map Tree.row) = components t := by
  rw [constantsOf, filter_map, filterMap_map]
  rfl

/-- What `match_oid_in_definition` does with an identifier: it has no constants, or one of them is not
resolved, or it is given its value. -/
theorem matchOidInDefinition_cases (names : Names) (t : Tree) (after : List Tree) (name value : Text)
    (problem : Option Text)
    (hconstants : ∀ c ∈ t.children, c.row.kind = .constant → c.row.value ≠ none) :
    (components t = [] ∧ matchOidInDefinition (forest (t :: after) ++ []) name names value problem =
        ⟨none, names, problem⟩) ∨
      (components t ≠ [] ∧ valueAt names t = none ∧
        ∃ p, matchOidInDefinition (forest (t :: after) ++ []) name names value problem =
          ⟨none, names, some p⟩) ∨
      ∃ v, valueAt names t = some v ∧
        matchOidInDefinition (forest (t :: after) ++ []) name names value problem =
          ⟨if v = value then pointer after [] else none, Function.update names name (some v),
            problem⟩ := by
  have hrows : ∀ r ∈ t.children.map Tree.row, r.kind = .constant → r.value ≠ none := by
    intro r hr
    obtain ⟨c, hc, rfl⟩ := mem_map.1 hr
    exact hconstants c hc
  unfold matchOidInDefinition valueAt
  rw [childRows_forest, adefNextSibling_forest]
  rcases scanConstants_eq names hrows none with ⟨p, hscan, hnone⟩ | ⟨vs, hscan, hsome⟩
  · rw [constantsOf_children] at hnone
    have hne : components t ≠ [] := by
      intro hempty
      rw [hempty] at hnone
      cases hnone
    rw [hscan, hnone, if_neg hne]
    exact .inr (.inl ⟨hne, rfl, p, rfl⟩)
  · rw [constantsOf_children] at hsome
    rw [hscan]
    by_cases hempty : components t = []
    · rw [hempty] at hsome
      cases hsome
      exact .inl ⟨hempty, rfl⟩
    · have hvs : vs ≠ [] := by
        rintro rfl
        cases hc : components t with
        | nil => exact hempty hc
        | cons c cs =>
          rw [hc] at hsome
          obtain ⟨w, ws, -, -, h⟩ := valuesAt_cons_eq_some.1 hsome
          cases h
      rw [hsome, if_neg hempty, appendAll, if_neg hvs]
      exact .inr (.inr ⟨dotted vs, rfl, rfl⟩)

end MateKeyring.Asn1x.Tables
