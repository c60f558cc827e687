import MateKeyring.Asn1x.Node

/-!
# Tables of definitions

The rows of an `ASN1_ARRAY_TYPE` array stand for trees: `FLAG_DOWN` is that the children of a row
follow it, and `FLAG_RIGHT` that its next sibling comes behind them. A pointer into the array is the
list of the rows from there on. On the rows of trees the functions that go from row to row find the
children and the siblings (`siblings_forest`).
-/

set_option autoImplicit false

namespace MateKeyring.Asn1x.Tables

open List

/-! ## Rows -/

/-- An `ASN1_ARRAY_TYPE` with the flags for its place. -/
structure Row where
  row : Def
  down : Bool
  right : Bool
  deriving DecidableEq, Repr

/-- The loop of `adef_next_sibling` past the children, and the row after it. -/
def skip : Nat → List Row → List Row
  | 0, rows => rows
  | _ + 1, [] => []
  | depth + 1, r :: rows =>
    skip (depth + 1 + (if r.down then 1 else 0) - (if r.right then 0 else 1)) rows

theorem skip_zero (rows : List Row) : skip 0 rows = rows := by rw [skip]

/-- `adef_next_sibling` -/
def adefNextSibling : List Row → Option (List Row)
  | [] => none
  | r :: rows => if r.right then some (if r.down then skip 1 rows else rows) else none

/-- `adef_first_child` -/
def adefFirstChild : List Row → Option (List Row)
  | [] => none
  | r :: rows => if r.down then some rows else none

/-- The rows of a loop that begins with one and goes on to its next siblings. -/
def siblingsLoop : Nat → Option (List Row) → List (List Row)
  | 0, _ => []
  | _ + 1, none => []
  | fuel + 1, some def' => def' :: siblingsLoop fuel (adefNextSibling def')

/-- The loop for a row; there are no more siblings than rows. -/
def siblings (first : Option (List Row)) : List (List Row) :=
  siblingsLoop ((first.getD []).length + 1) first

/-! ## Trees -/

/-- A definition with its children. -/
inductive Tree where
  | mk (row : Def) (children : List Tree)

namespace Tree

def row : Tree → Def
  | mk row _ => row

def children : Tree → List Tree
  | mk _ children => children

end Tree

mutual

/-- The rows of a tree, which has a sibling behind it or none. -/
def treeRows (right : Bool) : Tree → List Row
  | .mk row children => ⟨row, !children.isEmpty, right⟩ :: forest children

/-- The rows of trees that are siblings. -/
def forest : List Tree → List Row
  | [] => []
  | t :: after => treeRows (!after.isEmpty) t ++ forest after

end

/-- The row of the first of the trees, if there is one. -/
def pointer (trees : List Tree) (rest : List Row) : Option (List Row) :=
  if trees.isEmpty then none else some (forest trees ++ rest)

mutual

theorem skip_tree (depth : Nat) (right : Bool) (rest : List Row) (t : Tree) :
    skip (depth + 1) (treeRows right t ++ rest) =
      skip (if right then depth + 1 else depth) rest := by
  match t with
  | .mk row [] =>
    simp only [treeRows, forest, isEmpty_nil, Bool.not_true, cons_append,
      nil_append, skip, Bool.false_eq_true, if_false, Nat.add_zero]
    cases right <;> rfl
  | .mk row (child :: children) =>
    have hchildren := fun d => skip_forest d rest (child :: children) (cons_ne_nil _ _)
    simp only [treeRows, isEmpty_cons, Bool.not_false, cons_append, skip, if_true]
    cases right with
    | false => exact hchildren depth
    | true => exact hchildren (depth + 1)

theorem skip_forest (depth : Nat) (rest : List Row) (trees : List Tree) (h : trees ≠ []) :
    skip (depth + 1) (forest trees ++ rest) = skip depth rest := by
  match trees with
  | [] => exact absurd rfl h
  | t :: [] =>
    rw [forest, forest, append_nil, skip_tree]
    rfl
  | t :: t' :: after =>
    rw [forest, append_assoc, skip_tree]
    exact skip_forest depth rest (t' :: after) (cons_ne_nil t' after)

end

theorem adefNextSibling_forest (t : Tree) (after : List Tree) (rest : List Row) :
    adefNextSibling (forest (t :: after) ++ rest) = pointer after rest := by
  obtain ⟨row, children⟩ := t
  rw [forest, treeRows, append_assoc, cons_append, adefNextSibling]
  cases after with
  | nil => rfl
  | cons t' after =>
    cases children with
    | nil => rfl
    | cons child children =>
      have hskip : skip 1 (forest (child :: children) ++ (forest (t' :: after) ++ rest)) =
          forest (t' :: after) ++ rest :=
        (skip_forest 0 _ _ (cons_ne_nil _ _)).trans (skip_zero _)
      simp only [isEmpty_cons, Bool.not_false, if_true, pointer, Bool.false_eq_true, if_false]
      exact congrArg some hskip

theorem adefFirstChild_forest (t : Tree) (after : List Tree) (rest : List Row) :
    adefFirstChild (forest (t :: after) ++ rest) = pointer t.children (forest after ++ rest) := by
  obtain ⟨row, children⟩ := t
  rw [forest, treeRows, append_assoc, cons_append, adefFirstChild]
  cases children with
  | nil => rfl
  | cons child children => rfl

/-- The row of each tree, with what comes behind it. -/
def places (rest : List Row) : List Tree → List (List Row)
  | [] => []
  | t :: after => (forest (t :: after) ++ rest) :: places rest after

theorem length_le_forest (trees : List Tree) : trees.length ≤ (forest trees).length := by
  induction trees with
  | nil => exact Nat.le_refl 0
  | cons t after ih =>
    obtain ⟨row, children⟩ := t
    rw [forest, treeRows, length_cons, length_append, length_cons]
    omega

theorem siblingsLoop_forest {fuel : Nat} {trees : List Tree} (rest : List Row)
    (h : trees.length < fuel) : siblingsLoop fuel (pointer trees rest) = places rest trees := by
  induction trees generalizing fuel with
  | nil =>
    cases fuel with
    | zero => rfl
    | succ fuel => rfl
  | cons t after ih =>
    cases fuel with
    | zero => exact absurd h (Nat.not_lt_zero _)
    | succ fuel =>
      have hlt : after.length < fuel := Nat.lt_of_succ_lt_succ h
      change _ :: siblingsLoop fuel (adefNextSibling (forest (t :: after) ++ rest)) = _
      rw [adefNextSibling_forest, ih hlt]
      rfl

/-- The loop over the siblings comes to all of them. -/
theorem siblings_forest (trees : List Tree) (rest : List Row) :
    siblings (pointer trees rest) = places rest trees := by
  apply siblingsLoop_forest
  cases trees with
  | nil => exact Nat.succ_pos _
  | cons t after =>
    have hle := length_le_forest (t :: after)
    change _ < (forest (t :: after) ++ rest).length + 1
    rw [length_append]
    omega

end MateKeyring.Asn1x.Tables
