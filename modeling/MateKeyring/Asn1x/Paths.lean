import MateKeyring.Asn1x.Loading

/-!
# Nodes by their names

`egg_asn1x_node` finds a node by the names on the way to it. A node that was found is set in place (`setAt`);
`setAt_sequence` says what this does to a tree that is partly loaded, and `node_filled` says what is found in
a tree that was decoded.
-/

set_option autoImplicit false

namespace MateKeyring.Asn1x

open Lib

/-- Whether a node has a name. -/
def named (name : Bytes) (node : Node) : Bool := node.an.row.name == some name

/-- What a setter does to a node: `none` where it fails. -/
abbrev Setter := Node → Except Halt (Option Node)

/-- Set the first child with a name. -/
def setChild (name : Bytes) (f : Setter) : List Node → Except Halt (Option (List Node))
  | [] => .ok none
  | child :: rest =>
    if named name child then do
      let r ← f child
      pure (r.map (· :: rest))
    else do
      let r ← setChild name f rest
      pure (r.map (child :: ·))

/-- Set the node that `egg_asn1x_node` finds by some names. -/
def setAt (f : Setter) : List Bytes → Setter
  | [], node => f node
  | name :: names, node => do
      let r ← setChild name (setAt f names) node.children
      pure (r.map fun children => node.withChildren children)

/-! ## Setting in a tree that is loaded -/

theorem named_loaded (name : Bytes) (v : Value) (node : Node) :
    named name (loaded v node) = named name node := by
  cases v with
  | absent => rw [loaded]
  | element cls tag content =>
    rw [loaded]
    rfl
  | sequence items =>
    rw [loaded]
    rfl

/-- The child with the name is set, the others are as they were. -/
theorem setChild_loadedList {name : Bytes} {f : Setter} {children : List Node} {items : List Value}
    {i : Nat} {child : Node} {v w : Value} (hi : children.findIdx? (named name) = some i)
    (hchild : children[i]? = some child) (hitem : items[i]? = some w)
    (hf : f (loaded w child) = .ok (some (loaded v child))) :
    setChild name f (loadedList items children) = .ok (some (loadedList (items.set i v) children)) := by
  induction children generalizing items i with
  | nil => exact absurd hi (by simp)
  | cons first children ih =>
    cases items with
    | nil => exact absurd hitem (by simp)
    | cons u us =>
      rw [List.findIdx?_cons] at hi
      rw [loadedList, setChild, named_loaded]
      by_cases hnamed : named name first = true
      · rw [if_pos hnamed] at hi ⊢
        obtain rfl : 0 = i := Option.some.inj hi
        obtain rfl : first = child := Option.some.inj hchild
        obtain rfl : u = w := Option.some.inj hitem
        rw [hf, ok_bind, List.set_cons_zero, loadedList]
        rfl
      · rw [if_neg hnamed] at hi ⊢
        obtain ⟨j, hj, rfl⟩ := Option.map_eq_some_iff.1 hi
        rw [ih hj hchild hitem, ok_bind, List.set_cons_succ, loadedList]
        rfl

/-- A node below a sequence is set. -/
theorem setAt_sequence {name : Bytes} {names : List Bytes} {f : Setter} {node child : Node}
    {items : List Value} {i : Nat} {v w : Value} (hi : node.children.findIdx? (named name) = some i)
    (hchild : node.children[i]? = some child) (hitem : items[i]? = some w)
    (hf : setAt f names (loaded w child) = .ok (some (loaded v child))) :
    setAt f (name :: names) (loaded (.sequence items) node) =
      .ok (some (loaded (.sequence (items.set i v)) node)) := by
  rw [loaded, loaded, setAt, Node.children_mk, setChild_loadedList hi hchild hitem hf, ok_bind]
  rfl

/-! ## Finding in a tree that is filled -/

theorem named_filled (name : Bytes) (v : Value) (node : Node) (rest : Bytes) :
    named name (filled v node rest) = named name node := by
  cases v with
  | absent => rw [filled]
  | element cls tag content =>
    rw [filled]
    rfl
  | sequence items =>
    rw [filled]
    rfl

theorem find_filledList {name : Bytes} {children : List Node} {items : List Value} {i : Nat}
    {child : Node} {v : Value} (hi : children.findIdx? (named name) = some i)
    (hchild : children[i]? = some child) (hitem : items[i]? = some v) (rest : Bytes) :
    ∃ rest', (filledList items children rest).find? (named name) = some (filled v child rest') := by
  induction children generalizing items i with
  | nil => exact absurd hi (by simp)
  | cons first children ih =>
    cases items with
    | nil => exact absurd hitem (by simp)
    | cons u us =>
      rw [List.findIdx?_cons] at hi
      rw [filledList]
      by_cases hnamed : named name first = true
      · rw [if_pos hnamed] at hi
        obtain rfl : 0 = i := Option.some.inj hi
        obtain rfl : first = child := Option.some.inj hchild
        obtain rfl : u = v := Option.some.inj hitem
        rw [List.find?_cons_of_pos ((named_filled _ _ _ _).trans hnamed)]
        exact ⟨_, rfl⟩
      · rw [if_neg hnamed] at hi
        obtain ⟨j, hj, rfl⟩ := Option.map_eq_some_iff.1 hi
        rw [List.find?_cons_of_neg (by rw [named_filled]; exact hnamed)]
        exact ih hj hchild hitem

/-- The node that is found below a sequence. -/
theorem node_filled (names : List Bytes) {name : Bytes} {node child : Node} {items : List Value}
    {i : Nat} {v : Value} (hi : node.children.findIdx? (named name) = some i)
    (hchild : node.children[i]? = some child) (hitem : items[i]? = some v) (rest : Bytes) :
    ∃ rest', eggAsn1xNode (filled (.sequence items) node rest) (name :: names) =
      eggAsn1xNode (filled v child rest') names := by
  obtain ⟨rest', hfind⟩ := find_filledList hi hchild hitem rest
  refine ⟨rest', ?_⟩
  have hfound : anodeChildWithName (filled (.sequence items) node rest) name =
      some (filled v child rest') := by
    rw [filled]
    exact hfind
  rw [eggAsn1xNode, hfound]
  rfl

/-! ## The values that are found -/

theorem value_filled_element (cls : UInt8) (tag : Nat) (content : Bytes) (node : Node)
    (rest : Bytes) :
    (filled (.element cls tag content) node rest).value = some (foundTlv cls tag content rest) := by
  rw [filled]
  rfl

theorem getRawValue_filled {cls : UInt8} (hcls : cls &&& asn1ClassStructured = 0) (tag : Nat)
    (content : Bytes) (node : Node) (rest : Bytes) :
    eggAsn1xGetRawValue (filled (.element cls tag content) node rest) = some content := by
  rw [eggAsn1xGetRawValue, value_filled_element]
  dsimp only
  rw [content_foundTlv]
  exact if_pos hcls

theorem getRawElement_filled {node : Node} (hflags : node.flags.tag = false) (cls : UInt8) (tag : Nat)
    (content rest : Bytes) :
    eggAsn1xGetRawElement (filled (.element cls tag content) node rest) = some (element cls tag content) := by
  have hexplicit : anodeCalcExplicit (filled (.element cls tag content) node rest) = false := by
    have hflags' : (filled (.element cls tag content) node rest).flags.tag = false := by
      rw [filled]
      exact hflags
    rw [anodeCalcExplicit, anodeCalcExplicitForFlags, hflags', Bool.false_and]
  have hlen : (foundTlv cls tag content rest).len.toNat + (foundTlv cls tag content rest).off =
      (element cls tag content).length := by
    rw [length_element, Nat.add_comm]
    rfl
  rw [eggAsn1xGetRawElement, value_filled_element]
  dsimp only
  rw [hexplicit, if_neg Bool.false_ne_true, hlen]
  exact congrArg some List.take_left

theorem getOid_filled (cls : UInt8) (tag : Nat) (content : Bytes) (node : Node) (rest : Bytes) :
    eggAsn1xGetOidAsString (filled (.element cls tag content) node rest) = anodeReadObjectId content := by
  rw [eggAsn1xGetOidAsString, value_filled_element]
  dsimp only
  rw [content_foundTlv]

theorem getInteger_filled (cls : UInt8) (tag : Nat) (content : Bytes) (node : Node)
    (rest : Bytes) :
    eggAsn1xGetIntegerAsUlong (filled (.element cls tag content) node rest) =
      anodeReadIntegerAsUlong content := by
  rw [eggAsn1xGetIntegerAsUlong, value_filled_element]
  dsimp only
  rw [content_foundTlv]

theorem getString_filled {cls : UInt8} (hcls : cls &&& asn1ClassStructured = 0) (tag : Nat)
    (content : Bytes) (node : Node) (rest : Bytes) :
    eggAsn1xGetStringAsRaw (filled (.element cls tag content) node rest) = .ok (some content) := by
  have hplain : ¬ ((foundTlv cls tag content rest).cls &&& asn1ClassStructured ≠ 0) := not_not.2 hcls
  rw [eggAsn1xGetStringAsRaw, value_filled_element]
  dsimp only
  rw [anodeReadString, if_neg hplain, content_foundTlv]

end MateKeyring.Asn1x
