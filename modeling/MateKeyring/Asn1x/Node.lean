import MateKeyring.Lib.CText
import MateKeyring.Asn1x.Tlv

/-!
# Definition trees

The nodes of `egg-asn1x.c`. A node carries the definition it was created from, the definition that an
identifier was joined with, and the rows that are not nodes of their own (tags, defaults, sizes, constants)
as its options. What was decoded into a node, or what is to be encoded from it, is its `Atlv` with its
encoder. The pointer `tlv->buf` is the list of the bytes from there on, and `tlv->end` is the number of
bytes between the two.
-/

set_option autoImplicit false

namespace MateKeyring.Asn1x

open Lib

/-- What a run of the decoder can end with besides a result: a fault, or that it is still running. -/
inductive Halt where
  | fault (f : Fault)
  | running
  deriving DecidableEq, Repr

/-- A step that may fault, as part of a run. -/
def step {α : Type} : Checked α → Except Halt α
  | .ok a => .ok a
  | .error f => .error (.fault f)

@[simp] theorem step_ok {α : Type} (a : α) : step (.ok a : Checked α) = .ok a := rfl

theorem of_step {α : Type} {x : Checked α} {a : α} (h : step x = .ok a) : x = .ok a := by
  cases x with
  | error f => exact nomatch h
  | ok b => exact congrArg Except.ok (Except.ok.inj h)

/-- The types of rows. -/
inductive Kind where
  | constant
  | identifier
  | integer
  | boolean
  | sequence
  | bitString
  | octetString
  | tag
  | default
  | size
  | sequenceOf
  | objectId
  | any
  | set
  | setOf
  | definitions
  | time
  | choice
  | imports
  | null
  | enumerated
  | generalString
  deriving DecidableEq, Repr

/-- The flags of a row that are looked at. -/
structure Flags where
  implicit : Bool := false
  tag : Bool := false
  option : Bool := false
  default : Bool := false
  isTrue : Bool := false
  isFalse : Bool := false
  list : Bool := false
  minMax : Bool := false
  size : Bool := false
  generalized : Bool := false
  utc : Bool := false
  deriving DecidableEq, Repr

/-- The flags of two rows together. -/
def Flags.union (a b : Flags) : Flags where
  implicit := a.implicit || b.implicit
  tag := a.tag || b.tag
  option := a.option || b.option
  default := a.default || b.default
  isTrue := a.isTrue || b.isTrue
  isFalse := a.isFalse || b.isFalse
  list := a.list || b.list
  minMax := a.minMax || b.minMax
  size := a.size || b.size
  generalized := a.generalized || b.generalized
  utc := a.utc || b.utc

/-- A row of a table of definitions (`ASN1_ARRAY_TYPE`). -/
structure Def where
  name : Option Bytes := none
  kind : Kind
  flags : Flags := {}
  value : Option Bytes := none
  deriving DecidableEq, Repr

/-- `Atlv`. `isNull` is that `buf` and `end` are null pointers. -/
structure Atlv where
  cls : UInt8
  tag : Nat
  off : Nat
  oft : Nat := 0
  len : Int
  buf : Bytes
  size : Nat
  isNull : Bool := false
  deriving DecidableEq, Repr

/-- The encoder of a node, with its data. -/
inductive Enc where
  | simple (data : Bytes)
  | structured
  | choice
  | bitString (nBits : Nat) (bits : Bytes)
  deriving DecidableEq, Repr

/-- `Anode`, less the memory that it owns and its message. -/
structure Anode where
  row : Def
  join : Option Def := none
  opts : List Def := []
  tlv : Option Atlv := none
  enc : Option Enc := none
  chosen : Bool := false
  deriving DecidableEq, Repr

/-- A node with its children. -/
inductive Node where
  | mk (an : Anode) (children : List Node)

namespace Node

/-- `node->data`. -/
def an : Node → Anode
  | mk an _ => an

/-- `node->children`. -/
def children : Node → List Node
  | mk _ children => children

@[simp] theorem an_mk (an : Anode) (children : List Node) : (mk an children).an = an := rfl
@[simp] theorem children_mk (an : Anode) (children : List Node) : (mk an children).children = children := rfl

/-- `anode_get_tlv_data`. -/
def tlv (node : Node) : Option Atlv := node.an.tlv

/-- `anode_clr_tlv_data`. -/
def clrTlv : Node → Node
  | mk an children => mk { an with tlv := none } children

/-- `anode_set_tlv_data`. -/
def setTlvData (node : Node) (tlv : Atlv) : Checked Node :=
  if node.an.tlv = none ∧ 0 ≤ tlv.len then .ok (mk { node.an with tlv := some tlv } node.children)
  else .error .assertion

/-- Whether the node is the one that was chosen. -/
def setChosen (chosen : Bool) : Node → Node
  | mk an children => mk { an with chosen := chosen } children

/-- The same node with other children. -/
def withChildren (node : Node) (children : List Node) : Node := mk node.an children

@[simp] theorem an_withChildren (node : Node) (children : List Node) :
    (node.withChildren children).an = node.an := rfl

/-- `anode_def_type`. -/
def kind (node : Node) : Kind := (node.an.join.getD node.an.row).kind

/-- `anode_def_flags`. -/
def flags (node : Node) : Flags :=
  match node.an.join with
  | none => node.an.row.flags
  | some join => node.an.row.flags.union join.flags

end Node

/-- `anode_opt_lookup`, without a name. -/
def anodeOptLookup (node : Node) (kind : Kind) : Option Def := node.an.opts.find? fun row => row.kind = kind

/-- `anode_opt_lookup`, with a name. -/
def anodeOptLookupName (node : Node) (kind : Kind) (name : Bytes) : Option Def :=
  node.an.opts.find? fun row => (row.name.isNone || row.name == some name) && row.kind == kind

/-- `anode_opts_lookup`, without a name. -/
def anodeOptsLookup (node : Node) (kind : Kind) : List Def := node.an.opts.filter fun row => row.kind = kind

/-- `anode_def_value_as_ulong`; `none` is `G_MAXULONG`. -/
def anodeDefValueAsUlong (row : Def) : Option Nat :=
  match row.value with
  | none => none
  | some value => if (strtoul 64 value).2 = [] then some (strtoul 64 value).1 else none

/-- The tag of a type in the universal class; `none` is `G_MAXULONG`. -/
def universalTag (kind : Kind) (flags : Flags) : Option Nat :=
  match kind with
  | .integer => some 2
  | .enumerated => some 10
  | .boolean => some 1
  | .bitString => some 3
  | .octetString => some 4
  | .objectId => some 6
  | .null => some 5
  | .generalString => some 27
  | .time => if flags.generalized then some 24 else if flags.utc then some 23 else none
  | .sequence | .sequenceOf => some 16
  | .set | .setOf => some 17
  | _ => none

/-- `anode_calc_tag_for_flags`; `none` is `G_MAXULONG`. -/
def anodeCalcTagForFlags (node : Node) (flags : Flags) : Option Nat :=
  if flags.tag then
    match anodeOptLookup node .tag with
    | none => none
    | some row => anodeDefValueAsUlong row
  else universalTag node.kind flags

/-- `anode_calc_tag`. -/
def anodeCalcTag (node : Node) : Option Nat := anodeCalcTagForFlags node node.flags

/-- `anode_calc_explicit_for_flags`. -/
def anodeCalcExplicitForFlags (node : Node) (flags : Flags) : Bool :=
  flags.tag &&
    match anodeOptLookup node .tag with
    | none => false
    | some row => !row.flags.implicit

/-- `anode_calc_explicit`. -/
def anodeCalcExplicit (node : Node) : Bool := anodeCalcExplicitForFlags node node.flags

/-- The content of an element. -/
def Atlv.content (tlv : Atlv) : Bytes := (tlv.buf.drop tlv.off).take tlv.len.toNat

end MateKeyring.Asn1x
