import MateKeyring.Asn1x.Decode

/-!
# Contents of elements

Reading and writing the contents of integers, object identifiers and strings, and the checks of
`egg_asn1x_validate` that are made of them.
-/

set_option autoImplicit false

namespace MateKeyring.Asn1x

open Lib

/-! ## Integers -/

/-- `p[k] << shift` as a `gulong`: the byte becomes an `int`, which is extended with its sign. A shift by the
width of an `int` or more is left to the machine, which takes the shift modulo that width. -/
def shiftByte (b : UInt8) (shift : Nat) : Nat :=
  (gint (b.toNat * 2 ^ (shift % 32)) % 2 ^ 64).toNat

/-- `anode_read_integer_as_ulong`, from the contents. -/
def anodeReadIntegerAsUlong (content : Bytes) : Option Nat :=
  if content.length < 1 ∨ 8 < content.length then none
  else some ((content.zipIdx.map fun p => shiftByte p.1 (8 * (content.length - 1 - p.2))).foldl
    (· ||| ·) 0)

/-- `anode_write_integer_ulong`: the last bytes up to the first zero byte from the right, one byte at
least. -/
def anodeWriteIntegerUlong (value : Nat) : Bytes :=
  let buf := BigEndian.encode 8 value
  let bytes := (buf.reverse.takeWhile (· ≠ 0)).length
  buf.drop (8 - if bytes = 0 then 1 else bytes)

/-! ## Object identifiers -/

/-- `atoin` of some digits. The base grows with each digit as an `int` does. -/
def atoin (text : Bytes) : Int :=
  if text.all isDigit then
    gint (text.foldl (fun n c => 10 * n + ((c.toNat : Int) - 0x30)) 0)
  else -1

/-- The loop of `anode_read_object_id`, with the arc so far. A byte `0x80` is refused wherever it stands. -/
def readArcs : Bytes → Nat → Option Bytes
  | [], _ => some []
  | b :: rest, val =>
    if b = 0x80 then none
    else
      let next := (val * 128 % 2 ^ 32) ||| (b &&& 0x7f).toNat
      if next < val then none
      else if b &&& 0x80 = 0 then (readArcs rest 0).map (ascii "." ++ decimal next ++ ·)
      else readArcs rest next

/-- `anode_read_object_id`, from the contents. -/
def anodeReadObjectId : Bytes → Option Bytes
  | [] => none
  | b :: rest =>
    (readArcs rest 0).map
      (decimal (b.toNat / 40) ++ ascii "." ++ decimal (b.toNat - b.toNat / 40 * 40) ++ ·)

/-- The bytes of an arc, seven bits in each. -/
def arcBytes (num : Nat) : Nat → Bool → Bytes
  | 0, _ => [UInt8.ofNat (num % 128)]
  | k + 1, had =>
    let bit7 := num / 2 ^ ((k + 1) * 7) % 128
    if bit7 ≠ 0 ∨ had then UInt8.ofNat (bit7 + 128) :: arcBytes num k true else arcBytes num k false

/-- The text up to the next dot, and what follows the dot. -/
def splitDot (text : Bytes) : Bytes × Bytes :=
  (text.takeWhile (· ≠ 0x2e), (text.dropWhile (· ≠ 0x2e)).drop 1)

/-- The loop of `anode_write_oid` behind the first arc: `first` is there until the second arc is read. -/
def writeArcs : Nat → Option Int → Bytes → Option Bytes
  | 0, _, _ => none
  | _, _, [] => some []
  | fuel + 1, first, text =>
    let arc := (splitDot text).1
    let num := atoin arc
    if arc = [] ∨ num < 0 then none
    else
      match first with
      | some num1 => (writeArcs fuel none (splitDot text).2).map
          (UInt8.ofNat ((40 * num1 + num) % 256).toNat :: ·)
      | none => (writeArcs fuel none (splitDot text).2).map (arcBytes num.toNat 4 false ++ ·)

/-- `anode_write_oid`. -/
def anodeWriteOid (oid : Bytes) : Option Bytes :=
  if oid = [] then none
  else
    let arc := (splitDot oid).1
    if arc = [] ∨ atoin arc < 0 then none
    else
      match writeArcs (oid.length + 1) (some (atoin arc)) (splitDot oid).2 with
      | none => none
      | some bytes => if bytes.length < 2 then none else some bytes

/-! ## Strings -/

/-- The chunks of a constructed string, from `data` on. -/
def readChunks : Nat → Atlv → Bytes → Checked (Option Bytes)
  | 0, _, _ => .ok none
  | fuel + 1, outer, data => do
      match ← anodeDecodeTlvForContents outer data with
      | none => pure none
      | some tlv =>
        if tlv.off = 0 then pure (some [])
        else if tlv.cls &&& asn1ClassStructured ≠ 0 then pure none
        else do
          let rest ← readChunks fuel outer tlv.stop
          pure (rest.map (tlv.content ++ ·))

/-- `anode_read_string`. Each chunk takes some of the contents, so that there are not more of them than
bytes. -/
def anodeReadString (tlv : Atlv) : Checked (Option Bytes) :=
  if tlv.cls &&& asn1ClassStructured ≠ 0 then readChunks (tlv.buf.length + 1) tlv (tlv.buf.drop tlv.off)
  else .ok (some tlv.content)

/-! ## Validation -/

/-- `anode_parse_size`; `none` where it fails. A name stands for one of the options. -/
def anodeParseSize (node : Node) : Nat → Option Bytes → Option Nat
  | 0, _ => none
  | _, none => none
  | fuel + 1, some text =>
    if text = ascii "MAX" then some (2 ^ 64 - 1)
    else if (text.headD 0).toNat ∈ List.range' 65 26 ++ List.range' 97 26 then
      match anodeOptLookupName node .integer text with
      | none => none
      | some row => anodeParseSize node fuel row.value
    else if (strtoul 64 text).2 = [] then some (strtoul 64 text).1 else none

/-- `anode_validate_size`. -/
def anodeValidateSize (node : Node) (length : Nat) : Bool :=
  if node.flags.size then
    match anodeOptLookup node .size with
    | none => false
    | some size =>
      match anodeParseSize node (node.an.opts.length + 1) size.value with
      | none => false
      | some value1 =>
        if size.flags.minMax then
          match anodeParseSize node (node.an.opts.length + 1) size.name with
          | none => false
          | some value2 => !(length < value1 || value2 ≤ length)
        else length == value1
  else true

/-- The constants of an integer. -/
def listed (node : Node) (value : Nat) : Bool :=
  (anodeOptsLookup node .constant).any fun row => anodeDefValueAsUlong row == some value

/-- `anode_validate_integer`. -/
def anodeValidateInteger (node : Node) (tlv : Atlv) : Bool :=
  if tlv.len ≤ 0 then false
  else if node.flags.list then
    match anodeReadIntegerAsUlong tlv.content with
    | none => false
    | some value => listed node value
  else true

/-- `anode_validate_enumerated`. -/
def anodeValidateEnumerated (node : Node) (tlv : Atlv) : Bool :=
  anodeValidateInteger node tlv && tlv.content.headD 0 &&& 0x80 == 0

/-- `anode_validate_boolean`. -/
def anodeValidateBoolean (tlv : Atlv) : Bool := tlv.content == [0x00] || tlv.content == [0xff]

/-- `anode_validate_bit_string`. -/
def anodeValidateBitString (tlv : Atlv) : Bool :=
  if tlv.len < 1 then false
  else
    let empty := (tlv.content.headD 0).toNat
    if 7 < empty then false
    else
      let mask := 0xff / 2 ^ (8 - empty)
      !(decide (1 < tlv.len) && (tlv.content.getLastD 0).toNat &&& mask != 0)

/-- `anode_validate_string`. -/
def anodeValidateString (node : Node) (tlv : Atlv) : Checked Bool := do
  match ← anodeReadString tlv with
  | none => pure false
  | some string => pure (anodeValidateSize node string.length)

/-- Order of two elements, as `compare_tlvs` has it: negative, zero or positive. -/
def compareBytes : Bytes → Bytes → Int
  | [], [] => 0
  | [], _ :: _ => -1
  | _ :: _, [] => 1
  | a :: as, b :: bs => if a = b then compareBytes as bs else (a.toNat : Int) - b.toNat

/-- The bytes of an element. -/
def Atlv.bytes (tlv : Atlv) : Bytes := tlv.buf.take (tlv.off + tlv.len.toNat)

/-- Whether elements are in ascending order, one after the other. -/
def ascending : List Atlv → Bool
  | [] => true
  | [_] => true
  | a :: b :: rest => compareBytes a.bytes b.bytes ≤ 0 && ascending (b :: rest)

/-- Whether tags are in ascending order, one after the other. -/
def ascendingTags : List Atlv → Bool
  | [] => true
  | [_] => true
  | a :: b :: rest => a.tag ≤ b.tag && ascendingTags (b :: rest)

/-- The children that have a value have the tag of the first of them. -/
def sameTags (children : List Node) : Bool :=
  match children.filter fun child => child.tlv.isSome with
  | [] => true
  | first :: rest =>
    match anodeCalcTag first with
    | none => true
    | some tag => rest.all fun child => (child.tlv.map Atlv.tag) == some tag

section Validate

/-- Whether `anode_read_time` can read contents. -/
abbrev TimeReader := Flags → Bytes → Bool

variable (readTime : TimeReader)

mutual

/-- `anode_validate_anything`, where `readTime` is whether `anode_read_time` can read some contents. -/
def anodeValidateAnything : Node → Checked Bool
  | .mk an children =>
    let node := Node.mk an children
    match an.tlv with
    | none => .ok (node.flags.option || node.flags.default)
    | some tlv =>
      if tlv.isNull then .ok false
      else
        match node.kind with
        | .integer => .ok (anodeValidateInteger node tlv)
        | .enumerated => .ok (anodeValidateEnumerated node tlv)
        | .boolean => .ok (anodeValidateBoolean tlv)
        | .bitString => .ok (anodeValidateBitString tlv)
        | .octetString | .generalString => anodeValidateString node tlv
        | .objectId => .ok (anodeReadObjectId tlv.content).isSome
        | .null => .ok (tlv.len == 0)
        | .time => .ok (readTime node.flags tlv.content)
        | .any => .ok true
        | .choice => do
            let valid ← anodeValidateChosen children
            pure (valid && (children.filter fun child => child.an.chosen).length == 1)
        | .sequence => anodeValidateEach children
        | .set => do
            let valid ← anodeValidateEach children
            pure (valid && ascendingTags (children.filterMap Node.tlv))
        | .sequenceOf => do
            let valid ← anodeValidatePresent children
            pure (valid && sameTags children && anodeValidateSize node
              (children.filterMap Node.tlv).length)
        | .setOf => do
            let valid ← anodeValidatePresent children
            pure (valid && sameTags children && ascending (children.filterMap Node.tlv) &&
              anodeValidateSize node (children.filterMap Node.tlv).length)
        | _ => .ok false

/-- Every child is valid. -/
def anodeValidateEach : List Node → Checked Bool
  | [] => .ok true
  | child :: rest => do
      let valid ← anodeValidateAnything child
      if valid then anodeValidateEach rest else pure false

/-- Every child that has a value is valid. -/
def anodeValidatePresent : List Node → Checked Bool
  | [] => .ok true
  | child :: rest => do
      let valid ← anodeValidateAnything child
      if child.tlv.isNone || valid then anodeValidatePresent rest else pure false

/-- The first child that was chosen is valid. -/
def anodeValidateChosen : List Node → Checked Bool
  | [] => .ok false
  | child :: rest => if child.an.chosen then anodeValidateAnything child else anodeValidateChosen rest

end

/-- `egg_asn1x_decode`. -/
def eggAsn1xDecode (fuel : Nat) (asn : Node) (data : Bytes) : Except Halt (Bool × Node) :=
  if data = [] then .ok (false, asn)
  else do
    let asn := eggAsn1xClear asn
    match ← step (anodeDecodeTlvForData data data.length) with
    | none => pure (false, asn)
    | some tlv => do
        let r ← anodeDecodeAnything (anodeDecodeAnythingForFlags fuel) asn tlv
        if r.1 && r.2.2.size == data.length then do
          let valid ← step (anodeValidateAnything readTime r.2.1)
          pure (valid, r.2.1)
        else pure (false, r.2.1)

end Validate

/-! ## Looking into a tree -/

/-- `anode_child_with_name`. -/
def anodeChildWithName (node : Node) (name : Bytes) : Option Node :=
  node.children.find? fun child => child.an.row.name == some name

/-- `egg_asn1x_node`, through nodes that are no `SEQUENCE OF` or `SET OF`. -/
def eggAsn1xNode (node : Node) : List Bytes → Option Node
  | [] => some node
  | name :: names => (anodeChildWithName node name).bind fun child => eggAsn1xNode child names

/-- The `Atlv` of a node that has a value in memory. -/
def Node.value (node : Node) : Option Atlv := node.tlv.filter fun tlv => !tlv.isNull

/-- `egg_asn1x_get_raw_value`. -/
def eggAsn1xGetRawValue (node : Node) : Option Bytes :=
  match node.value with
  | none => none
  | some tlv => if tlv.cls &&& asn1ClassStructured = 0 then some tlv.content else none

/-- `egg_asn1x_get_raw_element`. -/
def eggAsn1xGetRawElement (node : Node) : Option Bytes :=
  match node.value with
  | none => none
  | some tlv =>
    if anodeCalcExplicit node then some ((tlv.buf.drop tlv.oft).take (tlv.len.toNat + tlv.off - tlv.oft))
    else some (tlv.buf.take (tlv.len.toNat + tlv.off))

/-- The default of an integer, which may be the name of a constant. -/
def defaultInteger (node : Node) : Option Nat :=
  if node.flags.default then
    ((anodeOptLookup node .default).bind Def.value).bind fun defval =>
      let text :=
        match anodeOptLookupName node .constant defval with
        | none => some defval
        | some row => row.value
      text.bind fun text => if (strtoul 64 text).2 = [] then some (strtoul 64 text).1 else none
  else none

/-- `egg_asn1x_get_integer_as_ulong`. -/
def eggAsn1xGetIntegerAsUlong (node : Node) : Option Nat :=
  match node.value with
  | none => defaultInteger node
  | some tlv => anodeReadIntegerAsUlong tlv.content

/-- `egg_asn1x_get_oid_as_string`. -/
def eggAsn1xGetOidAsString (node : Node) : Option Bytes :=
  match node.value with
  | none => none
  | some tlv => anodeReadObjectId tlv.content

/-- `egg_asn1x_get_string_as_raw`. -/
def eggAsn1xGetStringAsRaw (node : Node) : Checked (Option Bytes) :=
  match node.value with
  | none => .ok none
  | some tlv => anodeReadString tlv

end MateKeyring.Asn1x
