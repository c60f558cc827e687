import MateKeyring.Asn1x.Values

/-!
# Encoding

The encoder of `egg-asn1x.c`. It first goes through the tree and gives each node that has a value its `Atlv`
and its encoder (`anodeEncodePrepare`), sorts the children of every `SET OF`, and then builds the bytes
(`anodeEncodeBuild`); what was built is validated before it is handed out.
-/

set_option autoImplicit false

namespace MateKeyring.Asn1x

open Lib

/-! ## Values to be encoded -/

/-- The class of a type in `anode_encode_tlv_and_enc`, where it can be encoded. -/
def encodeClass : Kind → Option UInt8
  | .integer | .boolean | .bitString | .octetString | .objectId | .time | .enumerated | .generalString =>
    some asn1ClassUniversal
  | .sequence | .set | .sequenceOf | .setOf => some (asn1ClassStructured ||| asn1ClassUniversal)
  | _ => none

/-- The tag and the class of a node, without an explicit tag. -/
def encodeTag (node : Node) (cls : UInt8) : UInt8 × Nat :=
  if node.flags.tag then
    if anodeCalcExplicit node then
      (cls, (anodeCalcTagForFlags node { node.flags with tag := false }).getD (2 ^ 64 - 1))
    else (cls ||| asn1ClassContextSpecific, (anodeCalcTag node).getD (2 ^ 64 - 1))
  else (cls, (anodeCalcTag node).getD (2 ^ 64 - 1))

/-- The length of the explicit tag of a node, for an element of `n` bytes; `none` where it has no tag. -/
def explicitLength (node : Node) (n : Nat) : Option Nat :=
  if anodeCalcExplicit node then (anodeCalcTag node).map fun tag => (anodeEncodeClsTagLen 0 tag n).length
  else some 0

/-- `anode_encode_tlv_and_enc`; `anode_set_tlv_data` asserts that the length is not negative. -/
def anodeEncodeTlvAndEnc (node : Node) (nData : Nat) (enc : Enc) : Checked Node :=
  match encodeClass node.kind with
  | none => .ok node
  | some cls =>
    let tag := encodeTag node cls
    let off := (anodeEncodeClsTagLen tag.1 tag.2 nData).length
    match explicitLength node (off + nData) with
    | none => .ok node
    | some oft => do
        cAssert (0 ≤ gint nData)
        let tlv : Atlv :=
          { cls := tag.1, tag := tag.2, off := off + oft, oft := oft, len := gint nData, buf := [], size := 0,
            isNull := true }
        pure (.mk { node.an with tlv := some tlv, enc := some enc } node.children)

/-- `egg_asn1x_set_integer_as_ulong`. -/
def eggAsn1xSetIntegerAsUlong (value : Nat) (node : Node) : Checked Node :=
  anodeEncodeTlvAndEnc node (anodeWriteIntegerUlong value).length (.simple (anodeWriteIntegerUlong value))

/-- `egg_asn1x_set_string_as_raw`. -/
def eggAsn1xSetStringAsRaw (data : Bytes) (node : Node) : Checked Node :=
  anodeEncodeTlvAndEnc node data.length (.simple data)

/-- `egg_asn1x_set_integer_as_raw`; `none` where it fails. -/
def eggAsn1xSetIntegerAsRaw (data : Bytes) (node : Node) : Checked (Option Node) :=
  match data with
  | [] => .ok none
  | first :: _ =>
    if first &&& 0x80 ≠ 0 then .ok none
    else do
      let node ← anodeEncodeTlvAndEnc node data.length (.simple data)
      pure (some node)

/-- `egg_asn1x_set_oid_as_string`; `none` where it fails. -/
def eggAsn1xSetOidAsString (oid : Bytes) (node : Node) : Checked (Option Node) :=
  match anodeWriteOid oid with
  | none => .ok none
  | some data => do
      let node ← anodeEncodeTlvAndEnc node data.length (.simple data)
      pure (some node)

/-- The node of `egg_asn1x_set_raw_element` once the element was decoded into it. -/
def setRawDecoded (node : Node) (dtlv : Atlv) (n : Nat) : Checked Node :=
  match node.tlv with
  | none => .error .assertion
  | some tlv =>
    let oft :=
      if anodeCalcExplicit node then
        (anodeEncodeClsTagLen (asn1ClassStructured ||| asn1ClassContextSpecific)
          ((anodeCalcTag node).getD (2 ^ 64 - 1)) n).length
      else 0
    let tlv : Atlv :=
      { tlv with
        off := tlv.off + oft
        oft := if anodeCalcExplicit node then oft else tlv.oft
        buf := []
        size := 0
        isNull := true }
    .ok (.mk { node.an with tlv := some tlv, enc := some (.simple (dtlv.buf.drop dtlv.off)) } node.children)

/-- `egg_asn1x_set_raw_element`; the `Bool` is what it returns. -/
def eggAsn1xSetRawElement (fuel : Nat) (data : Bytes) (node : Node) : Except Halt (Bool × Node) :=
  if data = [] then .ok (false, node)
  else do
    let node := Node.mk node.an.clear node.children
    match ← step (anodeDecodeTlvForData data data.length) with
    | none => pure (false, node)
    | some dtlv => do
        let flags := { node.flags with tag := false, default := false, option := false }
        let r ← anodeDecodeAnythingForFlags fuel node dtlv flags
        if r.1 && r.2.2.size == data.length then do
          let node ← step (setRawDecoded r.2.1 r.2.2 data.length)
          pure (true, node)
        else pure (false, r.2.1)

/-! ## Preparing -/

/-- `anode_encode_prepare_simple`. -/
def anodeEncodePrepareSimple (node : Node) : Bool × Node :=
  match node.tlv with
  | none => (false, node)
  | some tlv =>
    let enc := node.an.enc.getD (.simple (tlv.buf.drop tlv.off))
    (true, .mk { node.an with tlv := some { tlv with buf := [], size := 0, isNull := true }, enc := some enc }
      node.children)

/-- The room of the children that are to be encoded. -/
def childrenSize (prepared : List (Bool × Node)) : Nat :=
  ((prepared.filterMap fun child => if child.1 then child.2.tlv else none).map fun tlv =>
    tlv.off + tlv.len.toNat).sum

/-- `anode_encode_prepare_structured` behind its loop; `want` is whether a node without values is encoded. -/
def prepareStructured (an : Anode) (want : Bool) (prepared : List (Bool × Node)) : Checked (Bool × Node) :=
  if prepared.any Prod.fst || want then do
    let node ← anodeEncodeTlvAndEnc (.mk an (prepared.map Prod.snd)) (childrenSize prepared) .structured
    pure (true, node)
  else pure (false, .mk an (prepared.map Prod.snd))

mutual

/-- `anode_encode_prepare`. -/
def anodeEncodePrepare (want : Bool) : Node → Checked (Bool × Node)
  | .mk an children =>
    let node := Node.mk an children
    match node.kind with
    | .integer | .boolean | .bitString | .octetString | .objectId | .time | .enumerated | .generalString
    | .any => .ok (anodeEncodePrepareSimple node)
    | .sequence | .set => do
        let prepared ← anodeEncodePrepareEach want children
        prepareStructured an false prepared
    | .sequenceOf | .setOf => do
        let prepared ← anodeEncodePrepareEach false children
        prepareStructured an (want && !node.flags.option) prepared
    | .choice => do
        let r ← anodeEncodePrepareChosen want children
        match r.1 with
        | none => pure (false, .mk an r.2)
        | some tlv =>
          -- `anode_set_enc_data` asserts that there is no encoder yet
          cAssert (an.enc = none)
          pure (true, .mk { an with tlv := some tlv, enc := some .choice } r.2)
    | _ => .ok (false, node)

/-- Prepare each child. -/
def anodeEncodePrepareEach (want : Bool) : List Node → Checked (List (Bool × Node))
  | [] => .ok []
  | child :: rest => do
      let child ← anodeEncodePrepare want child
      let rest ← anodeEncodePrepareEach want rest
      pure (child :: rest)

/-- Prepare the child that was chosen: its `Atlv`, if it has a value. -/
def anodeEncodePrepareChosen (want : Bool) : List Node → Checked (Option Atlv × List Node)
  | [] => .ok (none, [])
  | child :: rest =>
    if child.an.chosen then do
      let c ← anodeEncodePrepare want child
      pure (if c.1 then c.2.tlv else none, c.2 :: rest)
    else do
      let r ← anodeEncodePrepareChosen want rest
      pure (r.1, child :: r.2)

end

/-! ## Building -/

/-- `anode_encoder_simple`. -/
def encodeSimple (data : Bytes) (n : Nat) : Checked Bytes :=
  if n ≤ data.length then .ok (data.take n) else .error .outOfBounds

/-- `anode_encoder_bit_string`: the bits that are not used are cleared. -/
def encodeBitString (nBits : Nat) (bits : Bytes) (n : Nat) : Checked Bytes :=
  let empty := if nBits % 8 > 0 then 8 - nBits % 8 else 0
  let len := nBits / 8 + if empty > 0 then 1 else 0
  if n = len + 1 then
    if len ≤ bits.length then
      let data := bits.take len
      let cleared :=
        if len > 0 ∧ empty > 0 then
          data.take (len - 1) ++ [UInt8.ofNat ((data.getLastD 0).toNat / 2 ^ empty * 2 ^ empty)]
        else data
      .ok (UInt8.ofNat empty :: cleared)
    else .error .outOfBounds
  else .error .assertion

/-- The node whose tags are written: of a choice the child that was chosen. -/
def encodeNode (node : Node) : Option Node :=
  if node.kind = .choice then node.children.find? fun child => child.an.chosen else some node

/-- The header of the explicit tag, if there is one. -/
def explicitHeader (node : Node) (tlv : Atlv) : Checked (Option Bytes) :=
  if anodeCalcExplicit node then
    match anodeCalcTag node with
    | none => .ok none
    | some tag => do
        cAssert (0 < tlv.oft ∧ tlv.oft < tlv.off)
        let header := anodeEncodeClsTagLen (asn1ClassStructured ||| asn1ClassContextSpecific) tag
          (tlv.off - tlv.oft + tlv.len.toNat)
        cAssert (header.length = tlv.oft)
        pure (some header)
  else .ok (some [])

/-- The headers of `anode_encode_build` for `n` bytes; `none` where it fails. -/
def buildHeader (node : Node) (tlv : Atlv) (n : Nat) : Checked (Option Bytes) := do
  match ← explicitHeader node tlv with
  | none => pure none
  | some outer => do
      let header := outer ++ anodeEncodeClsTagLen tlv.cls tlv.tag tlv.len.toNat
      cAssert (header.length = tlv.off)
      cAssert (tlv.len + tlv.off = n)
      pure (some header)

/-- The `Atlv` once the bytes are there. -/
def Atlv.built (tlv : Atlv) (data : Bytes) : Atlv :=
  { tlv with buf := data, size := data.length, isNull := false }

mutual

/-- `anode_encode_build`: the `n` bytes of the node; `none` where it fails. -/
def anodeEncodeBuild : Node → Nat → Checked (Option (Bytes × Node))
  | .mk an children, n =>
    match an.tlv, an.enc, encodeNode (.mk an children) with
    | some tlv, some enc, some node => do
        match ← buildHeader node tlv n with
        | none => pure none
        | some header => do
            match ← encodeContents enc children tlv.len.toNat with
            | none => pure none
            | some (content, children) =>
              pure (some (header ++ content,
                .mk { an with tlv := some (tlv.built (header ++ content)) } children))
    | _, _, _ => .ok none

/-- Run an encoder for `n` bytes. -/
def encodeContents : Enc → List Node → Nat → Checked (Option (Bytes × List Node))
  | .simple data, children, n => do
      let content ← encodeSimple data n
      pure (some (content, children))
  | .bitString nBits bits, children, n => do
      let content ← encodeBitString nBits bits n
      pure (some (content, children))
  | .structured, children, n => buildEach children n
  | .choice, children, n => buildChosen children n

/-- `anode_encoder_structured`. -/
def buildEach : List Node → Nat → Checked (Option (Bytes × List Node))
  -- the room that is left over, which there is none of when the lengths add up, is not written
  | [], n => .ok (some (List.replicate n 0, []))
  | child :: rest, n =>
    match child.tlv with
    | none => do
        match ← buildEach rest n with
        | none => pure none
        | some (content, rest) => pure (some (content, child :: rest))
    | some tlv => do
        cAssert (tlv.off + tlv.len.toNat ≤ n)
        match ← anodeEncodeBuild child (tlv.off + tlv.len.toNat) with
        | none => pure none
        | some (content, child) => do
            match ← buildEach rest (n - (tlv.off + tlv.len.toNat)) with
            | none => pure none
            | some (content', rest) => pure (some (content ++ content', child :: rest))

/-- `anode_encoder_choice`: the encoder of the child that was chosen, for the contents of the choice. -/
def buildChosen : List Node → Nat → Checked (Option (Bytes × List Node))
  | [], _ => .ok none
  | .mk an children :: rest, n =>
    if an.chosen then
      match an.enc with
      | none => .ok none
      | some enc => do
          match ← encodeContents enc children n with
          | none => pure none
          | some (content, children) =>
            pure (some (content, .mk { an with tlv := an.tlv.map fun tlv => tlv.built content }
              children :: rest))
    else do
      match ← buildChosen rest n with
      | none => pure none
      | some (content, rest) => pure (some (content, .mk an children :: rest))

end

/-! ## Putting it together -/

mutual

/-- `anode_encode_rollback`: nothing refers to the new buffer any more. -/
def anodeEncodeRollback : Node → Node
  | .mk an children =>
    let tlv :=
      if an.enc.isSome then an.tlv.map fun tlv => { tlv with buf := [], size := 0, isNull := true }
      else an.tlv
    .mk { an with tlv := tlv } (anodeEncodeRollbackList children)

/-- Roll each child back. -/
def anodeEncodeRollbackList : List Node → List Node
  | [] => []
  | child :: rest => anodeEncodeRollback child :: anodeEncodeRollbackList rest

end

/-- The children of a `SET OF` that can be built, with their bytes, and those that stay where they are. A
child without an encoder cannot be built, and the rest of the list is looked at nevertheless. -/
def splitBuilt : List Node → Checked (List (Bytes × Node) × List Node)
  | [] => .ok ([], [])
  | child :: rest => do
      let r ← splitBuilt rest
      match child.tlv with
      | none => pure (r.1, child :: r.2)
      | some tlv => do
          match ← anodeEncodeBuild child (tlv.off + tlv.len.toNat) with
          | none => pure (r.1, child :: r.2)
          | some built => pure ((built.1, child) :: r.1, r.2)

/-- The children in the order of `traverse_and_sort_set_of`: the list that is sorted has the last child
first. -/
def sortChildren (children : List Node) : Checked (List Node) := do
  let r ← splitBuilt children
  pure (r.2 ++ (r.1.reverse.mergeSort fun a b => compareBytes a.1 b.1 ≤ 0).map Prod.snd)

mutual

/-- `traverse_and_sort_set_of` of every node, the children first. -/
def traverseAndSortSetOf : Node → Checked Node
  | .mk an children => do
      let children ← traverseAndSortSetOfList children
      if (Node.mk an children).kind = .setOf then do
        let children ← sortChildren children
        pure (anodeEncodeRollback (.mk an children))
      else pure (.mk an children)

/-- Sort in each child. -/
def traverseAndSortSetOfList : List Node → Checked (List Node)
  | [] => .ok []
  | child :: rest => do
      let child ← traverseAndSortSetOf child
      let rest ← traverseAndSortSetOfList rest
      pure (child :: rest)

end

/-- `egg_asn1x_encode`: the bytes; `none` where it fails. -/
def eggAsn1xEncode (readTime : TimeReader) (asn : Node) : Checked (Option Bytes) := do
  let r ← anodeEncodePrepare true asn
  if r.1 then do
    let asn ← traverseAndSortSetOf r.2
    match asn.tlv with
    | none => pure none
    | some tlv => do
        match ← anodeEncodeBuild asn (tlv.off + tlv.len.toNat) with
        | none => pure none
        | some built => do
            let valid ← anodeValidateAnything readTime built.2
            pure (if valid then some built.1 else none)
  else pure none

/-- `egg_asn1x_element_length`; `none` is `-1`. -/
def eggAsn1xElementLength (data : Bytes) : Checked (Option Nat) := do
  match ← anodeDecodeClsTag data data.length with
  | none => pure none
  | some (_, _, cb) => do
      cAssert (cb ≤ data.length)
      let len ← anodeDecodeLength (data.drop cb) (data.length - cb)
      if 0 ≤ len.1 then
        let total := gint (len.1 + (cb + len.2 : Nat))
        pure (if 0 ≤ total ∧ total.toNat ≤ data.length then some total.toNat else none)
      else pure none

end MateKeyring.Asn1x
