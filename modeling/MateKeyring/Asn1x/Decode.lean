import MateKeyring.Asn1x.Node

/-!
# Decoding

The decoder of `egg-asn1x.c`. It works in place: a node gets its `Atlv` as soon as its element was found, and
the `Atlv` that is passed along is changed on the way, also where the decoding then fails. Each function
returns whether it succeeded together with the node and the `Atlv` as it left them.

The functions that decode a node do so through a `Decoder` for nodes, so that each of them can be looked at
alone; `anodeDecodeAnythingForFlags` ties them together. Its first argument bounds the number of calls and of
rounds of a loop: a run that needs more is `Halt.running`.
-/

set_option autoImplicit false

namespace MateKeyring.Asn1x

open Lib

/-- `anode_decode_indefinite_len`. -/
def anodeDecodeIndefiniteLen : Nat → Bytes → Nat → Nat → Except Halt (Option Nat)
  | 0, _, _, _ => .error .running
  | fuel + 1, data, n, result =>
    if (result : Int) < gint n then do
      match ← step (anodeDecodeClsTagLen (data.drop result) (n - result)) with
      | none => pure none
      | some h =>
        if anodeCheckIndefiniteEnd h then pure (some result)
        else
          let result := result + h.off
          if (result : Int) > gint n then pure none
          else if h.len < 0 then do
            match ← anodeDecodeIndefiniteLen fuel (data.drop result) (n - result) 0 with
            | none => pure none
            | some len =>
              if gint n < ((result + len : Nat) : Int) then pure none
              else anodeDecodeIndefiniteLen fuel data n (result + len)
          else if gint n < (result : Int) + h.len then pure none
          else anodeDecodeIndefiniteLen fuel data n (result + h.len.toNat)
    else if (result : Int) > gint n then .ok none
    else .ok (some result)

/-- `anode_decode_tlv_for_data`. -/
def anodeDecodeTlvForData (data : Bytes) (n : Nat) : Checked (Option Atlv) := do
  match ← anodeDecodeClsTagLen data n with
  | none => pure none
  | some h =>
    let size := if h.len < 0 then n else h.len.toNat + h.off
    cAssert (size ≤ n)
    pure (some { cls := h.cls, tag := h.tag, off := h.off, len := h.len, buf := data, size := size })

/-- An element of a definite length ends in the bytes that its header was read from. -/
theorem end_le_of_header {data : Bytes} {n : Nat} {h : Header}
    (hrun : anodeDecodeClsTagLen data n = .ok (some h)) (hlen : 0 ≤ h.len) : (h.off : Int) + h.len ≤ n := by
  rw [anodeDecodeClsTagLen] at hrun
  obtain ⟨found, -, hrun⟩ := bind_eq_ok.1 hrun
  cases found with
  | none => cases hrun
  | some found =>
    obtain ⟨-, -, hrun⟩ := bind_eq_ok.1 hrun
    obtain ⟨len, -, hrun⟩ := bind_eq_ok.1 hrun
    split at hrun
    · cases hrun
    · split at hrun
      · cases hrun
      · rename_i hinside
        cases hrun
        dsimp only at hlen ⊢
        omega

/-- The assertion on the end of an element never fails. -/
theorem anodeDecodeTlvForData_eq (data : Bytes) (n : Nat) :
    anodeDecodeTlvForData data n = (do
      match ← anodeDecodeClsTagLen data n with
      | none => pure none
      | some h =>
        let size := if h.len < 0 then n else h.len.toNat + h.off
        pure (some { cls := h.cls, tag := h.tag, off := h.off, len := h.len, buf := data, size := size })) := by
  rw [anodeDecodeTlvForData]
  cases hheader : anodeDecodeClsTagLen data n with
  | error f => rfl
  | ok found =>
    cases found with
    | none => rfl
    | some h =>
      have hend : (if h.len < 0 then n else h.len.toNat + h.off) ≤ n := by
        split
        · exact Nat.le_refl n
        · have hle := end_le_of_header hheader (by omega)
          omega
      rw [ok_bind, ok_bind]
      dsimp only
      rw [cAssert_of_true hend, ok_bind]

/-- The distance of two pointers into the same input. -/
def distance (start stop : Bytes) : Nat := start.length - stop.length

/-- `tlv->end`. -/
def Atlv.stop (tlv : Atlv) : Bytes := tlv.buf.drop tlv.size

/-- What `anode_decode_tlv_for_contents` gives at the end of the contents. -/
def endTlv (data : Bytes) : Atlv :=
  { cls := asn1ClassUniversal, tag := 0, off := 0, len := 0, buf := data, size := 0 }

/-- `anode_decode_tlv_for_contents`, where `data` is the place to go on: the start of the contents, or the
end of the element before. -/
def anodeDecodeTlvForContents (outer : Atlv) (data : Bytes) : Checked (Option Atlv) :=
  if distance outer.buf data = outer.size then .ok (some (endTlv data))
  else if outer.size < distance outer.buf data then .ok none
  else do
    match ← anodeDecodeTlvForData data (outer.size - distance outer.buf data) with
    | none => pure none
    | some tlv =>
      -- the caller stops before the end of indefinite contents
      if anodeCheckIndefiniteEnd ⟨tlv.cls, tlv.tag, tlv.off, tlv.len⟩ then
        pure (some { tlv with buf := data, size := 0, off := 0 })
      else pure (some tlv)

/-- What a decoder leaves behind. -/
abbrev Outcome := Bool × Node × Atlv

/-- A decoder of nodes, for some flags. -/
abbrev Decoder := Node → Atlv → Flags → Except Halt Outcome

/-- `anode_decode_option_or_default`. -/
def anodeDecodeOptionOrDefault (node : Node) (tlv : Atlv) (flags : Flags) : Outcome :=
  if flags.option || flags.default then (true, node.clrTlv, { tlv with len := 0, size := 0, off := 0 })
  else (false, node, tlv)

/-- `anode_decode_anything`. -/
def anodeDecodeAnything (forFlags : Decoder) (node : Node) (tlv : Atlv) : Except Halt Outcome := do
  let r ← forFlags node tlv node.flags
  if r.1 then pure r else pure (anodeDecodeOptionOrDefault r.2.1 r.2.2 node.flags)

/-- `anode_decode_choice`: the children after `found` says whether one was chosen. -/
def anodeDecodeChoice (forFlags : Decoder) : Bool → List Node → Atlv →
    Except Halt (Bool × List Node × Atlv)
  | found, [], tlv => .ok (found, [], tlv)
  | true, child :: rest, tlv => do
      let r ← anodeDecodeChoice forFlags true rest tlv
      pure (r.1, child.setChosen false :: r.2.1, r.2.2)
  | false, child :: rest, tlv => do
      let c ← anodeDecodeAnything forFlags child tlv
      let r ← anodeDecodeChoice forFlags c.1 rest c.2.2
      pure (r.1, c.2.1.setChosen c.1 :: r.2.1, r.2.2)

/-- The length of the contents of `outer` that end with `tlv`. -/
def contentLen (outer tlv : Atlv) : Int :=
  gint ((distance outer.buf tlv.buf + tlv.size : Nat) - (outer.off : Int))

/-- The loop of `anode_decode_struct_string`, from `data` on. It is only left by a failure. -/
def anodeDecodeStructString : Nat → Atlv → Bytes → Except Halt (Bool × Atlv)
  | 0, _, _ => .error .running
  | fuel + 1, outer, data => do
      match ← step (anodeDecodeTlvForContents outer data) with
      | none => pure (false, outer)
      | some tlv =>
        if tlv.tag ≠ outer.tag then pure (false, outer)
        else anodeDecodeStructString fuel { outer with len := contentLen outer tlv } tlv.stop

/-- `anode_decode_struct_any`. -/
def anodeDecodeStructAny (fuel : Nat) (tlv : Atlv) : Except Halt (Bool × Atlv) :=
  if tlv.len < 0 then do
    step (cAssert (tlv.off ≤ tlv.size))
    match ← anodeDecodeIndefiniteLen fuel (tlv.buf.drop tlv.off) (tlv.size - tlv.off) 0 with
    | none => pure (false, tlv)
    | some len => pure (true, { tlv with len := len, size := tlv.off + len })
  else .ok (true, tlv)

/-- The loop of `anode_decode_sequence_or_set`, from `data` on. -/
def anodeDecodeSequenceOrSet (forFlags : Decoder) : List Node → Atlv → Bytes →
    Except Halt (Bool × List Node × Atlv)
  | [], outer, _ => do
      step (cAssert (0 ≤ outer.len))
      pure (true, [], outer)
  | child :: rest, outer, data => do
      match ← step (anodeDecodeTlvForContents outer data) with
      | none => pure (false, child :: rest, outer)
      | some tlv => do
          let c ← anodeDecodeAnything forFlags child tlv
          if c.1 then do
            let r ← anodeDecodeSequenceOrSet forFlags rest { outer with len := contentLen outer c.2.2 }
              c.2.2.stop
            pure (r.1, c.2.1 :: r.2.1, r.2.2)
          else pure (false, c.2.1 :: rest, outer)

/-- What `anode_clone` keeps of a node. -/
def Anode.clone (an : Anode) : Anode := { row := an.row, join := an.join, opts := an.opts }

mutual

/-- `anode_clone`. -/
def anodeClone : Node → Node
  | .mk an children => .mk an.clone (anodeCloneList children)

/-- `anode_clone` of each child. -/
def anodeCloneList : List Node → List Node
  | [] => []
  | child :: rest => anodeClone child :: anodeCloneList rest

end

/-- The loop of `anode_decode_sequence_or_set_of`, from `data` on: the children that were decoded. The
first of them is the template itself, the others are clones of it. -/
def anodeDecodeEach (forFlags : Decoder) : Nat → (other template : Node) → Atlv → Bytes →
    Except Halt (Bool × List Node × Atlv)
  | 0, _, _, _, _ => .error .running
  | fuel + 1, other, template, outer, data => do
      match ← step (anodeDecodeTlvForContents outer data) with
      | none => pure (false, [], outer)
      | some tlv =>
        if tlv.off = 0 then do
          step (cAssert (0 ≤ outer.len))
          pure (true, [], outer)
        else do
          let c ← anodeDecodeAnything forFlags other tlv
          if c.1 then do
            let r ← anodeDecodeEach forFlags fuel (anodeClone template) template
              { outer with len := contentLen outer c.2.2 } c.2.2.stop
            pure (r.1, c.2.1 :: r.2.1, r.2.2)
          else pure (false, [c.2.1], outer)

/-- `anode_decode_sequence_or_set_of`; where nothing was decoded the template stays. -/
def anodeDecodeSequenceOrSetOf (forFlags : Decoder) (fuel : Nat) (node : Node) (outer : Atlv) :
    Except Halt Outcome :=
  match node.children with
  | [] => .ok (false, node, { outer with len := 0 })
  | template :: _ => do
      let r ← anodeDecodeEach forFlags fuel template template { outer with len := 0 }
        (outer.buf.drop outer.off)
      pure (r.1, node.withChildren (if r.2.1.isEmpty then [template] else r.2.1), r.2.2)

/-- Set what was decoded. -/
def finish (node : Node) (tlv : Atlv) : Except Halt Outcome := do
  let node ← step (node.setTlvData tlv)
  pure (true, node, tlv)

/-- `anode_decode_primitive`. -/
def anodeDecodePrimitive (forFlags : Decoder) (node : Node) (tlv : Atlv) : Except Halt Outcome :=
  if tlv.len < 0 then .ok (false, node, tlv)
  else
    match node.kind with
    | .integer | .enumerated | .boolean | .bitString | .octetString | .objectId | .null | .generalString
    | .time | .any => finish node tlv
    | .choice => do
        let r ← anodeDecodeChoice forFlags false node.children tlv
        if r.1 then finish (node.withChildren r.2.1) r.2.2
        else pure (false, node.withChildren r.2.1, r.2.2)
    | _ => .ok (false, node, tlv)

/-- The contents of a structured element without an explicit tag. -/
def anodeDecodeContents (forFlags : Decoder) (fuel : Nat) (node : Node) (tlv : Atlv) :
    Except Halt Outcome :=
  match node.kind with
  | .any => do
      let r ← anodeDecodeStructAny fuel tlv
      pure (r.1, node, r.2)
  | .choice => do
      let r ← anodeDecodeChoice forFlags false node.children tlv
      pure (r.1, node.withChildren r.2.1, r.2.2)
  | .generalString | .octetString => do
      let r ← anodeDecodeStructString fuel { tlv with len := 0 } (tlv.buf.drop tlv.off)
      pure (r.1, node, r.2)
  | .sequence | .set => do
      let r ← anodeDecodeSequenceOrSet forFlags node.children { tlv with len := 0 } (tlv.buf.drop tlv.off)
      pure (r.1, node.withChildren r.2.1, r.2.2)
  | .sequenceOf | .setOf => anodeDecodeSequenceOrSetOf forFlags fuel node tlv
  | _ => .ok (false, node, tlv)

/-- The explicit tag `tlv` around the element `inner`. -/
def Atlv.around (tlv inner : Atlv) : Atlv :=
  { tlv with
    cls := inner.cls
    tag := inner.tag
    off := tlv.off + inner.off
    oft := inner.off
    len := inner.len }

/-- The contents of an element with an explicit tag: most of the element inside is used. -/
def anodeDecodeExplicit (forFlags : Decoder) (node : Node) (tlv : Atlv) (flags : Flags) :
    Except Halt Outcome :=
  if tlv.cls &&& asn1ClassContextSpecific = 0 then .ok (false, node, tlv)
  else do
    match ← step (anodeDecodeTlvForContents tlv (tlv.buf.drop tlv.off)) with
    | none => pure (false, node, tlv)
    | some ctlv => do
        let r ← forFlags node ctlv { flags with tag := false }
        if r.1 then pure (true, r.2.1.clrTlv, tlv.around r.2.2) else pure (false, r.2.1, tlv)

/-- The end of `anode_decode_structured`: a structure must be filled up, and indefinite contents end with
zeros. `stop` is `end`, as it was at the start. -/
def anodeDecodeFilled (definite : Bool) (stop : Nat) (node : Node) (tlv : Atlv) : Except Halt Outcome :=
  if tlv.len < 0 then .ok (false, node, tlv)
  else
    let last := tlv.off + tlv.len.toNat
    if definite then
      if last = stop then finish node { tlv with size := stop } else .ok (false, node, tlv)
    else do
      step (cAssert (last ≤ stop))
      match ← step (anodeDecodeClsTagLen (tlv.buf.drop last) (stop - last)) with
      | none => pure (false, node, tlv)
      | some h =>
        if anodeCheckIndefiniteEnd h then finish node { tlv with size := last + h.off }
        else pure (false, node, tlv)

/-- `anode_decode_structured`. -/
def anodeDecodeStructured (forFlags : Decoder) (fuel : Nat) (node : Node) (tlv : Atlv) (flags : Flags) :
    Except Halt Outcome := do
  let r ← if anodeCalcExplicitForFlags node flags then anodeDecodeExplicit forFlags node tlv flags
    else anodeDecodeContents forFlags fuel node tlv
  if r.1 then anodeDecodeFilled (decide (0 ≤ tlv.len)) tlv.size r.2.1 r.2.2
  else pure (false, r.2.1, r.2.2)

/-- `anode_decode_anything_for_flags`. -/
def anodeDecodeAnythingForFlags : Nat → Decoder
  | 0, _, _, _ => .error .running
  | fuel + 1, node, tlv, flags =>
    if tlv.off = 0 ∨ (anodeCalcTagForFlags node flags).getD tlv.tag ≠ tlv.tag then
      .ok (anodeDecodeOptionOrDefault node tlv flags)
    else if tlv.cls &&& asn1ClassStructured ≠ 0 then
      anodeDecodeStructured (anodeDecodeAnythingForFlags fuel) fuel node tlv flags
    else anodeDecodePrimitive (anodeDecodeAnythingForFlags fuel) node tlv

/-- `anode_clear`. -/
def Anode.clear (an : Anode) : Anode := { an with tlv := none, enc := none }

mutual

/-- `egg_asn1x_clear`: of a `SEQUENCE OF` or `SET OF` only the template stays. -/
def eggAsn1xClear : Node → Node
  | .mk an children =>
    let cleared := eggAsn1xClearList children
    let kind := (Node.mk an children).kind
    .mk an.clear (if kind = .setOf ∨ kind = .sequenceOf then cleared.take 1 else cleared)

/-- Clear each child. -/
def eggAsn1xClearList : List Node → List Node
  | [] => []
  | child :: rest => eggAsn1xClear child :: eggAsn1xClearList rest

end

end MateKeyring.Asn1x
