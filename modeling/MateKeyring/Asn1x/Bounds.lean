import MateKeyring.Asn1x.Values
import MateKeyring.Asn1x.Choice
import MateKeyring.Lib.Agree

/-!
# The elements that are decoded lie in the input

`anode_decode_tlv_for_data` and `anode_decode_tlv_for_contents` find an `Atlv` at a place of the input, the
decoders pass it on, give it another length or size, and store it in a node. `tlv_bounds` follows one from the
place to the node: it ends in the input, the children of a structure are in order in its contents, and no
assertion about these places fails. The decoder with an assertion in front of each call, `checkedForFlags`, does
the same as the one of the source, so that the assertion holds for whatever is passed on. Memory may have octets
behind the input, which do not count: no octet outside of the input is looked at but the one right behind it.
-/

set_option autoImplicit false

namespace MateKeyring.Asn1x

open Lib List

/-! ## Elements inside of the input -/

/-- An element that lies in the input, which ends as many octets before the memory: the contents follow the header
and end before the element does. The length is `-1` where it is not known yet. -/
structure Bounded (behind : Nat) (data : Bytes) (tlv : Atlv) : Prop where
  inside : tlv.buf <:+ data
  size : tlv.size + behind ≤ tlv.buf.length
  off : tlv.off ≤ tlv.size
  len : -1 ≤ tlv.len
  stop : (tlv.off : Int) + tlv.len ≤ tlv.size

instance (behind : Nat) (data : Bytes) (tlv : Atlv) : Decidable (Bounded behind data tlv) :=
  decidable_of_iff (tlv.buf <:+ data ∧ tlv.size + behind ≤ tlv.buf.length ∧ tlv.off ≤ tlv.size ∧ -1 ≤ tlv.len ∧
      (tlv.off : Int) + tlv.len ≤ tlv.size)
    ⟨fun ⟨inside, size, off, len, stop⟩ => ⟨inside, size, off, len, stop⟩,
      fun ⟨inside, size, off, len, stop⟩ => ⟨inside, size, off, len, stop⟩⟩

/-- The values of the nodes are in order between two places of the input. -/
def InOrder (data : Bytes) : List Node → (lo hi : Int) → Prop
  | [], lo, hi => lo ≤ hi
  | child :: rest, lo, hi =>
    match child.tlv with
    | none => InOrder data rest lo hi
    | some tlv => lo ≤ distance data tlv.buf ∧ InOrder data rest (distance data tlv.buf + tlv.size) hi

/-- How the values of the children lie to the contents of their parent, which start at `lo` and have the length
`len`. A `CHOICE` is not an element of its own, so that what was chosen has the same contents. -/
structure Holds (data : Bytes) (node : Node) (lo len : Int) : Prop where
  inOrder : node.kind ∈ [Kind.sequence, .set, .sequenceOf, .setOf] →
    InOrder data node.children lo (lo + len)
  chosen : node.kind = .choice → ∀ child ∈ node.children, child.an.chosen = true →
    ∀ tlv, child.tlv = some tlv → (distance data tlv.buf + tlv.off : Int) = lo ∧ tlv.len = len

/-- The values of a tree lie in the input. -/
inductive Placed (behind : Nat) (data : Bytes) : Node → Prop
  | intro (node : Node)
      (own : ∀ tlv, node.tlv = some tlv → Bounded behind data tlv ∧ 0 ≤ tlv.len ∧
        Holds data node (distance data tlv.buf + tlv.off) tlv.len)
      (children : ∀ child ∈ node.children, Placed behind data child) : Placed behind data node

/-- A tree without values. -/
inductive Fresh : Node → Prop
  | intro (node : Node) (own : node.tlv = none) (children : ∀ child ∈ node.children, Fresh child) : Fresh node

/-- A long tag goes on to the end of the input. -/
def TagToEnd (data : Bytes) : Prop :=
  ∃ b rest, b :: rest <:+ data ∧ b &&& 0x1f = 0x1f ∧ rest ≠ [] ∧ ∀ x ∈ rest, x &&& 128 ≠ 0

/-- What decoding may end with besides a result: the octet behind the input is read, and is not there. -/
def Allowed (behind : Nat) (data : Bytes) : Halt → Prop
  | .running => True
  | .fault f => f = .outOfBounds ∧ behind = 0 ∧ TagToEnd data

/-! ## Decoding with checks -/

/-- One call of `anode_decode_anything_for_flags`. -/
def forFlagsOnce (forFlags : Decoder) (fuel : Nat) (node : Node) (tlv : Atlv) (flags : Flags) :
    Except Halt Outcome :=
  if tlv.off = 0 ∨ (anodeCalcTagForFlags node flags).getD tlv.tag ≠ tlv.tag then
    .ok (anodeDecodeOptionOrDefault node tlv flags)
  else if tlv.cls &&& asn1ClassStructured ≠ 0 then anodeDecodeStructured forFlags fuel node tlv flags
  else anodeDecodePrimitive forFlags node tlv

/-- `anode_decode_anything_for_flags` with an assertion in front: the element lies in the input. -/
def checkedForFlags (behind : Nat) (data : Bytes) : Nat → Decoder
  | 0, _, _, _ => .error .running
  | fuel + 1, node, tlv, flags =>
    if Bounded behind data tlv then forFlagsOnce (checkedForFlags behind data fuel) fuel node tlv flags
    else .error (.fault .assertion)

/-- `egg_asn1x_decode` up to the validation, through some decoder. The first `n` octets are the input. -/
def decodeTree (forFlags : Decoder) (asn : Node) (data : Bytes) (n : Nat) : Except Halt Outcome := do
  match ← step (anodeDecodeTlvForData data n) with
  | none => pure (false, eggAsn1xClear asn, endTlv data)
  | some tlv => anodeDecodeAnything forFlags (eggAsn1xClear asn) tlv

/-! ## Headers -/

variable {data buf place : Bytes} {n room behind : Nat} {tlv tlv' outer : Atlv} {node : Node} {lo hi len : Int}
variable {allowed : Fault → Prop} {f g : Decoder}

theorem tagGroups_goesOn {octets : Bytes} (h : ¬ (tagGroups octets).2 = true) :
    ∀ x ∈ octets, x &&& 128 ≠ 0 := by
  induction octets with
  | nil => exact fun x hx => absurd hx not_mem_nil
  | cons b octets ih =>
    rw [tagGroups] at h
    split at h
    · rename_i hgoes
      exact forall_mem_cons.2 ⟨hgoes, ih h⟩
    · exact absurd rfl h

/-- A tag is read in the input, unless it goes on to the end. -/
theorem decodeClsTag_ensures (hsmall : data.length < 2 ^ 31 + behind) (hbuf : buf <:+ data) (hn : n + behind ≤ buf.length) :
    Ensures (fun f => Allowed behind data (.fault f)) (fun _ => True) (anodeDecodeClsTag buf n) := by
  have hle := hbuf.length_le
  have hword : gint n = n := gint_of_lt (by omega)
  by_cases hfew : gint n < 2
  · rw [anodeDecodeClsTag, if_pos hfew]
    exact .ok trivial
  · cases buf with
    | nil =>
      rw [length_nil] at hn
      omega
    | cons b rest =>
      rw [length_cons] at hn
      obtain ⟨k, rfl⟩ : ∃ k, n = k + 1 := ⟨n - 1, by omega⟩
      rw [decodeClsTag_eq b rest hword (by omega)]
      split
      · exact .ok trivial
      · rename_i hlong
        split
        · exact .ok trivial
        · split
          · exact .ok trivial
          · rename_i hgoes
            split
            · rename_i hend
              rw [take_of_length_le hend] at hgoes
              have hne : rest ≠ [] := ne_nil_of_length_pos (by omega)
              exact .error ⟨rfl, by omega, b, rest, hbuf, not_not.1 hlong, hne, tagGroups_goesOn hgoes⟩
            · exact .ok trivial

/-- A length is always read in the input. -/
theorem decodeLength_ensures (hsmall : n < 2 ^ 31) (hn : n ≤ buf.length) :
    Ensures allowed (fun _ => True) (anodeDecodeLength buf n) := by
  have hword : gint n = n := gint_of_lt (by omega)
  by_cases hzero : gint n = 0
  · rw [anodeDecodeLength, if_pos hzero]
    exact .ok trivial
  · cases buf with
    | nil =>
      rw [length_nil] at hn
      omega
    | cons b rest =>
      rw [length_cons] at hn
      rw [decodeLength_eq b rest hzero (by omega)]
      split
      · exact .ok trivial
      · split
        · exact .ok trivial
        · dsimp only
          split <;> exact .ok trivial

/-- The header ends in the bytes that count, and so do the contents. -/
theorem decodeClsTagLen_inside {h : Header} (hrun : anodeDecodeClsTagLen buf n = .ok (some h)) :
    h.off ≤ n ∧ -1 ≤ h.len ∧ (h.off : Int) + h.len ≤ n := by
  have hoff := decodeClsTagLen_le hrun
  have hword := gint_le n
  have hstop := end_le_of_header hrun
  have hlen : -1 ≤ h.len := by
    rw [anodeDecodeClsTagLen] at hrun
    obtain ⟨found, -, hrun⟩ := bind_eq_ok.1 hrun
    cases found with
    | none => cases hrun
    | some found =>
      obtain ⟨-, -, hrun⟩ := bind_eq_ok.1 hrun
      obtain ⟨len, -, hrun⟩ := bind_eq_ok.1 hrun
      split at hrun
      · cases hrun
      · rename_i hlen
        split at hrun
        · cases hrun
        · rw [← Option.some.inj (Except.ok.inj hrun)]
          exact Int.not_lt.1 hlen
  omega

/-- A header is read in the input, unless its tag goes on to the end. -/
theorem decodeClsTagLen_ensures (hsmall : data.length < 2 ^ 31 + behind) (hbuf : buf <:+ data) (hn : n + behind ≤ buf.length) :
    Ensures (fun f => Allowed behind data (.fault f)) (fun _ => True) (anodeDecodeClsTagLen buf n) := by
  have hle := hbuf.length_le
  have hword := gint_le n
  rw [anodeDecodeClsTagLen]
  refine ((decodeClsTag_ensures hsmall hbuf hn).and fun found hrun cls tag cb (hfound : found = some (cls, tag, cb)) =>
    decodeClsTag_le (hfound ▸ hrun)).bind fun found hfound => ?_
  cases found with
  | none => exact .ok trivial
  | some found =>
    obtain ⟨cls, tag, cb⟩ := found
    have hcb := hfound.2 cls tag cb rfl
    have hdrop := length_drop (i := cb) (l := buf)
    dsimp only
    rw [cAssert_of_true (by omega), ok_bind]
    refine (decodeLength_ensures (by omega) (by omega)).bind fun len _ => ?_
    split
    · exact .ok trivial
    · split <;> exact .ok trivial

/-! ## Elements -/

/-- An element at `place` with at most `room` bytes. -/
structure Found (behind : Nat) (data place : Bytes) (room : Nat) (tlv : Atlv) : Prop where
  bounded : Bounded behind data tlv
  buf : tlv.buf = place
  size : tlv.size ≤ room

/-- Where there is no element. -/
theorem found_empty (hplace : place <:+ data) (hend : behind ≤ place.length)
    (hbuf : tlv.buf = place) (hsize : tlv.size = 0) (hoff : tlv.off = 0) (hlen : tlv.len = 0) :
    Found behind data place room tlv :=
  ⟨⟨hbuf ▸ hplace, by rw [hbuf]; omega, by omega, by omega, by omega⟩, hbuf, by omega⟩

/-- What `anode_decode_tlv_for_data` finds, whatever its reads may fault with. -/
theorem dataTlv_ensures (hbuf : buf <:+ data) (hn : n + behind ≤ buf.length)
    (hread : Ensures allowed (fun _ => True) (anodeDecodeClsTagLen buf n)) :
    Ensures allowed (fun found => ∀ tlv, found = some tlv → Found behind data buf n tlv)
      (anodeDecodeTlvForData buf n) := by
  rw [anodeDecodeTlvForData_eq]
  refine (hread.and fun found hrun h (hfound : found = some h) =>
    decodeClsTagLen_inside (hfound ▸ hrun)).bind fun found hfound => ?_
  cases found with
  | none => exact .ok nofun
  | some h =>
    obtain ⟨hoff, hlen, hstop⟩ := hfound.2 h rfl
    refine .ok fun tlv htlv => ?_
    rw [← Option.some.inj htlv]
    split
    · exact ⟨⟨hbuf, hn, hoff, hlen, hstop⟩, rfl, Nat.le_refl n⟩
    · refine ⟨⟨hbuf, ?_, ?_, hlen, ?_⟩, rfl, ?_⟩ <;> dsimp only <;> omega

theorem distance_trans (hplace : place <:+ buf) (hbuf : buf <:+ data) :
    distance data place = distance data buf + distance buf place := by
  have h := hplace.length_le
  have h' := hbuf.length_le
  rw [distance, distance, distance]
  omega

theorem distance_drop {s : Nat} (hplace : place <:+ buf) (hs : s ≤ place.length) :
    distance buf (place.drop s) = distance buf place + s := by
  have h := hplace.length_le
  rw [distance, distance, length_drop]
  omega

theorem of_none {α : Type} {P : α → Prop} (a : α) (h : none = some a) : P a := by
  cases h

/-- What `anode_decode_tlv_for_contents` finds. -/
theorem contentsTlv_ensures (h : Bounded behind data outer) (hplace : place <:+ outer.buf)
    (hread : ∀ n, n + behind ≤ place.length → Ensures allowed (fun _ => True) (anodeDecodeClsTagLen place n)) :
    Ensures allowed
      (fun found => ∀ tlv, found = some tlv → Found behind data place (outer.size - distance outer.buf place) tlv)
      (anodeDecodeTlvForContents outer place) := by
  have hinside := hplace.trans h.inside
  have hroom : distance outer.buf place ≤ outer.size →
      outer.size - distance outer.buf place + behind ≤ place.length := by
    have hle := hplace.length_le
    have hsize := h.size
    rw [distance]
    omega
  rw [anodeDecodeTlvForContents]
  split
  · rename_i hend
    have hroom := hroom hend.le
    refine .ok fun tlv htlv => ?_
    rw [← Option.some.inj htlv]
    exact found_empty hinside (by omega) rfl rfl rfl rfl
  · split
    · exact .ok of_none
    · rename_i hin
      have hroom := hroom (Nat.not_lt.1 hin)
      refine (dataTlv_ensures hinside hroom (hread _ hroom)).bind fun found hfound => ?_
      cases found with
      | none => exact .ok of_none
      | some inner =>
        dsimp only
        split
        · rename_i hend
          rw [anodeCheckIndefiniteEnd, Bool.and_eq_true, beq_iff_eq] at hend
          refine .ok fun tlv htlv => ?_
          rw [← Option.some.inj htlv]
          exact found_empty hinside (by omega) rfl rfl rfl hend.2
        · exact .ok hfound

theorem ensures_step {α : Type} {P : α → Prop} {x : Checked α}
    (h : Ensures (fun f => Allowed behind data (.fault f)) P x) : Ensures (Allowed behind data) P (step x) := by
  cases h with
  | ok h => exact .ok h
  | error h => exact .error h

theorem contentsTlv_step (hsmall : data.length < 2 ^ 31 + behind) (h : Bounded behind data outer)
    (hplace : place <:+ outer.buf) :
    Ensures (Allowed behind data)
      (fun found => ∀ tlv, found = some tlv → Found behind data place (outer.size - distance outer.buf place) tlv)
      (step (anodeDecodeTlvForContents outer place)) :=
  ensures_step (contentsTlv_ensures h hplace fun _ hn =>
    decodeClsTagLen_ensures hsmall (hplace.trans h.inside) hn)

/-- The end of indefinite contents is searched for in the input. -/
theorem decodeIndefiniteLen_ensures (hsmall : data.length < 2 ^ 31 + behind) (fuel : Nat) (buf : Bytes)
    (n result : Nat) (hbuf : buf <:+ data) (hn : n + behind ≤ buf.length) :
    Ensures (Allowed behind data) (fun found => ∀ len, found = some len → len ≤ n)
      (anodeDecodeIndefiniteLen fuel buf n result) := by
  have hle := hbuf.length_le
  have hword : gint n = n := gint_of_lt (by omega)
  have hrest : ∀ r ≤ n, n - r + behind ≤ (buf.drop r).length := fun r hr => by
    rw [length_drop]
    omega
  induction fuel generalizing buf n result with
  | zero => exact .error trivial
  | succ fuel ih =>
    rw [anodeDecodeIndefiniteLen]
    split
    · rename_i hbefore
      refine (ensures_step (decodeClsTagLen_ensures hsmall ((drop_suffix _ _).trans hbuf)
        (hrest result (by omega)))).bind fun found _ => ?_
      cases found with
      | none => exact .ok of_none
      | some h =>
        dsimp only
        split
        · refine .ok fun len hlen => ?_
          rw [← Option.some.inj hlen]
          omega
        · split
          · exact .ok of_none
          · split
            · have hsuffix := (drop_suffix (result + h.off) buf).trans hbuf
              have hnested := hrest (result + h.off) (by omega)
              refine (ih _ _ _ hsuffix hnested hsuffix.length_le (gint_of_lt (by omega)) ?_).bind
                fun found _ => ?_
              · intro r hr
                rw [length_drop]
                omega
              · cases found with
                | none => exact .ok of_none
                | some len =>
                  dsimp only
                  split
                  · exact .ok of_none
                  · exact ih _ _ _ hbuf hn hle hword hrest
            · split
              · exact .ok of_none
              · exact ih _ _ _ hbuf hn hle hword hrest
    · split
      · exact .ok of_none
      · refine .ok fun len hlen => ?_
        rw [← Option.some.inj hlen]
        omega

/-! ## Nodes -/

theorem tlv_setChosen (chosen : Bool) (node : Node) : (node.setChosen chosen).tlv = node.tlv := by
  cases node
  rfl

theorem Holds.setChosen (h : Holds data node lo len) (chosen : Bool) :
    Holds data (node.setChosen chosen) lo len := by
  cases node
  exact ⟨h.inOrder, h.chosen⟩

theorem Placed.setChosen (h : Placed behind data node) (chosen : Bool) :
    Placed behind data (node.setChosen chosen) := by
  cases h with
  | intro _ own children =>
    refine .intro _ (fun tlv htlv => ?_) ?_
    · rw [tlv_setChosen] at htlv
      exact ⟨(own tlv htlv).1, (own tlv htlv).2.1, (own tlv htlv).2.2.setChosen chosen⟩
    · cases node
      exact children

theorem Holds.clrTlv (h : Holds data node lo len) : Holds data node.clrTlv lo len := by
  cases node
  exact ⟨h.inOrder, h.chosen⟩

theorem of_unset (hown : node.tlv = none) {P : Atlv → Prop} : ∀ t, node.tlv = some t → P t :=
  fun _ htlv => nomatch hown.symm.trans htlv

/-- A node without a value. -/
theorem placed_of_children (hown : node.tlv = none) (h : ∀ child ∈ node.children, Placed behind data child) :
    Placed behind data node :=
  .intro node (of_unset hown) h

theorem Placed.clrTlv (h : Placed behind data node) : Placed behind data node.clrTlv := by
  refine placed_of_children (tlv_clrTlv node) ?_
  cases h with
  | intro _ _ children =>
    cases node
    exact children

theorem Fresh.own (h : Fresh node) : node.tlv = none := by
  cases h with
  | intro _ own _ => exact own

theorem Fresh.children (h : Fresh node) : ∀ child ∈ node.children, Fresh child := by
  cases h with
  | intro _ _ children => exact children

theorem Fresh.placed (h : Fresh node) : Placed behind data node := by
  induction h with
  | intro node own _ ih => exact placed_of_children own ih

variable {children : List Node}

theorem InOrder.mono {lo' : Int} (h : InOrder data children lo hi) (hlo : lo' ≤ lo) :
    InOrder data children lo' hi := by
  induction children with
  | nil => exact Int.le_trans hlo h
  | cons child rest ih =>
    rw [InOrder] at h ⊢
    cases htlv : child.tlv with
    | none =>
      rw [htlv] at h
      exact ih h
    | some tlv =>
      rw [htlv] at h
      exact ⟨Int.le_trans hlo h.1, h.2⟩

theorem inOrder_of_fresh (h : ∀ child ∈ children, Fresh child)
    (hle : lo ≤ hi) : InOrder data children lo hi := by
  induction children with
  | nil => exact hle
  | cons child rest ih =>
    rw [InOrder, (h child mem_cons_self).own]
    exact ih (forall_mem_cons.1 h).2

/-- Whatever the contents are, children without values lie in them. -/
theorem Fresh.holds (h : Fresh node) (hlen : 0 ≤ len) : Holds data node lo len where
  inOrder _ := inOrder_of_fresh h.children (by omega)
  chosen _ child hmem _ _ htlv := nomatch (h.children child hmem).own.symm.trans htlv

mutual

theorem fresh_clone : ∀ node : Node, Fresh (anodeClone node)
  | .mk an children => by
    rw [anodeClone]
    exact .intro _ rfl (fresh_cloneList children)

theorem fresh_cloneList : ∀ children : List Node, ∀ child ∈ anodeCloneList children, Fresh child
  | [] => fun _ h => absurd h not_mem_nil
  | child :: rest => forall_mem_cons.2 ⟨fresh_clone child, fresh_cloneList rest⟩

end

mutual

theorem fresh_clear : ∀ node : Node, Fresh (eggAsn1xClear node)
  | .mk an children => by
    rw [eggAsn1xClear]
    refine .intro _ rfl fun child hmem => fresh_clearList children child ?_
    dsimp only [Node.children_mk] at hmem
    split at hmem
    · exact mem_of_mem_take hmem
    · exact hmem

theorem fresh_clearList : ∀ children : List Node, ∀ child ∈ eggAsn1xClearList children, Fresh child
  | [] => fun _ h => absurd h not_mem_nil
  | child :: rest => forall_mem_cons.2 ⟨fresh_clear child, fresh_clearList rest⟩

end

/-! ## Decoders -/

/-- What decoding an element into a node leaves. -/
structure After (behind : Nat) (data : Bytes) (tlv : Atlv) (r : Outcome) : Prop where
  found : Found behind data tlv.buf tlv.size r.2.2
  placed : Placed behind data r.2.1
  own : ∀ t, r.2.1.tlv = some t → r.1 = true ∧ t = r.2.2
  len : r.1 = true → 0 ≤ r.2.2.len

/-- Without a default in place of what could not be decoded, the children are in the contents. -/
structure Decoded (behind : Nat) (data : Bytes) (tlv : Atlv) (r : Outcome) : Prop extends After behind data tlv r where
  holds : r.1 = true → Holds data r.2.1 (distance data r.2.2.buf + r.2.2.off) r.2.2.len

/-- Two decoders that do the same to a node without values. -/
def Sound (behind : Nat) (data : Bytes) (f g : Decoder) : Prop :=
  ∀ node tlv flags, Bounded behind data tlv → Fresh node →
    Agree (Allowed behind data) (Decoded behind data tlv) (f node tlv flags) (g node tlv flags)

theorem Found.refl (h : Bounded behind data tlv) : Found behind data tlv.buf tlv.size tlv :=
  ⟨h, rfl, Nat.le_refl _⟩

theorem Found.trans (h : Found behind data place room tlv)
    (h' : Found behind data tlv.buf tlv.size tlv') : Found behind data place room tlv' :=
  ⟨h'.bounded, h'.buf.trans h.buf, h'.size.trans h.size⟩

/-- A failure that leaves a node without a value. -/
theorem Decoded.failed (hfound : Found behind data tlv.buf tlv.size tlv')
    (hplaced : Placed behind data node) (hown : node.tlv = none) : Decoded behind data tlv (false, node, tlv') where
  found := hfound
  placed := hplaced
  own := of_unset hown
  len := nofun
  holds := nofun

/-- An element that is not there. -/
theorem after_absent (h : Bounded behind data tlv) (hplaced : Placed behind data node) :
    After behind data tlv (true, node.clrTlv, { tlv with len := 0, size := 0, off := 0 }) where
  found := found_empty h.inside ((Nat.le_add_left _ _).trans h.size) rfl rfl rfl rfl
  placed := hplaced.clrTlv
  own := of_unset (tlv_clrTlv node)
  len _ := Int.le_refl 0

theorem anything_agree (hsound : Sound behind data f g)
    (h : Bounded behind data tlv) (hfresh : Fresh node) :
    Agree (Allowed behind data) (After behind data tlv) (anodeDecodeAnything f node tlv) (anodeDecodeAnything g node tlv) := by
  refine (hsound node tlv node.flags h hfresh).bind fun r hr => ?_
  split
  · exact .ok hr.toAfter
  · rw [anodeDecodeOptionOrDefault]
    split
    · have habsent := after_absent hr.found.bounded hr.placed
      exact .ok ⟨hr.found.trans habsent.found, habsent.placed, habsent.own, habsent.len⟩
    · rename_i hfailed _
      refine .ok ⟨hr.found, hr.placed, fun t htlv => ?_, nofun⟩
      exact absurd (hr.own t htlv).1 hfailed

/-! ## Choices -/

/-- What decoding a choice leaves. -/
structure Chosen (behind : Nat) (data : Bytes) (tlv : Atlv) (r : Bool × List Node × Atlv) : Prop where
  found : Found behind data tlv.buf tlv.size r.2.2
  placed : ∀ child ∈ r.2.1, Placed behind data child
  len : r.1 = true → 0 ≤ r.2.2.len
  chosen : ∀ child ∈ r.2.1, child.an.chosen = true → ∀ t, child.tlv = some t → t = r.2.2

theorem choice_agree (hsound : Sound behind data f g)
    (h : Bounded behind data tlv) (hfresh : ∀ child ∈ children, Fresh child) :
    Agree (Allowed behind data) (Chosen behind data tlv) (anodeDecodeChoice f false children tlv)
      (anodeDecodeChoice g false children tlv) := by
  induction children generalizing tlv with
  | nil =>
    exact .ok ⟨.refl h, fun _ hmem => absurd hmem not_mem_nil, nofun,
      fun _ hmem => absurd hmem not_mem_nil⟩
  | cons child rest ih =>
    obtain ⟨hchild, hrest⟩ := forall_mem_cons.1 hfresh
    rw [anodeDecodeChoice, anodeDecodeChoice]
    refine (anything_agree hsound h hchild).bind fun c hc => ?_
    cases htaken : c.1 with
    | true =>
      rw [decodeChoice_found, decodeChoice_found]
      refine .ok ⟨hc.found, forall_mem_cons.2 ⟨hc.placed.setChosen true, ?_⟩, fun _ => hc.len htaken,
        forall_mem_cons.2 ⟨fun _ t htlv => ?_, ?_⟩⟩
      · intro other hmem
        obtain ⟨node, hnode, rfl⟩ := mem_map.1 hmem
        exact (hrest node hnode).placed.setChosen false
      · rw [tlv_setChosen] at htlv
        exact (hc.own t htlv).2
      · intro other hmem hchosen
        obtain ⟨node, -, rfl⟩ := mem_map.1 hmem
        rw [chosen_setChosen] at hchosen
        cases hchosen
    | false =>
      refine (ih hc.found.bounded hrest).bind fun r hr => .ok ⟨hc.found.trans hr.found,
        forall_mem_cons.2 ⟨hc.placed.setChosen false, hr.placed⟩, hr.len,
        forall_mem_cons.2 ⟨fun hchosen => ?_, hr.chosen⟩⟩
      rw [chosen_setChosen] at hchosen
      cases hchosen

/-! ## Loops over the contents -/

/-- A loop over the contents of `outer` that goes on from `place`. -/
structure Reached (behind : Nat) (data : Bytes) (outer : Atlv) (place : Bytes) : Prop where
  bounded : Bounded behind data outer
  inside : place <:+ outer.buf
  len : 0 ≤ outer.len
  place : (distance outer.buf place : Int) = outer.off + outer.len

theorem Bounded.reached (h : Bounded behind data tlv) :
    Reached behind data { tlv with len := 0 } (tlv.buf.drop tlv.off) where
  bounded := ⟨h.inside, h.size, h.off, (by decide : (-1 : Int) ≤ 0), by simpa using h.off⟩
  inside := drop_suffix _ _
  len := Int.le_refl 0
  place := by
    rw [distance_drop (suffix_refl _) (h.off.trans (Nat.le_of_add_right_le h.size)), distance, Nat.sub_self, Nat.zero_add,
      Int.add_zero]

theorem distance_stop (h : Found behind data place room tlv)
    (hinside : place <:+ buf) : distance buf tlv.stop = distance buf place + tlv.size := by
  have hsize := h.bounded.size
  rw [h.buf] at hsize
  rw [Atlv.stop, h.buf, distance_drop hinside (Nat.le_of_add_right_le hsize)]

/-- What a loop over the children of a structure leaves. -/
structure Looped (behind : Nat) (data : Bytes) (outer : Atlv) (place : Bytes) (r : Bool × List Node × Atlv) :
    Prop where
  found : Found behind data outer.buf outer.size r.2.2
  off : r.2.2.off = outer.off
  placed : ∀ child ∈ r.2.1, Placed behind data child
  filled : r.1 = true → 0 ≤ r.2.2.len ∧
    InOrder data r.2.1 (distance data place) (distance data outer.buf + outer.off + r.2.2.len)

theorem Reached.failed (h : Reached behind data outer place)
    (hplaced : ∀ child ∈ children, Placed behind data child) : Looped behind data outer place (false, children, outer) :=
  ⟨.refl h.bounded, rfl, hplaced, nofun⟩

theorem Reached.ended (h : Reached behind data outer place) :
    Looped behind data outer place (true, [], outer) := by
  refine ⟨.refl h.bounded, rfl, fun _ hmem => absurd hmem not_mem_nil, fun _ => ⟨h.len, ?_⟩⟩
  have hplace := h.place
  rw [InOrder, distance_trans h.inside h.bounded.inside]
  dsimp only
  omega

variable {r : Bool × List Node × Atlv}

/-- A child in front of the others. -/
theorem Looped.cons {c : Outcome}
    (hinside : place <:+ data) (hfound : Found behind data place room tlv)
    (hc : After behind data tlv c) (hr : Looped behind data { outer with len := len } c.2.2.stop r) :
    Looped behind data outer place (r.1, c.2.1 :: r.2.1, r.2.2) := by
  have hat := hfound.trans hc.found
  refine ⟨hr.found, hr.off, forall_mem_cons.2 ⟨hc.placed, hr.placed⟩, fun hdone => ?_⟩
  obtain ⟨hlen, horder⟩ := hr.filled hdone
  rw [distance_stop hat hinside] at horder
  refine ⟨hlen, ?_⟩
  rw [InOrder]
  cases htlv : c.2.1.tlv with
  | none => exact horder.mono (by omega)
  | some t =>
    obtain rfl := (hc.own t htlv).2
    dsimp only
    rw [hat.buf]
    exact ⟨Int.le_refl _, by simpa using horder⟩

/-! ## The decoders of nodes -/

/-- The contents of a node, before its value is set. -/
def Opened (behind : Nat) (data : Bytes) (tlv : Atlv) (r : Outcome) : Prop :=
  Decoded behind data tlv r ∧ r.2.1.tlv = none

/-- The node is left as it is. -/
theorem opened_failed (hfresh : Fresh node)
    (hfound : Found behind data tlv.buf tlv.size tlv') : Opened behind data tlv (false, node, tlv') :=
  ⟨.failed hfound hfresh.placed hfresh.own, hfresh.own⟩

theorem sequence_opened (hown : node.tlv = none)
    (hkind : node.kind ∈ [Kind.sequence, .set, .sequenceOf, .setOf]) {tlv outer : Atlv}
    (hr : Looped behind data outer place r) (hbuf : outer.buf = tlv.buf)
    (hsize : outer.size = tlv.size) (hplace : (distance data place : Int) = distance data outer.buf + outer.off) :
    Opened behind data tlv (r.1, node.withChildren r.2.1, r.2.2) := by
  refine ⟨⟨⟨?_, placed_of_children hown hr.placed, of_unset hown,
    fun hdone => (hr.filled hdone).1⟩, fun hdone => ⟨fun _ => ?_, fun hchoice => ?_⟩⟩, hown⟩
  · exact hsize ▸ hbuf ▸ hr.found
  · have horder := (hr.filled hdone).2
    rw [hplace] at horder
    dsimp only
    rw [hr.found.buf, hr.off]
    exact horder
  · rw [show node.kind = .choice from hchoice] at hkind
    exact absurd hkind (by decide)

theorem choice_opened (hown : node.tlv = none) (hkind : node.kind = .choice)
    (hr : Chosen behind data tlv r) :
    Opened behind data tlv (r.1, node.withChildren r.2.1, r.2.2) := by
  refine ⟨⟨⟨hr.found, placed_of_children hown hr.placed, of_unset hown, hr.len⟩,
    fun _ => ⟨fun hseq => ?_, fun _ child hmem hchosen t htlv => ?_⟩⟩, hown⟩
  · rw [show (node.withChildren r.2.1).kind = .choice from hkind] at hseq
    exact absurd hseq (by decide)
  · rw [hr.chosen child hmem hchosen t htlv]
    exact ⟨rfl, rfl⟩

/-- An explicit tag around what was decoded. -/
theorem around_found {ctlv inner : Atlv} (h : Bounded behind data tlv)
    (hctlv : Found behind data (tlv.buf.drop tlv.off) (tlv.size - tlv.off) ctlv)
    (hinner : Found behind data ctlv.buf ctlv.size inner) : Found behind data tlv.buf tlv.size (tlv.around inner) := by
  have hsize := hinner.size
  have hroom := hctlv.size
  have hoff := h.off
  have hin := hinner.bounded.off
  have hstop := hinner.bounded.stop
  refine ⟨⟨h.inside, h.size, ?_, hinner.bounded.len, ?_⟩, rfl, Nat.le_refl _⟩ <;> rw [Atlv.around] <;>
    dsimp only <;> omega

/-- The value of a node is set. -/
theorem finish_decoded (hfound : Found behind data tlv.buf tlv.size tlv')
    (hlen : 0 ≤ tlv'.len) (hplaced : Placed behind data node) (hown : node.tlv = none)
    (hholds : Holds data node (distance data tlv'.buf + tlv'.off) tlv'.len) :
    Ensures (Allowed behind data) (Decoded behind data tlv) (finish node tlv') := by
  have hset : Holds data (.mk { node.an with tlv := some tlv' } node.children)
      (distance data tlv'.buf + tlv'.off) tlv'.len := ⟨hholds.inOrder, hholds.chosen⟩
  have hchildren : ∀ child ∈ node.children, Placed behind data child := by
    cases hplaced with
    | intro _ _ children => exact children
  rw [finish, Node.setTlvData, if_pos ⟨hown, hlen⟩, step_ok, ok_bind]
  refine .ok ⟨⟨hfound, .intro _ (fun t htlv => ?_) hchildren, fun t htlv => ?_, fun _ => hlen⟩, fun _ => hset⟩
  · obtain rfl := Option.some.inj htlv
    exact ⟨hfound.bounded, hlen, hset⟩
  · exact ⟨rfl, (Option.some.inj htlv).symm⟩

theorem primitive_agree (hsound : Sound behind data f g) (hfresh : Fresh node)
    (h : Bounded behind data tlv) :
    Agree (Allowed behind data) (Decoded behind data tlv) (anodeDecodePrimitive f node tlv) (anodeDecodePrimitive g node tlv) := by
  have hfailed := (opened_failed hfresh (.refl h)).1
  rw [anodeDecodePrimitive, anodeDecodePrimitive]
  split
  · exact .ok hfailed
  · rename_i hlen
    have hlen := Int.not_lt.1 hlen
    split
    case h_11 hkind =>
      refine (choice_agree hsound h hfresh.children).bind fun r hr => ?_
      have hopened := choice_opened hfresh.own hkind hr
      split
      · rename_i hdone
        exact (finish_decoded hr.found (hr.len hdone) hopened.1.placed hopened.2 (hopened.1.holds hdone)).agree
      · rename_i hnot
        rw [Bool.not_eq_true] at hnot
        rw [hnot] at hopened
        exact .ok hopened.1
    case h_12 => exact .ok hfailed
    all_goals exact (finish_decoded (.refl h) hlen hfresh.placed hfresh.own (hfresh.holds hlen)).agree

/-! ## One call -/

section Calls

variable (hsmall : data.length < 2 ^ 31 + behind)

include hsmall

/-- The loop goes on behind the element that was found. -/
theorem Reached.next 
    (h : Reached behind data outer place) (hfound : Found behind data place (outer.size - distance outer.buf place) tlv) :
    Reached behind data { outer with len := contentLen outer tlv } tlv.stop := by
  have hplace := h.place
  have hlen := h.len
  have hstop := h.bounded.stop
  have hsize := h.bounded.size
  have hlength := h.bounded.inside.length_le
  have hroom := hfound.size
  have hnext := distance_stop hfound h.inside
  obtain ⟨m, hm⟩ : ∃ m : Nat, ((distance outer.buf place + tlv.size : Nat) - outer.off : Int) = (m : Nat) :=
    ⟨distance outer.buf place + tlv.size - outer.off, by omega⟩
  have hcontent : contentLen outer tlv = m := by
    rw [contentLen, hfound.buf, hm, gint_of_lt (by omega)]
  rw [hcontent]
  refine ⟨⟨h.bounded.inside, hsize, h.bounded.off, ?_, ?_⟩, ?_, ?_, ?_⟩
  · dsimp only
    omega
  · dsimp only
    omega
  · rw [Atlv.stop, hfound.buf]
    exact (drop_suffix _ _).trans h.inside
  · exact Int.natCast_nonneg m
  · dsimp only
    omega

/-- The loop over the chunks of a string. -/
theorem structString_ensures (fuel : Nat) (h : Reached behind data outer place) :
    Ensures (Allowed behind data) (fun r => r.1 = false ∧ Found behind data outer.buf outer.size r.2)
      (anodeDecodeStructString fuel outer place) := by
  induction fuel generalizing outer place with
  | zero => exact .error trivial
  | succ fuel ih =>
    rw [anodeDecodeStructString]
    refine (contentsTlv_step hsmall h.bounded h.inside).bind fun found hfound => ?_
    cases found with
    | none => exact .ok ⟨rfl, .refl h.bounded⟩
    | some tlv =>
      dsimp only
      split
      · exact .ok ⟨rfl, .refl h.bounded⟩
      · exact ih (h.next hsmall (hfound tlv rfl))

/-- The value of a structured node is set where it fills the element up. -/
theorem filled_decoded (definite : Bool) (h : Bounded behind data tlv)
    {r : Outcome} (hr : Opened behind data tlv r) (hdone : r.1 = true) :
    Ensures (Allowed behind data) (Decoded behind data tlv) (anodeDecodeFilled definite tlv.size r.2.1 r.2.2) := by
  have hlen := hr.1.len hdone
  have hfound := hr.1.found
  have hstop := hfound.bounded.stop
  have hoff := hfound.bounded.off
  have hroom := hfound.size
  have hsize := h.size
  have hbuf := hfound.buf
  have hresized : ∀ size, r.2.2.off + r.2.2.len.toNat ≤ size → size ≤ tlv.size →
      Ensures (Allowed behind data) (Decoded behind data tlv) (finish r.2.1 { r.2.2 with size := size }) := by
    intro size hlast hle
    refine finish_decoded ⟨⟨hfound.bounded.inside, ?_, ?_, hfound.bounded.len, ?_⟩, hbuf, hle⟩ hlen hr.1.placed hr.2
      (hr.1.holds hdone)
    · dsimp only
      rw [hbuf]
      omega
    · dsimp only
      omega
    · dsimp only
      omega
  have hfailed : Ensures (Allowed behind data) (Decoded behind data tlv) (Except.ok (false, r.2.1, r.2.2)) :=
    .ok (.failed hfound hr.1.placed hr.2)
  rw [anodeDecodeFilled, if_neg (Int.not_lt.2 hlen)]
  dsimp only
  split
  · split
    · exact hresized tlv.size (by omega) (Nat.le_refl _)
    · exact hfailed
  · have hlast : r.2.2.off + r.2.2.len.toNat ≤ tlv.size := by omega
    rw [cAssert_of_true hlast, step_ok, ok_bind]
    have hrest : tlv.size - (r.2.2.off + r.2.2.len.toNat) + behind ≤
        (r.2.2.buf.drop (r.2.2.off + r.2.2.len.toNat)).length := by
      rw [length_drop, hbuf]
      omega
    have hread := decodeClsTagLen_ensures hsmall ((drop_suffix _ _).trans hfound.bounded.inside) hrest
    refine (ensures_step (hread.and fun found hrun header (hheader : found = some header) =>
      decodeClsTagLen_inside (hheader ▸ hrun))).bind fun found hheader => ?_
    cases found with
    | none => exact hfailed
    | some header =>
      have hin := (hheader.2 header rfl).1
      dsimp only
      split
      · exact hresized _ (by omega) (by omega)
      · exact hfailed

theorem structAny_opened (fuel : Nat) (hfresh : Fresh node) (h : Bounded behind data tlv) :
    Ensures (Allowed behind data) (fun r => Opened behind data tlv (r.1, node, r.2)) (anodeDecodeStructAny fuel tlv) := by
  have hset : ∀ tlv', Found behind data tlv.buf tlv.size tlv' → 0 ≤ tlv'.len → Opened behind data tlv (true, node, tlv') :=
    fun tlv' hfound hlen => ⟨⟨⟨hfound, hfresh.placed, of_unset hfresh.own,
      fun _ => hlen⟩, fun _ => hfresh.holds hlen⟩, hfresh.own⟩
  rw [anodeDecodeStructAny]
  split
  · have hsize := h.size
    have hoff := h.off
    rw [cAssert_of_true hoff]
    refine (decodeIndefiniteLen_ensures hsmall fuel (tlv.buf.drop tlv.off) (tlv.size - tlv.off) 0
      ((drop_suffix _ _).trans h.inside) ?_).bind fun found hfound => ?_
    · rw [length_drop]
      omega
    · cases found with
      | none => exact .ok (opened_failed hfresh (.refl h))
      | some len =>
        have hlen := hfound len rfl
        refine .ok (hset _ ⟨⟨h.inside, ?_, ?_, ?_, ?_⟩, rfl, ?_⟩ (Int.natCast_nonneg len)) <;> dsimp only <;>
          omega
  · rename_i hlen
    exact .ok (hset tlv (.refl h) (Int.not_lt.1 hlen))

variable (hsound : Sound behind data f g)

include hsound

theorem sequence_agree 
    (h : Reached behind data outer place)
    (hfresh : ∀ child ∈ children, Fresh child) :
    Agree (Allowed behind data) (Looped behind data outer place) (anodeDecodeSequenceOrSet f children outer place)
      (anodeDecodeSequenceOrSet g children outer place) := by
  induction children generalizing outer place with
  | nil =>
    rw [anodeDecodeSequenceOrSet, anodeDecodeSequenceOrSet, cAssert_of_true h.len]
    exact .ok h.ended
  | cons child rest ih =>
    have hplaced : ∀ c ∈ child :: rest, Placed behind data c := fun c hc => (hfresh c hc).placed
    obtain ⟨hchild, hrest⟩ := forall_mem_cons.1 hfresh
    rw [anodeDecodeSequenceOrSet, anodeDecodeSequenceOrSet]
    refine (contentsTlv_step hsmall h.bounded h.inside).agree.bind fun found hfound => ?_
    cases found with
    | none => exact .ok (h.failed hplaced)
    | some tlv =>
      have htlv := hfound tlv rfl
      refine (anything_agree hsound htlv.bounded hchild).bind fun c hc => ?_
      split
      · refine (ih (h.next hsmall (htlv.trans hc.found)) hrest).bind fun r hr => .ok ?_
        exact hr.cons (h.inside.trans h.bounded.inside) htlv hc
      · exact .ok (h.failed (forall_mem_cons.2 ⟨hc.placed, (forall_mem_cons.1 hplaced).2⟩))

theorem each_agree (fuel : Nat)
    {other template : Node} (hother : Fresh other)
    (h : Reached behind data outer place) :
    Agree (Allowed behind data) (Looped behind data outer place) (anodeDecodeEach f fuel other template outer place)
      (anodeDecodeEach g fuel other template outer place) := by
  induction fuel generalizing other outer place with
  | zero => exact ⟨rfl, .error trivial⟩
  | succ fuel ih =>
    rw [anodeDecodeEach, anodeDecodeEach]
    refine (contentsTlv_step hsmall h.bounded h.inside).agree.bind fun found hfound => ?_
    cases found with
    | none => exact .ok (h.failed fun _ hmem => absurd hmem not_mem_nil)
    | some tlv =>
      have htlv := hfound tlv rfl
      dsimp only
      split
      · rw [cAssert_of_true h.len]
        exact .ok h.ended
      · refine (anything_agree hsound htlv.bounded hother).bind fun c hc => ?_
        split
        · refine (ih (fresh_clone template) (h.next hsmall (htlv.trans hc.found))).bind fun r hr => .ok ?_
          exact hr.cons (h.inside.trans h.bounded.inside) htlv hc
        · exact .ok (h.failed (forall_mem_singleton.2 hc.placed))

theorem each_opened (fuel : Nat)
    (hfresh : Fresh node) (hkind : node.kind ∈ [Kind.sequence, .set, .sequenceOf, .setOf])
    (h : Bounded behind data tlv)
    (hplace : (distance data (tlv.buf.drop tlv.off) : Int) = distance data tlv.buf + tlv.off) :
    Agree (Allowed behind data) (Opened behind data tlv) (anodeDecodeSequenceOrSetOf f fuel node tlv)
      (anodeDecodeSequenceOrSetOf g fuel node tlv) := by
  rw [anodeDecodeSequenceOrSetOf, anodeDecodeSequenceOrSetOf]
  split
  · exact .ok (opened_failed hfresh (.refl h.reached.bounded))
  · rename_i template rest hchildren
    have htemplate : Fresh template := hfresh.children template (hchildren ▸ mem_cons_self)
    refine (each_agree hsmall hsound fuel htemplate h.reached).bind fun r hr => .ok ?_
    split
    · -- nothing was decoded, so that the template stays
      rename_i hempty
      have hfilled := hr.filled
      rw [List.isEmpty_iff.1 hempty] at hfilled
      have hone : Looped behind data { tlv with len := 0 } (tlv.buf.drop tlv.off) (r.1, [template], r.2.2) :=
        ⟨hr.found, hr.off, forall_mem_singleton.2 htemplate.placed, fun hdone => ⟨(hfilled hdone).1,
          inOrder_of_fresh (forall_mem_singleton.2 htemplate) (hfilled hdone).2⟩⟩
      exact sequence_opened hfresh.own hkind hone rfl rfl hplace
    · exact sequence_opened hfresh.own hkind hr rfl rfl hplace

theorem contents_agree (fuel : Nat) (hfresh : Fresh node) (h : Bounded behind data tlv) :
    Agree (Allowed behind data) (Opened behind data tlv) (anodeDecodeContents f fuel node tlv)
      (anodeDecodeContents g fuel node tlv) := by
  have hreached := h.reached
  have hplace : (distance data (tlv.buf.drop tlv.off) : Int) = distance data tlv.buf + tlv.off := by
    have hcontents := hreached.place
    rw [distance_trans (drop_suffix _ _) h.inside]
    dsimp only at hcontents
    omega
  rw [anodeDecodeContents, anodeDecodeContents]
  split
  case h_1 => exact (structAny_opened hsmall fuel hfresh h).agree.bind fun r hr => .ok hr
  case h_2 hkind =>
    exact (choice_agree hsound h hfresh.children).bind fun r hr => .ok (choice_opened hfresh.own hkind hr)
  case h_3 | h_4 =>
    refine (structString_ensures hsmall fuel hreached).agree.bind fun r hr => .ok ?_
    rw [hr.1]
    exact opened_failed hfresh hr.2
  case h_5 hkind | h_6 hkind =>
    exact (sequence_agree hsmall hsound hreached hfresh.children).bind fun r hr =>
      .ok (sequence_opened hfresh.own (by rw [hkind]; decide) hr rfl rfl hplace)
  case h_7 hkind | h_8 hkind => exact each_opened hsmall hsound fuel hfresh (by rw [hkind]; decide) h hplace
  case h_9 => exact .ok (opened_failed hfresh (.refl h))

theorem explicit_agree 
    (hfresh : Fresh node) (h : Bounded behind data tlv) (flags : Flags) :
    Agree (Allowed behind data) (Opened behind data tlv) (anodeDecodeExplicit f node tlv flags)
      (anodeDecodeExplicit g node tlv flags) := by
  have hfailed := opened_failed hfresh (.refl h)
  have hcontents : distance tlv.buf (tlv.buf.drop tlv.off) = tlv.off := by
    have hplace := h.reached.place
    dsimp only at hplace
    omega
  rw [anodeDecodeExplicit, anodeDecodeExplicit]
  split
  · exact .ok hfailed
  · refine (contentsTlv_step hsmall h (drop_suffix _ _)).agree.bind fun found hfound => ?_
    cases found with
    | none => exact .ok hfailed
    | some ctlv =>
      have hctlv := hfound ctlv rfl
      rw [hcontents] at hctlv
      refine (hsound node ctlv { flags with tag := false } hctlv.bounded hfresh).bind fun r hr => ?_
      split
      · rename_i hdone
        refine .ok ⟨⟨⟨around_found h hctlv hr.found, hr.placed.clrTlv,
          of_unset (tlv_clrTlv _), fun _ => hr.len hdone⟩, fun _ => ?_⟩, tlv_clrTlv _⟩
        have hholds := (hr.holds hdone).clrTlv
        rw [hr.found.buf, hctlv.buf, distance_trans (drop_suffix _ _) h.inside, hcontents] at hholds
        dsimp only [Atlv.around]
        rw [Int.natCast_add, ← Int.add_assoc]
        exact_mod_cast hholds
      · rename_i hnot
        have hown : r.2.1.tlv = none := Option.eq_none_iff_forall_ne_some.2 fun t htlv => hnot (hr.own t htlv).1
        exact .ok ⟨.failed (.refl h) hr.placed hown, hown⟩

/-- One call of the decoder. -/
theorem forFlagsOnce_agree (fuel : Nat) :
    Sound behind data (forFlagsOnce f fuel) (forFlagsOnce g fuel) := by
  intro node tlv flags h hfresh
  rw [forFlagsOnce, forFlagsOnce]
  split
  · rw [anodeDecodeOptionOrDefault]
    split
    · exact .ok ⟨after_absent h hfresh.placed, fun _ => (hfresh.holds (Int.le_refl 0)).clrTlv⟩
    · exact .ok (opened_failed hfresh (.refl h)).1
  · split
    · rw [anodeDecodeStructured, anodeDecodeStructured]
      have hfill : ∀ r, Opened behind data tlv r → Agree (Allowed behind data) (Decoded behind data tlv)
          (if r.1 then anodeDecodeFilled (decide (0 ≤ tlv.len)) tlv.size r.2.1 r.2.2
            else pure (false, r.2.1, r.2.2))
          (if r.1 then anodeDecodeFilled (decide (0 ≤ tlv.len)) tlv.size r.2.1 r.2.2
            else pure (false, r.2.1, r.2.2)) := by
        intro r hr
        split
        · rename_i hdone
          exact (filled_decoded hsmall _ h hr hdone).agree
        · exact .ok (.failed hr.1.found hr.1.placed hr.2)
      split
      · exact (explicit_agree hsmall hsound hfresh h flags).bind hfill
      · exact (contents_agree hsmall hsound fuel hfresh h).bind hfill
    · exact primitive_agree hsound hfresh h

end Calls

/-- No check fails, at any depth. -/
theorem checkedForFlags_sound (hsmall : data.length < 2 ^ 31 + behind) (fuel : Nat) :
    Sound behind data (checkedForFlags behind data fuel) (anodeDecodeAnythingForFlags fuel) := by
  induction fuel with
  | zero => exact fun _ _ _ _ _ => ⟨rfl, .error trivial⟩
  | succ fuel ih =>
    intro node tlv flags h hfresh
    rw [checkedForFlags, if_pos h]
    exact forFlagsOnce_agree hsmall ih fuel node tlv flags h hfresh

/-! ## Inputs from four gigabytes on -/

/-- A `SEQUENCE` of one element of any kind. -/
def sequenceOfAny : Node := .mk { row := { kind := .sequence } } [.mk { row := { kind := .any } } []]

/-- An element of indefinite length around one of `2 ^ 31 - 1` bytes. -/
def longElement (more : Bytes) : Bytes :=
  0x30 :: 0x80 :: 0x04 :: 0x84 :: 0x7f :: 0xff :: 0xff :: 0xff :: 0x00 :: more

/-- The element, with the length that was found so far. -/
def outerTlv (more : Bytes) (len : Int) : Atlv := ⟨0x20, 16, 2, 0, len, longElement more, 2 ^ 32 + 8, false⟩

/-- The one inside. -/
def innerTlv (more : Bytes) : Atlv :=
  ⟨0, 4, 6, 0, 0x7fffffff, (longElement more).drop 2, 2 ^ 31 + 5, false⟩

theorem long_outer (more : Bytes) :
    anodeDecodeClsTagLen (longElement more) (2 ^ 32 + 8) = .ok (some ⟨0x20, 16, 2, -1⟩) := by
  have hword : gint (2 ^ 32 + 8 : Nat) = 8 := rfl
  rw [longElement, anodeDecodeClsTagLen, anodeDecodeClsTag, hword]
  simp only [anodeDecodeLength, peek, drop_succ_cons, drop_zero]
  rfl

theorem long_inner (more : Bytes) :
    anodeDecodeClsTagLen ((longElement more).drop 2) (2 ^ 32 + 6) = .ok (some ⟨0, 4, 6, 0x7fffffff⟩) := by
  have hword : gint (2 ^ 32 + 6 : Nat) = 6 := rfl
  have hrest : gint (2 ^ 32 + 6 - 1 : Nat) = 5 := rfl
  have htag : anodeDecodeClsTag ((longElement more).drop 2) (2 ^ 32 + 6) = .ok (some (0, 4, 1)) := by
    rw [anodeDecodeClsTag, hword]
    rfl
  have hlen : anodeDecodeLength (((longElement more).drop 2).drop 1) (2 ^ 32 + 6 - 1) = .ok (0x7fffffff, 5) := by
    have hloop := @longLength_eq 5 4 1 [0x7f, 0xff, 0xff, 0xff] (0x00 :: more) 0 rfl (by decide) (by decide)
    have hpeek : peek (((longElement more).drop 2).drop 1) 0 = .ok 0x84 := rfl
    rw [anodeDecodeLength, hrest, if_neg (by decide), hpeek, ok_bind, if_neg (by decide), if_neg (by decide)]
    refine Eq.trans hloop ?_
    decide
  rw [anodeDecodeClsTagLen, htag, ok_bind]
  dsimp only
  rw [cAssert_of_true (by decide), ok_bind, hlen]
  rfl

/-- From four gigabytes on the length of the contents does not fit. -/
theorem long_input_asserts (more : Bytes) (hmore : more.length = 2 ^ 32 - 1) :
    decodeTree (anodeDecodeAnythingForFlags 2) sequenceOfAny (longElement more) (longElement more).length = .error (.fault .assertion) := by
  have hlength : (longElement more).length = 2 ^ 32 + 8 := by
    simp only [longElement, length_cons, hmore]
    rfl
  have hdistance : distance (longElement more) ((longElement more).drop 2) = 2 := by
    rw [distance, length_drop, hlength]
    rfl
  have houter : anodeDecodeTlvForData (longElement more) (longElement more).length = .ok (some (outerTlv more (-1))) := by
    rw [hlength, anodeDecodeTlvForData_eq, long_outer]
    rfl
  have hinner : anodeDecodeTlvForContents (outerTlv more 0) ((longElement more).drop 2) = .ok (some (innerTlv more)) := by
    have hroom : (2 ^ 32 + 8 - 2 : Nat) = 2 ^ 32 + 6 := rfl
    rw [anodeDecodeTlvForContents, outerTlv, hdistance, anodeDecodeTlvForData_eq]
    dsimp only
    rw [hroom, long_inner]
    rfl
  have hnegative : ¬ (0 : Int) ≤ contentLen (outerTlv more 0) (innerTlv more) := by
    rw [contentLen, outerTlv, innerTlv]
    dsimp only
    rw [hdistance]
    decide
  obtain ⟨node, hany⟩ : ∃ node, anodeDecodeAnythingForFlags 1 (.mk { row := { kind := .any } } []) (innerTlv more)
      {} = .ok (true, node, innerTlv more) := by
    rw [anodeDecodeAnythingForFlags, if_neg (by rintro (h | h); exacts [(show 6 ≠ 0 by decide) h, h rfl]),
      if_neg (fun h => h (by decide : (0 : UInt8) &&& 0x20 = 0))]
    exact ⟨_, rfl⟩
  have hsequence : anodeDecodeSequenceOrSet (anodeDecodeAnythingForFlags 1) [.mk { row := { kind := .any } } []]
      (outerTlv more 0) ((longElement more).drop 2) = .error (.fault .assertion) := by
    rw [anodeDecodeSequenceOrSet, hinner, step_ok, ok_bind]
    dsimp only
    rw [anodeDecodeAnything, show (Node.mk { row := { kind := .any } } []).flags = {} from rfl, hany, ok_bind,
      if_pos rfl, pure_eq_ok, ok_bind, if_pos rfl, anodeDecodeSequenceOrSet, cAssert, if_neg hnegative]
    rfl
  have hstructured : (outerTlv more (-1)).cls &&& asn1ClassStructured ≠ 0 :=
    (by decide : (0x20 : UInt8) &&& 0x20 ≠ 0)
  rw [decodeTree, houter, step_ok, ok_bind]
  dsimp only
  rw [anodeDecodeAnything, anodeDecodeAnythingForFlags,
    if_neg (by rintro (h | h); exacts [(show 2 ≠ 0 by decide) h, h rfl]),
    if_pos hstructured, anodeDecodeStructured]
  exact congrArg (fun x => ((x >>= fun r => pure (r.1, (eggAsn1xClear sequenceOfAny).withChildren r.2.1, r.2.2)) >>=
    fun r => if r.1 then anodeDecodeFilled false (2 ^ 32 + 8) r.2.1 r.2.2 else pure (false, r.2.1, r.2.2)) >>=
    fun r => if r.1 then pure r else
      pure (anodeDecodeOptionOrDefault r.2.1 r.2.2 (eggAsn1xClear sequenceOfAny).flags)) hsequence

/-! ## The input as a whole -/

/-- The elements that decoding `data` into `asn` finds, passes on and stores lie in the input, and what it reads does,
whatever there is `more` in memory behind the input, but for the octet right behind. -/
structure TlvBounds (fuel : Nat) (asn : Node) (data more : Bytes) : Prop where
  /-- What is found at a place of the input. -/
  forData : ∀ (place : Bytes) (n : Nat) (tlv : Atlv), place <:+ data ++ more → n + more.length ≤ place.length →
    anodeDecodeTlvForData place n = .ok (some tlv) → Found more.length (data ++ more) place n tlv
  /-- What is found in the contents of an element. -/
  forContents : ∀ (outer : Atlv) (place : Bytes) (tlv : Atlv), Bounded more.length (data ++ more) outer →
    place <:+ outer.buf → anodeDecodeTlvForContents outer place = .ok (some tlv) →
      Found more.length (data ++ more) place (outer.size - distance outer.buf place) tlv
  /-- What is passed on is checked without a difference. -/
  passed : decodeTree (checkedForFlags more.length (data ++ more) fuel) asn (data ++ more) data.length =
    decodeTree (anodeDecodeAnythingForFlags fuel) asn (data ++ more) data.length
  /-- What is stored, and what else may happen. -/
  stored : Ensures (Allowed more.length (data ++ more)) (fun r => Placed more.length (data ++ more) r.2.1)
    (decodeTree (anodeDecodeAnythingForFlags fuel) asn (data ++ more) data.length)

theorem decodeTree_agree (hsound : Sound behind data f g) (hsmall : data.length < 2 ^ 31 + behind)
    (hn : n + behind ≤ data.length) (asn : Node) :
    Agree (Allowed behind data) (fun r => Placed behind data r.2.1) (decodeTree f asn data n) (decodeTree g asn data n) := by
  rw [decodeTree, decodeTree]
  have hroot := dataTlv_ensures (suffix_refl data) hn (decodeClsTagLen_ensures hsmall (suffix_refl data) hn)
  refine (ensures_step hroot).agree.bind fun found hfound => ?_
  cases found with
  | none => exact .ok (fresh_clear asn).placed
  | some tlv => exact (anything_agree hsound (hfound tlv rfl).bounded (fresh_clear asn)).mono fun r hr => hr.placed

/-- Of an input whose length is no `gint` nothing is decoded. -/
theorem decodeTree_long (hlong : 2 ^ 31 ≤ n) (hsmall : n < 2 ^ 32) (f : Decoder) (asn : Node) :
    decodeTree f asn data n = .ok (false, eggAsn1xClear asn, endTlv data) := by
  have hlow : gint n < 2 := by
    rw [gint, Int.bmod_def]
    omega
  rw [decodeTree, anodeDecodeTlvForData, anodeDecodeClsTagLen, anodeDecodeClsTag, if_pos hlow]
  rfl

/-- A `CHOICE` of `NULL`. -/
def choiceOfNull : Node := .mk { row := { kind := .choice } } [.mk { row := { kind := .null } } []]

end MateKeyring.Asn1x
