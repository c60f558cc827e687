import MateKeyring.Asn1x.Indefinite

/-!
# Choosing an alternative

`anode_decode_choice` tries its alternatives one after the other on one `Atlv`, and an alternative that fails
may have written to it. `choice_right` says when that does no harm: each alternative in front of the first one
that decodes leaves the `Atlv` as it was, or the alternatives behind it have other tags.
-/

set_option autoImplicit false

namespace MateKeyring.Asn1x

open Lib List

variable {tlv : Atlv} {child child' : Node} {children : List Node} {rest : List Node}

variable {fuel : Nat}

/-- An alternative decoded alone. -/
def decodeAlone (fuel : Nat) (child : Node) (tlv : Atlv) : Except Halt Outcome :=
  anodeDecodeAnything (anodeDecodeAnythingForFlags fuel) child tlv

/-- The alternative decodes. -/
def Decodable (fuel : Nat) (tlv : Atlv) (child : Node) : Prop :=
  ∃ child' tlv', decodeAlone fuel child tlv = .ok (true, child', tlv')

/-- The alternative is never absent, and it has a tag, which is not the one of the element. -/
structure HasOtherTag (tlv : Atlv) (child : Node) : Prop where
  tag : ∃ tag, anodeCalcTag child = some tag ∧ tag ≠ tlv.tag
  present : child.flags.option = false ∧ child.flags.default = false

/-- The alternatives up to the first that decodes fail without a trace on the element: they leave it as it
was, or they leave another element that is none for the alternatives behind them. -/
inductive Clean (fuel : Nat) (tlv : Atlv) : List Node → Prop where
  | nil : Clean fuel tlv []
  | found {child : Node} {rest : List Node} (h : Decodable fuel tlv child) : Clean fuel tlv (child :: rest)
  | kept {child child' : Node} {rest : List Node} (h : decodeAlone fuel child tlv = .ok (false, child', tlv))
      (hrest : Clean fuel tlv rest) : Clean fuel tlv (child :: rest)
  | last {child child' : Node} {rest : List Node} {tlv' : Atlv}
      (h : decodeAlone fuel child tlv = .ok (false, child', tlv'))
      (hrest : ∀ other ∈ rest, HasOtherTag tlv other ∧ HasOtherTag tlv' other) :
      Clean fuel tlv (child :: rest)

/-- `anode_decode_choice` gives the first alternative that decodes, and what it decodes to. -/
structure ChoiceRight (fuel : Nat) (children : List Node) (tlv : Atlv) : Prop where
  succeeds : (∃ children' tlv', anodeDecodeChoice (anodeDecodeAnythingForFlags fuel) false children tlv =
      .ok (true, children', tlv')) ↔ ∃ child ∈ children, Decodable fuel tlv child
  selects : ∀ children' tlv', anodeDecodeChoice (anodeDecodeAnythingForFlags fuel) false children tlv =
      .ok (true, children', tlv') → ∃ front child back child' front', children = front ++ child :: back ∧
        (∀ other ∈ front, ¬ Decodable fuel tlv other) ∧
        decodeAlone fuel child tlv = .ok (true, child', tlv') ∧
        children' = front' ++ child'.setChosen true :: back.map (Node.setChosen false) ∧
        front'.length = front.length ∧ ∀ other ∈ front', other.an.chosen = false

theorem chosen_setChosen (chosen : Bool) (node : Node) : (node.setChosen chosen).an.chosen = chosen := by
  cases node with
  | mk an children => rfl

/-- Once an alternative was chosen the others are only marked. -/
theorem decodeChoice_found (forFlags : Decoder) (children : List Node) (tlv : Atlv) :
    anodeDecodeChoice forFlags true children tlv = .ok (true, children.map (Node.setChosen false), tlv) := by
  induction children with
  | nil => rfl
  | cons child rest ih =>
    rw [anodeDecodeChoice, ih]
    rfl

theorem decodeChoice_first {child child' : Node} {rest : List Node} {tlv tlv' : Atlv}
    (h : decodeAlone fuel child tlv = .ok (true, child', tlv')) :
    anodeDecodeChoice (anodeDecodeAnythingForFlags fuel) false (child :: rest) tlv =
      .ok (true, child'.setChosen true :: rest.map (Node.setChosen false), tlv') := by
  rw [anodeDecodeChoice]
  rw [show anodeDecodeAnything (anodeDecodeAnythingForFlags fuel) child tlv = .ok (true, child', tlv') from h,
    ok_bind]
  rw [decodeChoice_found]
  rfl

theorem decodeChoice_next {child child' : Node} {rest : List Node} {tlv tlv' : Atlv}
    (h : decodeAlone fuel child tlv = .ok (false, child', tlv')) :
    anodeDecodeChoice (anodeDecodeAnythingForFlags fuel) false (child :: rest) tlv = (do
      let r ← anodeDecodeChoice (anodeDecodeAnythingForFlags fuel) false rest tlv'
      pure (r.1, child'.setChosen false :: r.2.1, r.2.2)) := by
  rw [anodeDecodeChoice]
  rw [show anodeDecodeAnything (anodeDecodeAnythingForFlags fuel) child tlv = .ok (false, child', tlv') from h,
    ok_bind]

/-- An element of another tag fails at once, and stays as it was. -/
theorem decodeAlone_other {child : Node} (h : HasOtherTag tlv child) :
    decodeAlone (fuel + 1) child tlv = .ok (false, child, tlv) := by
  obtain ⟨tag, htag, hne⟩ := h.tag
  obtain ⟨hoption, hdefault⟩ := h.present
  have hmatch : tlv.off = 0 ∨ (anodeCalcTagForFlags child child.flags).getD tlv.tag ≠ tlv.tag := by
    right
    rw [show anodeCalcTagForFlags child child.flags = some tag from htag]
    exact hne
  unfold decodeAlone anodeDecodeAnything
  rw [anodeDecodeAnythingForFlags, if_pos hmatch]
  simp [anodeDecodeOptionOrDefault, hoption, hdefault]

theorem not_decodable_other {child : Node} (h : HasOtherTag tlv child) :
    ¬ Decodable fuel tlv child := by
  rintro ⟨child', tlv', heq⟩
  cases fuel with
  | zero => simp [decodeAlone, anodeDecodeAnything, anodeDecodeAnythingForFlags] at heq
  | succ fuel =>
    rw [decodeAlone_other h] at heq
    simp at heq

/-- Alternatives with other tags are gone through in vain. -/
theorem decodeChoice_others (h : ∀ other ∈ children, HasOtherTag tlv other) :
    anodeDecodeChoice (anodeDecodeAnythingForFlags (fuel + 1)) false children tlv =
      .ok (false, children.map (Node.setChosen false), tlv) := by
  induction children with
  | nil => rfl
  | cons child rest ih =>
    rw [decodeChoice_next (decodeAlone_other (h child (mem_cons_self ..))),
      ih (forall_mem_cons.1 h).2]
    rfl

theorem not_decodable_of_false {tlv tlv' : Atlv}
    (h : decodeAlone fuel child tlv = .ok (false, child', tlv')) : ¬ Decodable fuel tlv child := by
  rintro ⟨child₁, tlv₁, heq⟩
  rw [h] at heq
  simp at heq

theorem ChoiceRight.found {child : Node} (h : Decodable fuel tlv child) :
    ChoiceRight fuel (child :: rest) tlv := by
  obtain ⟨child', tlv', hchild⟩ := h
  have hrun := @decodeChoice_first _ _ _ rest _ _ hchild
  constructor
  · constructor
    · intro _
      exact ⟨child, mem_cons_self .., child', tlv', hchild⟩
    · intro _
      exact ⟨_, _, hrun⟩
  · intro children₁ tlv₁ heq
    rw [hrun] at heq
    simp only [Except.ok.injEq, Prod.mk.injEq, true_and] at heq
    obtain ⟨rfl, rfl⟩ := heq
    exact ⟨[], child, rest, child', [], rfl, by simp, hchild, rfl, rfl, by simp⟩

theorem ChoiceRight.kept (h : decodeAlone fuel child tlv = .ok (false, child', tlv))
    (hrest : ChoiceRight fuel rest tlv) :
    ChoiceRight fuel (child :: rest) tlv := by
  have hnot := not_decodable_of_false h
  have hrun := @decodeChoice_next _ _ _ rest _ _ h
  constructor
  · constructor
    · rintro ⟨children₁, tlv₁, heq⟩
      rw [hrun] at heq
      obtain ⟨r, hr, hpure⟩ := bind_eq_ok.1 heq
      simp only [pure_eq_ok, Except.ok.injEq, Prod.mk.injEq] at hpure
      obtain ⟨other, hother, hdec⟩ := hrest.succeeds.1 ⟨r.2.1, r.2.2, by rw [hr, ← hpure.1]⟩
      exact ⟨other, mem_cons_of_mem _ hother, hdec⟩
    · rintro ⟨other, hother, hdec⟩
      rcases mem_cons.1 hother with rfl | hother
      · exact absurd hdec hnot
      · obtain ⟨children₁, tlv₁, hr⟩ := hrest.succeeds.2 ⟨other, hother, hdec⟩
        exact ⟨_, _, by rw [hrun, hr]; rfl⟩
  · intro children₁ tlv₁ heq
    rw [hrun] at heq
    obtain ⟨r, hr, hpure⟩ := bind_eq_ok.1 heq
    simp only [pure_eq_ok, Except.ok.injEq, Prod.mk.injEq] at hpure
    obtain ⟨hok, hchildren, htlv⟩ := hpure
    have hr' : anodeDecodeChoice (anodeDecodeAnythingForFlags fuel) false rest tlv =
        .ok (true, r.2.1, tlv₁) := by
      rw [hr, ← hok, ← htlv]
    -- the alternative that was tried first joins those in front of the chosen one
    obtain ⟨front, chosen, back, chosen', front', hsplit, hfront, hdec, hout, hlen, hmarks⟩ :=
      hrest.selects _ _ hr'
    refine ⟨child :: front, chosen, back, chosen', child'.setChosen false :: front', ?_, ?_, hdec, ?_, ?_, ?_⟩
    · rw [hsplit]
      rfl
    · intro other hother
      rcases mem_cons.1 hother with rfl | hother
      · exact hnot
      · exact hfront other hother
    · rw [← hchildren, hout]
      rfl
    · simp [hlen]
    · intro other hother
      rcases mem_cons.1 hother with rfl | hother
      · exact chosen_setChosen false child'
      · exact hmarks other hother

theorem ChoiceRight.last {tlv tlv' : Atlv} (h : decodeAlone fuel child tlv = .ok (false, child', tlv'))
    (hrest : ∀ other ∈ rest, HasOtherTag tlv other ∧ HasOtherTag tlv' other) :
    ChoiceRight fuel (child :: rest) tlv := by
  have hrun : ∃ children₁, anodeDecodeChoice (anodeDecodeAnythingForFlags fuel) false (child :: rest) tlv =
      .ok (false, children₁, tlv') := by
    cases fuel with
    | zero => simp [decodeAlone, anodeDecodeAnything, anodeDecodeAnythingForFlags] at h
    | succ fuel =>
      rw [decodeChoice_next h, decodeChoice_others fun other hother => (hrest other hother).2]
      exact ⟨_, rfl⟩
  obtain ⟨children₁, hrun⟩ := hrun
  constructor
  · constructor
    · rintro ⟨children₂, tlv₂, heq⟩
      rw [hrun] at heq
      simp at heq
    · rintro ⟨other, hother, hdec⟩
      rcases mem_cons.1 hother with rfl | hother
      · exact absurd hdec (not_decodable_of_false h)
      · exact absurd hdec (not_decodable_other (hrest other hother).1)
  · intro children₂ tlv₂ heq
    rw [hrun] at heq
    simp at heq

/-- Where nothing is written to the element in vain, the choice is the right one. -/
theorem choice_right {children : List Node} {tlv : Atlv} (h : Clean fuel tlv children) :
    ChoiceRight fuel children tlv := by
  induction h with
  | nil =>
    constructor
    · simp [anodeDecodeChoice]
    · intro children' tlv' heq
      simp [anodeDecodeChoice] at heq
  | found hdec => exact ChoiceRight.found hdec
  | kept h _ ih => exact ChoiceRight.kept h ih
  | last h hrest => exact ChoiceRight.last h hrest

/-! ## A choice between two integers -/

/-- `[0] EXPLICIT INTEGER`. -/
def wrappedInteger : Node :=
  .mk { row := { kind := .integer, flags := { tag := true } }, opts := [{ kind := .tag, value := some [0x30] }] } []

/-- `INTEGER`. -/
def ownInteger : Node := .mk { row := { kind := .integer } } []

/-- `02 01 05`. -/
def integerTlv : Atlv := { cls := 0, tag := 2, off := 2, len := 1, buf := [0x02, 0x01, 0x05], size := 3 }

/-- `a0 05 02 01 05 05 00`: the integer with the tag, and something behind it. -/
def overfullTlv : Atlv :=
  { cls := 0xa0, tag := 0, off := 2, len := 5, buf := [0xa0, 0x05, 0x02, 0x01, 0x05, 0x05, 0x00], size := 7 }

/-- The verdict of a decoder, without what it leaves. -/
theorem exists_of_verdict {α : Type} {x : Except Halt (Bool × α)} {ok : Bool} (h : x.map Prod.fst = .ok ok) :
    ∃ a, x = .ok (ok, a) := by
  cases x with
  | error f => exact nomatch h
  | ok r =>
    obtain ⟨b, a⟩ := r
    have hb : b = ok := Except.ok.inj h
    exact ⟨a, by rw [hb]⟩

/-- The integer is the second alternative and not the first. -/
theorem choice_right_integer : ChoiceRight 10 [wrappedInteger, ownInteger] integerTlv := by
  have hother : HasOtherTag integerTlv wrappedInteger := ⟨⟨0, by decide +kernel, by decide⟩, rfl, rfl⟩
  obtain ⟨r, hr⟩ := @exists_of_verdict _ (decodeAlone 10 ownInteger integerTlv) true (by decide +kernel)
  exact choice_right (.kept (decodeAlone_other hother) (.found ⟨r.1, r.2, hr⟩))

/-- The integer with something behind it is none of the two. The first alternative leaves the integer alone
behind, and the second one takes it. -/
theorem choice_not_right : ¬ ∀ (fuel : Nat) (children : List Node) (data : Bytes) (tlv : Atlv),
      anodeDecodeTlvForData data data.length = .ok (some tlv) → ChoiceRight fuel children tlv := by
  intro hall
  have hfound : anodeDecodeTlvForData overfullTlv.buf 7 = .ok (some overfullTlv) := by decide +kernel
  have hright := hall 10 [wrappedInteger, ownInteger] overfullTlv.buf overfullTlv hfound
  obtain ⟨r, hr⟩ := @exists_of_verdict _ (anodeDecodeChoice (anodeDecodeAnythingForFlags 10) false
    [wrappedInteger, ownInteger] overfullTlv) true (by decide +kernel)
  obtain ⟨child, hchild, child', tlv', hdec⟩ := hright.succeeds.1 ⟨r.1, r.2, hr⟩
  have hverdict := congrArg (Except.map Prod.fst) hdec
  -- neither of the two decodes alone
  rcases mem_cons.1 hchild with rfl | hchild
  · have hfails : (decodeAlone 10 wrappedInteger overfullTlv).map Prod.fst = .ok false := by decide +kernel
    rw [hfails] at hverdict
    exact nomatch hverdict
  · rw [mem_singleton.1 hchild] at hverdict
    have hfails : (decodeAlone 10 ownInteger overfullTlv).map Prod.fst = .ok false := by decide +kernel
    rw [hfails] at hverdict
    exact nomatch hverdict

end MateKeyring.Asn1x
