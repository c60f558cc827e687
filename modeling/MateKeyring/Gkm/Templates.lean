import MateKeyring.Gkm.MemoryStore

/-!
# Templates

The arrays of attributes of `gkm-attributes.c`. `gkm_attributes_find` gives the first attribute of a type that has a
length, and `gkm_template_set` takes the first attribute of the type out, whatever its length, with the last one in
its place, and adds the new one at the end. Where every type is there once an update is right. In general another
attribute of the type can be left over, and the one that moves can come before another one of its own type
(`template_set_right_iff`).
-/

set_option autoImplicit false

namespace MateKeyring.Gkm

open List
open Rpc (CkAttribute ckUnavailable)

/-! ## The functions -/

/-- An attribute of a type, with a length. -/
def isFound (type : Nat) (attr : CkAttribute) : Bool := attr.type == type && attr.ulValueLen != ckUnavailable

/-- `gkm_attributes_find` -/
def gkmAttributesFind (attrs : List CkAttribute) (type : Nat) : Option CkAttribute := attrs.find? (isFound type)

/-- `gkm_template_find` -/
def gkmTemplateFind (template : List CkAttribute) (type : Nat) : Option CkAttribute := gkmAttributesFind template type

/-- `g_memdup` of the value of an attribute, of one octet where there is none. -/
def memdupValue (attr : CkAttribute) : Checked CkAttribute := do
  let pValue ← gMemdup attr.pValue (if attr.ulValueLen ≠ 0 then attr.ulValueLen else 1)
  pure { attr with pValue }

/-- `g_array_remove_index_fast`: the last element takes the place. -/
def removeIndexFast {α : Type} (array : List α) (i : Nat) : List α :=
  match array.getLast? with
  | none => array
  | some last => (array.set i last).dropLast

/-- The loop of `gkm_template_set`. -/
def removePrevious (template : List CkAttribute) (type : Nat) : List CkAttribute :=
  match template.findIdx? fun attr => attr.type == type with
  | none => template
  | some i => removeIndexFast template i

/-- `gkm_template_set` -/
def gkmTemplateSet (template : List CkAttribute) (attr : CkAttribute) : Checked (List CkAttribute) :=
  if attr.ulValueLen = ckUnavailable then .ok template
  else do
    let at' ← memdupValue attr
    pure (removePrevious template attr.type ++ [at'])

/-! ## Values -/

/-- The octets and the length of an attribute. -/
def valueOf (attr : CkAttribute) : Option Bytes × Nat :=
  (attr.pValue.map (·.take attr.ulValueLen), attr.ulValueLen)

/-- An attribute whose octets can be read. -/
structure ValidAttribute (attr : CkAttribute) : Prop where
  length : attr.ulValueLen ≠ ckUnavailable
  memory : ∀ memory, attr.pValue = some memory → memory ≠ [] ∧ attr.ulValueLen ≤ memory.length

variable {template before mid : List CkAttribute} {attr old last : CkAttribute} {type : Nat}

/-- The length of the value is a `guint`, or there is no value. -/
def Copied (attr : CkAttribute) : Prop := attr.pValue = none ∨ attr.ulValueLen < 2 ^ 32

theorem memdupValue_ok (h : ValidAttribute attr) :
    ∃ copy, memdupValue attr = .ok copy ∧ copy.type = attr.type ∧ (valueOf copy = valueOf attr ↔ Copied attr) ∧
      copy.ulValueLen = attr.ulValueLen := by
  rw [memdupValue]
  cases hvalue : attr.pValue with
  | none => exact ⟨{ attr with pValue := none }, rfl, rfl, by simp [valueOf, Copied, hvalue], rfl⟩
  | some memory =>
    obtain ⟨hne, hlength⟩ := h.memory memory hvalue
    have hpos : 0 < memory.length := length_pos_iff.2 hne
    rw [gMemdup]
    by_cases hfits : attr.ulValueLen < 2 ^ 32
    · have hcopied : Copied attr := .inr hfits
      have hsize : (if attr.ulValueLen ≠ 0 then attr.ulValueLen else 1) % 2 ^ 32 =
          if attr.ulValueLen ≠ 0 then attr.ulValueLen else 1 := by
        split <;> omega
      have hle : attr.ulValueLen ≤ (if attr.ulValueLen ≠ 0 then attr.ulValueLen else 1) ∧
          (if attr.ulValueLen ≠ 0 then attr.ulValueLen else 1) ≤ memory.length ∧
          (if attr.ulValueLen ≠ 0 then attr.ulValueLen else 1) ≠ 0 := by
        split <;> omega
      rw [hsize, if_neg hle.2.2, if_neg (Nat.not_lt.2 hle.2.1)]
      refine ⟨_, rfl, rfl, iff_of_true ?_ hcopied, rfl⟩
      -- the octet that is copied for an empty value is none of it
      simp only [valueOf, hvalue, Option.map_some, take_take, Nat.min_eq_left hle.1]
    · have hnot : ¬ Copied attr := by
        rintro (hnull | hless)
        · exact Option.some_ne_none _ (hvalue.symm.trans hnull)
        · exact hfits hless
      rw [if_pos (by omega : attr.ulValueLen ≠ 0)]
      have hless := Nat.mod_lt attr.ulValueLen (by decide : 0 < 2 ^ 32)
      split
      · exact ⟨_, rfl, rfl, iff_of_false (by simp [valueOf, hvalue]) hnot, rfl⟩
      · rw [if_neg (by omega)]
        refine ⟨_, rfl, rfl, iff_of_false ?_ hnot, rfl⟩
        -- what is copied is shorter
        intro hsame
        have hlengths := congrArg (fun v => (v.1.map List.length).getD 0) hsame
        simp only [valueOf, hvalue, Option.map_some, Option.getD_some, length_take] at hlengths
        omega

/-! ## Finding -/

theorem find_append (l l' : List CkAttribute) (type : Nat) :
    gkmAttributesFind (l ++ l') type = (gkmAttributesFind l type).or (gkmAttributesFind l' type) :=
  find?_append

theorem find_of_other {l : List CkAttribute} (h : ∀ attr ∈ l, attr.type ≠ type) : gkmAttributesFind l type = none := by
  apply find?_eq_none.2
  intro attr hattr
  rw [isFound, beq_false_of_ne (h attr hattr), Bool.false_and]
  exact Bool.false_ne_true

theorem find_singleton (attr : CkAttribute) (type : Nat) :
    gkmAttributesFind [attr] type = if isFound type attr then some attr else none := by
  rw [gkmAttributesFind, find?_cons]
  split <;> rename_i h <;> simp [h]

/-! ## What is taken out -/

theorem removePrevious_none (h : ∀ attr ∈ template, attr.type ≠ type) : removePrevious template type = template := by
  rw [removePrevious, findIdx?_eq_none_iff.2]
  intro attr hattr
  exact beq_false_of_ne (h attr hattr)

section

variable (hbefore : ∀ attr ∈ before, attr.type ≠ old.type)

include hbefore

theorem findIdx_first :
    (before ++ old :: mid).findIdx? (fun attr => attr.type == old.type) = some before.length := by
  rw [findIdx?_append, findIdx?_eq_none_iff.2, Option.none_or, findIdx?_cons]
  · simp
  · intro attr hattr
    exact beq_false_of_ne (hbefore attr hattr)

theorem removePrevious_last : removePrevious (before ++ [old]) old.type = before := by
  rw [removePrevious, findIdx_first hbefore]
  simp [removeIndexFast]

/-- The last attribute takes the place of the first of the type. -/
theorem removePrevious_moved :
    removePrevious (before ++ old :: (mid ++ [last])) old.type = before ++ last :: mid := by
  rw [removePrevious, findIdx_first hbefore]
  have hlast : (before ++ old :: (mid ++ [last])).getLast? = some last := by
    rw [← cons_append, ← append_assoc, getLast?_concat]
  have hset : (before ++ old :: (mid ++ [last])).set before.length last = before ++ last :: mid ++ [last] := by
    simp
  simp only [removeIndexFast, hlast, hset, dropLast_concat]

end

/-- A template has no attribute of a type, or it ends with the first of them, or there is a last one behind it. -/
theorem first_cases (template : List CkAttribute) (type : Nat) :
    (∀ attr ∈ template, attr.type ≠ type) ∨
      ∃ before old, (∀ attr ∈ before, attr.type ≠ type) ∧ old.type = type ∧
        (template = before ++ [old] ∨ ∃ mid last, template = before ++ old :: (mid ++ [last])) := by
  induction template with
  | nil => exact .inl fun attr hattr => absurd hattr (not_mem_nil)
  | cons attr template ih =>
    by_cases htype : attr.type = type
    · refine .inr ⟨[], attr, fun attr hattr => absurd hattr (not_mem_nil), htype, ?_⟩
      rcases eq_nil_or_concat' template with rfl | ⟨mid, last, rfl⟩
      · exact .inl rfl
      · exact .inr ⟨mid, last, rfl⟩
    · rcases ih with hnone | ⟨before, old, hbefore, hold, hrest⟩
      · exact .inl (forall_mem_cons.2 ⟨htype, hnone⟩)
      · refine .inr ⟨attr :: before, old, forall_mem_cons.2 ⟨htype, hbefore⟩, hold, ?_⟩
        rcases hrest with rfl | ⟨mid, last, rfl⟩
        · exact .inl rfl
        · exact .inr ⟨mid, last, rfl⟩

/-! ## Updates -/

/-- Behind an update the value of the attribute is found, and the values of the other types are those of before. -/
def SetRight (template : List CkAttribute) (attr : CkAttribute) : Prop :=
  ∃ template', gkmTemplateSet template attr = .ok template' ∧
    (gkmTemplateFind template' attr.type).map valueOf = some (valueOf attr) ∧
    ∀ type, type ≠ attr.type →
      (gkmTemplateFind template' type).map valueOf = (gkmTemplateFind template type).map valueOf

/-- `old` is the first attribute of the type, and it is not the last of the template. Then another one of the type is
left over, or `last` comes before another one of its own type when it takes the place of `old`; and the two do not
have the same value. -/
structure Overtaken (template : List CkAttribute) (attr : CkAttribute) (before mid : List CkAttribute)
    (old last : CkAttribute) : Prop where
  split : template = before ++ old :: (mid ++ [last])
  first : ∀ other ∈ before, other.type ≠ attr.type
  old : old.type = attr.type
  differs :
    (∃ other, gkmAttributesFind (last :: mid) attr.type = some other ∧ valueOf other ≠ valueOf attr) ∨
    (last.type ≠ attr.type ∧ last.ulValueLen ≠ ckUnavailable ∧ gkmAttributesFind before last.type = none ∧
      ∃ other, gkmAttributesFind mid last.type = some other ∧ valueOf other ≠ valueOf last)

theorem isFound_congr {copy : CkAttribute} (htype : copy.type = attr.type)
    (hlength : copy.ulValueLen = attr.ulValueLen) : isFound type copy = isFound type attr := by
  rw [isFound, isFound, htype, hlength]

theorem gkmTemplateSet_eq (h : ValidAttribute attr) :
    ∃ copy, gkmTemplateSet template attr = .ok (removePrevious template attr.type ++ [copy]) ∧
      (valueOf copy = valueOf attr ↔ Copied attr) ∧ ∀ type, isFound type copy = isFound type attr := by
  obtain ⟨copy, hcopy, htype, hvalue, hlength⟩ := memdupValue_ok h
  refine ⟨copy, ?_, hvalue, fun type => isFound_congr htype hlength⟩
  rw [gkmTemplateSet, if_neg h.length, hcopy]
  rfl

/-- What an update comes to: nothing else is found for the type, and the same for the other types; and the value is
copied, or it was there before. -/
theorem setRight_iff (h : ValidAttribute attr) :
    SetRight template attr ↔
      (∀ other, gkmAttributesFind (removePrevious template attr.type) attr.type = some other →
        valueOf other = valueOf attr) ∧
      (∀ type, type ≠ attr.type →
        (gkmAttributesFind (removePrevious template attr.type) type).map valueOf =
          (gkmAttributesFind template type).map valueOf) ∧
      (Copied attr ∨ gkmAttributesFind (removePrevious template attr.type) attr.type ≠ none) := by
  obtain ⟨copy, hset, hvalue, hfound⟩ := @gkmTemplateSet_eq template attr h
  have hself : isFound attr.type attr = true := by
    rw [isFound, beq_self_eq_true, Bool.true_and]
    exact bne_iff_ne.2 h.length
  have hnew : gkmAttributesFind [copy] attr.type = some copy := by
    rw [find_singleton, if_pos ((hfound attr.type).trans hself)]
  have hothers : ∀ type, type ≠ attr.type → gkmAttributesFind [copy] type = none := by
    intro type htype
    rw [find_singleton, if_neg]
    rw [hfound, isFound, beq_false_of_ne htype.symm, Bool.false_and]
    exact Bool.false_ne_true
  have hfirst : (gkmTemplateFind (removePrevious template attr.type ++ [copy]) attr.type).map valueOf =
      some (valueOf attr) ↔ (∀ other, gkmAttributesFind (removePrevious template attr.type) attr.type = some other →
        valueOf other = valueOf attr) ∧
      (Copied attr ∨ gkmAttributesFind (removePrevious template attr.type) attr.type ≠ none) := by
    rw [gkmTemplateFind, find_append, hnew]
    cases gkmAttributesFind (removePrevious template attr.type) attr.type with
    | none => simp [hvalue]
    | some other => simp
  have hrest : ∀ type, type ≠ attr.type → gkmTemplateFind (removePrevious template attr.type ++ [copy]) type =
      gkmAttributesFind (removePrevious template attr.type) type := by
    intro type htype
    rw [gkmTemplateFind, find_append, hothers type htype, Option.or_none]
  constructor
  · rintro ⟨template', hok, hfind, hsame⟩
    rw [hset] at hok
    cases hok
    refine ⟨(hfirst.1 hfind).1, fun type htype => ?_, (hfirst.1 hfind).2⟩
    rw [← hrest type htype]
    exact hsame type htype
  · rintro ⟨hfind, hsame, hcopied⟩
    refine ⟨_, hset, hfirst.2 ⟨hfind, hcopied⟩, fun type htype => ?_⟩
    rw [hrest type htype]
    exact hsame type htype

/-- There is one first attribute of a type. -/
theorem first_unique {before before' rest rest' : List CkAttribute} {old old' : CkAttribute}
    (h : before ++ old :: rest = before' ++ old' :: rest') (hbefore : ∀ other ∈ before, other.type ≠ type)
    (hbefore' : ∀ other ∈ before', other.type ≠ type) (hold : old.type = type) (hold' : old'.type = type) :
    before = before' ∧ old = old' ∧ rest = rest' := by
  induction before generalizing before' with
  | nil =>
    cases before' with
    | nil =>
      obtain ⟨hhead, htail⟩ := List.cons.inj h
      exact ⟨rfl, hhead, htail⟩
    | cons other before' =>
      obtain ⟨hhead, -⟩ := List.cons.inj h
      exact absurd (hhead ▸ hold) (hbefore' other (mem_cons_self ..))
  | cons other before ih =>
    cases before' with
    | nil =>
      obtain ⟨hhead, -⟩ := List.cons.inj h
      exact absurd (hhead ▸ hold') (hbefore other (mem_cons_self ..))
    | cons other' before' =>
      obtain ⟨hhead, htail⟩ := List.cons.inj h
      obtain ⟨hb, ho, hr⟩ := ih htail (forall_mem_cons.1 hbefore).2
        (forall_mem_cons.1 hbefore').2
      exact ⟨hhead ▸ hb ▸ rfl, ho, hr⟩

/-- What is found in two lists that differ in the place of one attribute. -/
theorem find_moved_iff (hold : old.type ≠ type) :
    (gkmAttributesFind (before ++ last :: mid) type).map valueOf =
        (gkmAttributesFind (before ++ old :: (mid ++ [last])) type).map valueOf ↔
      ¬ (isFound type last = true ∧ gkmAttributesFind before type = none ∧
        ∃ other, gkmAttributesFind mid type = some other ∧ valueOf other ≠ valueOf last) := by
  have hsplit : before ++ old :: (mid ++ [last]) = before ++ ([old] ++ (mid ++ [last])) := rfl
  have hsplit' : before ++ last :: mid = before ++ ([last] ++ mid) := rfl
  have hnone : gkmAttributesFind [old] type = none := by
    apply find_of_other
    intro other hother
    rw [mem_singleton.1 hother]
    exact hold
  rw [hsplit, hsplit', find_append, find_append, find_append, find_append, find_append, hnone, Option.none_or,
    find_singleton]
  cases gkmAttributesFind before type with
  | some first => simp
  | none =>
    cases hmid : gkmAttributesFind mid type with
    | none => simp
    | some other =>
      by_cases hlast : isFound type last = true
      · simp [hlast, eq_comm]
      · simp [hlast]

/-! ## Templates that have every type once -/

/-- No two attributes have one type. -/
def Single (template : List CkAttribute) : Prop := template.Pairwise fun attr other => attr.type ≠ other.type

/-- The types of a template in which an attribute comes twice. -/
theorem single_split (hsingle : Single (before ++ old :: (mid ++ [last]))) :
    (∀ other ∈ mid, other.type ≠ old.type ∧ other.type ≠ last.type) ∧ last.type ≠ old.type ∧
      Single (before ++ last :: mid) := by
  obtain ⟨hbefore, hrest, hapart⟩ := pairwise_append.1 hsingle
  obtain ⟨hold, hrest⟩ := pairwise_cons.1 hrest
  obtain ⟨hmid, -, hlast⟩ := pairwise_append.1 hrest
  have hends : last ∈ mid ++ [last] := mem_append_right _ (mem_singleton_self last)
  have hmid' : ∀ other ∈ mid, other.type ≠ last.type :=
    fun other hother => hlast other hother last (mem_singleton_self last)
  refine ⟨fun other hother => ⟨(hold other (mem_append_left _ hother)).symm, hmid' other hother⟩,
    (hold last hends).symm,
    pairwise_append.2 ⟨hbefore, pairwise_cons.2 ⟨fun other hother => (hmid' other hother).symm, hmid⟩, ?_⟩⟩
  intro first hfirst other hother
  rcases mem_cons.1 hother with rfl | hother
  · exact hapart first hfirst other (mem_cons_of_mem _ hends)
  · exact hapart first hfirst other (mem_cons_of_mem _ (mem_append_left _ hother))

/-- With every type there once, no attribute is overtaken. -/
theorem Single.not_overtaken (hsingle : Single template) : ¬ Overtaken template attr before mid old last := by
  intro hover
  rw [hover.split] at hsingle
  obtain ⟨hmid, hlast, -⟩ := single_split hsingle
  rcases hover.differs with ⟨other, hother, -⟩ | ⟨-, -, -, other, hother, -⟩
  · rw [← hover.old, find_of_other] at hother
    · cases hother
    · exact forall_mem_cons.2 ⟨hlast, fun other hother => (hmid other hother).1⟩
  · rw [find_of_other fun other hother => (hmid other hother).2] at hother
    cases hother

/-! ## When an update is right -/

/-- Behind the first attribute of the type there is another one with a length. -/
def LeftOver (template : List CkAttribute) (type : Nat) : Prop :=
  ∃ before old rest, template = before ++ old :: rest ∧ (∀ other ∈ before, other.type ≠ type) ∧ old.type = type ∧
    gkmAttributesFind rest type ≠ none

theorem leftOver_iff {rest : List CkAttribute} (hbefore : ∀ other ∈ before, other.type ≠ type)
    (hold : old.type = type) : LeftOver (before ++ old :: rest) type ↔ gkmAttributesFind rest type ≠ none := by
  constructor
  · rintro ⟨before', old', rest', hsplit, hbefore', hold', hfound⟩
    obtain ⟨-, -, rfl⟩ := first_unique hsplit hbefore hbefore' hold hold'
    exact hfound
  · exact fun hfound => ⟨before, old, rest, rfl, hbefore, hold, hfound⟩

/-- An update is right exactly if no attribute is overtaken by another one, and the value is copied or the same one is
left over. -/
theorem template_set_right_iff {template : List CkAttribute} {attr : CkAttribute} (h : ValidAttribute attr) :
    SetRight template attr ↔ (¬ ∃ before mid old last, Overtaken template attr before mid old last) ∧
      (Copied attr ∨ LeftOver template attr.type) := by
  rw [setRight_iff h, ← and_assoc]
  rcases first_cases template attr.type with hnone | ⟨before, old, hbefore, hold, rfl | ⟨mid, last, rfl⟩⟩
  · -- nothing is taken out
    have hleft : gkmAttributesFind template attr.type ≠ none ↔ LeftOver template attr.type := by
      refine iff_of_false (fun hne => hne (find_of_other hnone)) ?_
      rintro ⟨before, old, rest, rfl, -, hold, -⟩
      exact hnone old (mem_append_right _ mem_cons_self) hold
    rw [removePrevious_none hnone, hleft]
    refine and_congr_left fun _ => ?_
    constructor
    · rintro - ⟨before, mid, old, last, hover⟩
      have hmem : old ∈ template := by
        rw [hover.split]
        exact mem_append_right _ (mem_cons_self ..)
      exact hnone old hmem hover.old
    · rintro -
      refine ⟨fun other hother => ?_, fun type htype => rfl⟩
      rw [find_of_other hnone] at hother
      cases hother
  · -- the last attribute is taken out
    have hleft : gkmAttributesFind before attr.type ≠ none ↔ LeftOver (before ++ [old]) attr.type := by
      rw [leftOver_iff hbefore hold, find_of_other hbefore]
      rfl
    rw [← hold] at hbefore ⊢
    rw [← hold] at hleft
    rw [removePrevious_last hbefore, hleft]
    refine and_congr_left fun _ => ?_
    constructor
    · rintro - ⟨before', mid, old', last, hover⟩
      obtain ⟨-, -, hrest⟩ := first_unique hover.split hbefore (hold ▸ hover.first) rfl (hover.old.trans hold.symm)
      exact absurd hrest.symm (by simp)
    · rintro -
      refine ⟨fun other hother => ?_, fun type htype => ?_⟩
      · rw [find_of_other hbefore] at hother
        cases hother
      · have hother : gkmAttributesFind [old] type = none := by
          apply find_of_other
          intro other hother
          rw [mem_singleton.1 hother]
          exact htype.symm
        rw [find_append, hother, Option.or_none]
  · -- the last attribute is moved
    have hremoved : removePrevious (before ++ old :: (mid ++ [last])) attr.type = before ++ last :: mid := by
      rw [← hold] at hbefore ⊢
      exact removePrevious_moved hbefore
    have hfirst : gkmAttributesFind (before ++ last :: mid) attr.type = gkmAttributesFind (last :: mid) attr.type := by
      rw [find_append, find_of_other hbefore, Option.none_or]
    have hleft : gkmAttributesFind (last :: mid) attr.type ≠ none ↔
        LeftOver (before ++ old :: (mid ++ [last])) attr.type := by
      rw [leftOver_iff hbefore hold, gkmAttributesFind, gkmAttributesFind, ne_eq, ne_eq, find?_eq_none,
        find?_eq_none]
      simp only [mem_cons, mem_append, not_mem_nil, false_or, or_comm]
    rw [hremoved, hfirst, hleft]
    refine and_congr_left fun _ => ?_
    constructor
    · rintro ⟨hself, hothers⟩ ⟨before', mid', old', last', hover⟩
      obtain ⟨rfl, rfl, hrest⟩ := first_unique hover.split hbefore hover.first hold hover.old
      obtain ⟨rfl, hlast⟩ := append_inj' hrest rfl
      cases hlast
      rcases hover.differs with ⟨other, hother, hvalue⟩ | ⟨htype, hlength, hnone, hover'⟩
      · exact hvalue (hself other hother)
      · have hsame := hothers last.type htype
        rw [find_moved_iff (hold.trans_ne htype.symm)] at hsame
        refine hsame ⟨?_, hnone, hover'⟩
        rw [isFound, beq_self_eq_true, Bool.true_and]
        exact bne_iff_ne.2 hlength
    · intro hright
      refine ⟨fun other hother => ?_, fun type htype => ?_⟩
      · by_contra hvalue
        exact hright ⟨before, mid, old, last, rfl, hbefore, hold, .inl ⟨other, hother, hvalue⟩⟩
      · rw [find_moved_iff (hold.trans_ne htype.symm)]
        rintro ⟨hfound, hnone, hover⟩
        obtain ⟨hlast, hlength⟩ := Bool.and_eq_true_iff.1 hfound
        have hlast' : last.type = type := eq_of_beq hlast
        subst hlast'
        exact hright ⟨before, mid, old, last, rfl, hbefore, hold, .inr ⟨htype, bne_iff_ne.1 hlength, hnone, hover⟩⟩

/-- A token whose flag is changed. -/
theorem template_set_right_sample : SetRight [⟨1, some [1], 1⟩, ⟨3, some [5, 6], 2⟩] ⟨1, some [0], 1⟩ := by
  have hsingle : Single [⟨1, some [1], 1⟩, ⟨3, some [5, 6], 2⟩] := by
    rw [Single]
    decide
  refine (template_set_right_iff ⟨by decide, ?_⟩).2 ⟨?_, .inl (.inr (by decide))⟩
  · rintro memory h
    cases h
    decide
  · rintro ⟨before, mid, old, last, hover⟩
    exact hsingle.not_overtaken hover

/-- The second of two attributes of a type is found again. -/
theorem repeated_type_not_replaced : ¬ SetRight [⟨1, some [1], 1⟩, ⟨1, some [2], 1⟩] ⟨1, some [3], 1⟩ := by
  rintro ⟨template', hset, hfind, -⟩
  cases hset
  revert hfind
  decide

end MateKeyring.Gkm
