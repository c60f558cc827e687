import Mathlib.Data.List.Infix
import MateKeyring.Lib.Bytes

/-!
# Searching text

`strstrLen` finds the first place of a text where another begins. It is found where it was put when
it does not occur before: for that, text without the other is enough when the last character of the
other occurs nowhere else in it (`not_prefix_drop`). A text without a separator lies on one side of it
(`infix_append_cons`).
-/

set_option autoImplicit false

namespace MateKeyring.Lib

open List

variable {α : Type}

/-- Text without the separator lies before it or behind it. -/
theorem infix_append_cons {n a b : List α} {z : α} (hz : z ∉ n) (h : n <:+: a ++ z :: b) :
    n <:+: a ∨ n <:+: b := by
  obtain ⟨s, t, heq⟩ := h
  rcases append_eq_append_iff.1 heq with ⟨c, ha, -⟩ | ⟨c, hsn, hzb⟩
  · exact .inl ⟨s, c, ha.symm⟩
  · cases c with
    | nil => exact .inl ⟨s, [], by rw [append_nil] at hsn ⊢; exact hsn⟩
    | cons y c =>
      obtain ⟨rfl, hb⟩ := List.cons.inj hzb
      rcases append_eq_append_iff.1 hsn with ⟨d, -, hn⟩ | ⟨d, -, hn⟩
      · exact absurd (hn ▸ mem_append_right d mem_cons_self) hz
      · cases d with
        | nil =>
          rw [nil_append] at hn
          exact absurd (hn ▸ mem_cons_self) hz
        | cons x d =>
          obtain ⟨-, hc⟩ := List.cons.inj hn
          refine .inr ⟨d, t, ?_⟩
          rw [hb, hc]
          rfl

/-- Text that begins otherwise lies behind the first character. -/
theorem infix_of_cons {x y : α} {n s : List α} (hne : x ≠ y) (h : x :: n <:+: y :: s) :
    x :: n <:+: s := by
  rcases infix_cons_iff.1 h with hpre | hin
  · exact absurd (cons_prefix_cons.1 hpre).1 hne
  · exact hin

/-- Text with a last character that is not in what follows ends before it. -/
theorem infix_of_append {w a b : List α} {z : α} (hz : z ∉ b) (h : w ++ [z] <:+: a ++ b) :
    w ++ [z] <:+: a := by
  obtain ⟨s, t, heq⟩ := h
  rcases append_eq_append_iff.1 heq with ⟨c, ha, -⟩ | ⟨c, hsn, hb⟩
  · exact ⟨s, c, ha.symm⟩
  · rcases eq_nil_or_concat c with rfl | ⟨c, y, rfl⟩
    · exact ⟨s, [], by rw [append_nil] at hsn ⊢; exact hsn⟩
    · rw [← append_assoc, concat_eq_append, ← append_assoc] at hsn
      obtain rfl : z = y := by simpa using (append_inj_right' hsn rfl)
      rw [hb, concat_eq_append] at hz
      exact absurd (by simp) hz

/-- Text whose last character occurs only there does not begin before a place where it stands, when
it is not in what precedes. -/
theorem not_prefix_drop {w a b : List α} {z : α} (hz : z ∉ w) (ha : ¬ w ++ [z] <:+: a)
    (hb : w ++ [z] <+: b) {k : Nat} (hk : k < a.length) : ¬ w ++ [z] <+: (a ++ b).drop k := by
  intro hpre
  rw [drop_append_of_le_length hk.le] at hpre
  have hlast : (a.drop k ++ b)[w.length]? = some z := by
    obtain ⟨t, ht⟩ := hpre
    rw [← ht, append_assoc, getElem?_append_right le_rfl, Nat.sub_self]
    rfl
  have hdrop : (a.drop k).length = a.length - k := length_drop
  by_cases hin : w.length < a.length - k
  · -- it ends in what precedes
    refine ha (List.IsInfix.trans (List.IsPrefix.isInfix ?_) (drop_suffix k a).isInfix)
    refine prefix_of_prefix_length_le hpre (prefix_append _ _) ?_
    rw [length_append, length_singleton]
    omega
  · -- it ends where it stands already, before its last character
    rw [getElem?_append_right (by omega), hdrop] at hlast
    obtain ⟨t, rfl⟩ := hb
    rw [append_assoc, getElem?_append_left (by omega)] at hlast
    exact hz (mem_of_getElem? hlast)

/-! ## `g_strstr_len` -/

/-- `g_strstr_len`: the text before the first place where the needle stands, and the text from there
on. The search ends at a null character. -/
def strstrLen (needle : Bytes) : Bytes → Option (Bytes × Bytes)
  | [] => none
  | c :: s =>
    if c = 0 then none
    else if needle.isPrefixOf (c :: s) then some ([], c :: s)
    else (strstrLen needle s).map fun r => (c :: r.1, r.2)

/-- What was found is the first place. -/
structure First (needle s a b : Bytes) : Prop where
  eq : s = a ++ b
  at_place : needle <+: b
  text : 0 ∉ a
  first : ∀ k < a.length, ¬ needle <+: (a ++ b).drop k

theorem strstrLen_some {needle s a b : Bytes} (h : strstrLen needle s = some (a, b)) :
    First needle s a b := by
  induction s generalizing a with
  | nil => cases h
  | cons c s ih =>
    rw [strstrLen] at h
    split at h
    · cases h
    · next hc =>
        split at h
        · next hpre =>
            cases h
            exact ⟨rfl, isPrefixOf_iff_prefix.1 hpre, not_mem_nil, fun k hk =>
              absurd hk (Nat.not_lt_zero k)⟩
        · next hpre =>
            obtain ⟨⟨a', b'⟩, hr, heq⟩ := Option.map_eq_some_iff.1 h
            obtain ⟨rfl, rfl⟩ := Prod.mk.inj heq
            obtain ⟨hs, hplace, htext, hfirst⟩ := ih hr
            refine ⟨congrArg _ hs, hplace, ?_, fun k hk => ?_⟩
            · exact fun hmem => (mem_cons.1 hmem).elim (fun h0 => hc h0.symm) htext
            · cases k with
              | zero =>
                intro hbad
                rw [drop_zero, cons_append, ← hs] at hbad
                exact hpre ( isPrefixOf_iff_prefix.2 hbad)
              | succ k => exact hfirst k (Nat.lt_of_succ_lt_succ hk)

theorem strstrLen_eq {c : UInt8} {needle a b : Bytes} (hc : c ≠ 0) (hplace : c :: needle <+: b)
    (htext : 0 ∉ a) (hfirst : ∀ k < a.length, ¬ c :: needle <+: (a ++ b).drop k) :
    strstrLen (c :: needle) (a ++ b) = some (a, b) := by
  induction a with
  | nil =>
    obtain ⟨t, rfl⟩ := hplace
    have hpre := isPrefixOf_iff_prefix.2 (prefix_append (c :: needle) t)
    rw [cons_append] at hpre
    rw [nil_append, cons_append, strstrLen, if_neg hc, if_pos hpre]
  | cons x a ih =>
    have h0 : x ≠ 0 := fun h0 => htext (h0 ▸ mem_cons_self)
    have hnot : ¬ (c :: needle).isPrefixOf (x :: (a ++ b)) = true := fun hpre =>
      hfirst 0 (Nat.succ_pos _) ( isPrefixOf_iff_prefix.1 hpre)
    rw [cons_append, strstrLen, if_neg h0, if_neg hnot,
      ih (fun hmem => htext (mem_cons_of_mem _ hmem)) fun k hk => hfirst (k + 1) (Nat.succ_lt_succ hk)]
    rfl

/-- Nothing is found in text without the needle. -/
theorem strstrLen_none {needle a : Bytes} (h : ¬ needle <:+: a) : strstrLen needle a = none := by
  cases hfound : strstrLen needle a with
  | none => rfl
  | some r =>
    obtain ⟨heq, hplace, -, -⟩ := strstrLen_some hfound
    exact absurd (heq ▸ hplace.isInfix.trans (suffix_append r.1 r.2).isInfix) h

/-- Nothing is found behind a null character. -/
theorem strstrLen_null {needle a b : Bytes} (hneedle : 0 ∉ needle)
    (h : ¬ needle <:+: a) (ha : 0 ∈ a) : strstrLen needle (a ++ b) = none := by
  cases hfound : strstrLen needle (a ++ b) with
  | none => rfl
  | some r =>
    obtain ⟨pre, rest⟩ := r
    obtain ⟨heq, ⟨t, rfl⟩, htext, -⟩ := strstrLen_some hfound
    -- it would end in `a`, since it has no null character, nor has what is before it
    rw [← append_assoc] at heq
    rcases append_eq_append_iff.1 heq.symm with ⟨c, ha', -⟩ | ⟨c, hpre, -⟩
    · exact absurd ⟨pre, c, ha'.symm⟩ h
    · have hmem : 0 ∈ pre ++ needle := hpre ▸ mem_append_left c ha
      exact absurd hmem (not_mem_append htext hneedle)

end MateKeyring.Lib
