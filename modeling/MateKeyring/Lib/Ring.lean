import Mathlib.Data.List.Basic
import Mathlib.Data.List.Nodup
import Mathlib.Logic.Function.Basic

/-!
# Doubly linked rings

Nodes are linked by two functions, `next` and `prev`. `Path a l b` follows the links from `a` over
the nodes of `l` to `b`, and a ring is a path from its first node back to it. The two edits of a ring
are stated on the links: a node is put behind the first one (`Ring.insert`), and a node is taken out
(`Ring.remove`, `Ring.removeHead`).
-/

set_option autoImplicit false

namespace MateKeyring.Lib

open List

variable {α : Type}

/-- `b` follows `a`, and `a` precedes `b`. -/
def Linked (next prev : α → Option α) (a b : α) : Prop := next a = some b ∧ prev b = some a

/-- The links lead from `a` over the nodes of the list to `b`. -/
def Path (next prev : α → Option α) : α → List α → α → Prop
  | a, [], b => Linked next prev a b
  | a, x :: l, b => Linked next prev a x ∧ Path next prev x l b

/-- A ring of linked nodes, from its first node on; without nodes there is none. -/
def Ring (next prev : α → Option α) : List α → Prop
  | [] => True
  | r :: rs => Path next prev r rs r

variable {next prev next' prev' : α → Option α}

variable {a b x : α} {l : List α}

theorem path_append {l' : List α} :
    Path next prev a (l ++ x :: l') b ↔ Path next prev a l x ∧ Path next prev x l' b := by
  induction l generalizing a with
  | nil => exact Iff.rfl
  | cons y l ih =>
    rw [cons_append]
    change Linked next prev a y ∧ Path next prev y (l ++ x :: l') b ↔
      (Linked next prev a y ∧ Path next prev y l x) ∧ Path next prev x l' b
    rw [ih, and_assoc]

/-- A path reads the forward links of all its nodes but the last, and the backward links of all but
the first. -/
theorem Path.congr (h : Path next prev a l b)
    (hnext : ∀ x ∈ a :: l, next' x = next x) (hprev : ∀ x, x ∈ l ∨ x = b → prev' x = prev x) :
    Path next' prev' a l b := by
  induction l generalizing a with
  | nil =>
    obtain ⟨hn, hp⟩ := h
    exact ⟨(hnext a (by simp)).trans hn, (hprev b (.inr rfl)).trans hp⟩
  | cons y l ih =>
    obtain ⟨⟨hn, hp⟩, hl⟩ := h
    refine ⟨⟨(hnext a (by simp)).trans hn, (hprev y (by simp)).trans hp⟩, ih hl ?_ ?_⟩
    · intro x hx
      exact hnext x (mem_cons_of_mem _ hx)
    · intro x hx
      exact hprev x (hx.imp_left (mem_cons_of_mem _))

/-- The node before the end of a path is one of its nodes. -/
theorem Path.prev_mem (h : Path next prev a l b) : ∃ p ∈ a :: l, prev b = some p := by
  induction l generalizing a with
  | nil => exact ⟨a, by simp, h.2⟩
  | cons y l ih =>
    obtain ⟨p, hp, hprev⟩ := ih h.2
    exact ⟨p, mem_cons_of_mem _ hp, hprev⟩

variable {n p : α}

/-- The end of a path is set to another node: the last link is changed. -/
theorem Path.redirect (h : Path next prev a l b)
    (hp : prev b = some p) (hnodup : (a :: l).Nodup) (hn : n ∉ l)
    (hnext : next' p = some n) (hnext' : ∀ x, x ≠ p → x ≠ b → next' x = next x)
    (hprev : prev' n = some p) (hprev' : ∀ x, x ≠ n → x ≠ b → prev' x = prev x)
    (hb : b ∉ a :: l) : Path next' prev' a l n := by
  induction l generalizing a with
  | nil =>
    obtain rfl : a = p := Option.some.inj (h.2.symm.trans hp)
    exact ⟨hnext, hprev⟩
  | cons y l ih =>
    obtain ⟨⟨hay, hya⟩, hl⟩ := h
    have hmem : p ∈ y :: l := by
      obtain ⟨q, hq, hq'⟩ := hl.prev_mem
      obtain rfl := Option.some.inj (hp.symm.trans hq')
      exact hq
    have hap : a ≠ p := fun heq => (nodup_cons.1 hnodup).1 (heq ▸ hmem)
    refine ⟨⟨(hnext' a hap ?_).trans hay, (hprev' y ?_ ?_).trans hya⟩, ih hl ?_ ?_ ?_⟩
    · exact fun heq => hb (by simp [heq])
    · exact fun heq => hn (by simp [heq])
    · exact fun heq => hb (by simp [heq])
    · exact (nodup_cons.1 hnodup).2
    · exact fun hmem => hn (mem_cons_of_mem _ hmem)
    · exact fun hmem => hb (mem_cons_of_mem _ hmem)

variable {r : α} {rs : List α}

/-- The ring may be read from its second node on. -/
theorem Ring.rotate (h : Ring next prev (r :: x :: rs)) : Ring next prev (x :: (rs ++ [r])) :=
  path_append.2 ⟨h.2, h.1⟩

theorem Ring.congr (h : Ring next prev rs) (hnext : ∀ x ∈ rs, next' x = next x)
    (hprev : ∀ x ∈ rs, prev' x = prev x) : Ring next' prev' rs := by
  cases rs with
  | nil => trivial
  | cons r rs =>
    refine Path.congr h hnext ?_
    rintro x (hx | rfl)
    · exact hprev x (mem_cons_of_mem _ hx)
    · exact hprev x mem_cons_self

variable {c : α}

/-- Both links of a node of a ring lead back to it. -/
theorem Ring.linked (h : Ring next prev rs) (hc : c ∈ rs) :
    (∃ n ∈ rs, next c = some n ∧ prev n = some c) ∧ ∃ p ∈ rs, prev c = some p ∧ next p = some c := by
  cases rs with
  | nil => cases hc
  | cons r rs =>
    have hpath : ∀ {a b : α} {l : List α}, Path next prev a l b →
        (∀ x ∈ a :: l, ∃ n, (n ∈ l ∨ n = b) ∧ next x = some n ∧ prev n = some x) ∧
        ∀ x, x ∈ l ∨ x = b → ∃ p ∈ a :: l, prev x = some p ∧ next p = some x := by
      intro a b l
      induction l generalizing a with
      | nil =>
        intro h
        refine ⟨fun x hx => ?_, fun x hx => ?_⟩
        · obtain rfl := mem_singleton.1 hx
          exact ⟨b, .inr rfl, h⟩
        · obtain rfl : x = b := hx.resolve_left (by simp)
          exact ⟨a, by simp, h.2, h.1⟩
      | cons y l ih =>
        rintro ⟨hay, hl⟩
        obtain ⟨ihn, ihp⟩ := ih hl
        refine ⟨fun x hx => ?_, fun x hx => ?_⟩
        · rcases mem_cons.1 hx with rfl | hx
          · exact ⟨y, by simp, hay⟩
          · obtain ⟨n, hn, hlink⟩ := ihn x hx
            exact ⟨n, hn.imp_left (mem_cons_of_mem _), hlink⟩
        · by_cases hxy : x = y
          · subst hxy
            exact ⟨a, by simp, hay.2, hay.1⟩
          · have hx' : x ∈ l ∨ x = b := hx.imp_left fun hmem => (mem_cons.1 hmem).resolve_left hxy
            obtain ⟨p, hp, hlink⟩ := ihp x hx'
            exact ⟨p, mem_cons_of_mem _ hp, hlink⟩
    obtain ⟨hn, hp⟩ := hpath h
    refine ⟨?_, ?_⟩
    · obtain ⟨n, hmem, hlink⟩ := hn c hc
      refine ⟨n, ?_, hlink⟩
      rcases hmem with hmem | rfl
      · exact mem_cons_of_mem _ hmem
      · exact mem_cons_self
    · exact hp c ((mem_cons.1 hc).symm)

/-- A new node is put behind the first one; the ring is then read from it on. -/
theorem Ring.insert (h : Ring next prev (r :: rs))
    (hnodup : (r :: rs).Nodup) (hc : c ∉ r :: rs) (hn : next r = some n)
    (hnextc : next' c = some n) (hprevc : prev' c = some r) (hprevn : prev' n = some c)
    (hnextr : next' r = some c) (hnext : ∀ x, x ≠ c → x ≠ r → next' x = next x)
    (hprev : ∀ x, x ≠ c → x ≠ n → prev' x = prev x) :
    Ring next' prev' (c :: (rs ++ [r])) := by
  have hlast : Linked next' prev' r c := ⟨hnextr, hprevc⟩
  cases rs with
  | nil =>
    obtain rfl : n = r := Option.some.inj (hn.symm.trans h.1)
    exact ⟨⟨hnextc, hprevn⟩, hlast⟩
  | cons x rs =>
    obtain rfl : n = x := Option.some.inj (hn.symm.trans h.1.1)
    have hcons := nodup_cons.1 hnodup
    refine ⟨⟨hnextc, hprevn⟩, path_append.2 ⟨Path.congr h.2 ?_ ?_, hlast⟩⟩
    · intro y hy
      exact hnext y (fun heq => hc (heq ▸ mem_cons_of_mem _ hy)) (fun heq => hcons.1 (heq ▸ hy))
    · rintro y (hy | rfl)
      · refine hprev y (fun heq => hc ?_) (fun heq => ?_)
        · exact heq ▸ mem_cons_of_mem _ (mem_cons_of_mem _ hy)
        · exact (nodup_cons.1 hcons.2).1 (heq ▸ hy)
      · exact hprev y (fun heq => hc (by simp [heq])) (fun heq => hcons.1 (by simp [heq]))

/-- A node that is not the first is taken out. -/
theorem Ring.remove {l' : List α} (h : Ring next prev (r :: (l ++ c :: l')))
    (hnodup : (r :: (l ++ c :: l')).Nodup) (hn : next c = some n) (hp : prev c = some p)
    (hnextp : next' p = some n) (hprevn : prev' n = some p)
    (hnext : ∀ x, x ≠ p → x ≠ c → next' x = next x)
    (hprev : ∀ x, x ≠ n → x ≠ c → prev' x = prev x) : Ring next' prev' (r :: (l ++ l')) := by
  obtain ⟨hfirst, hsecond⟩ := path_append.1 h
  have hr := nodup_cons.1 hnodup
  have happ := nodup_append.1 hr.2
  have hcl' := nodup_cons.1 happ.2.1
  have hrl : r ∉ l := fun hmem => hr.1 (mem_append_left _ hmem)
  have hrc : r ≠ c := fun heq => hr.1 (by simp [heq])
  have hcl : c ∉ r :: l := by
    intro hmem
    rcases mem_cons.1 hmem with heq | hmem
    · exact hrc heq.symm
    · exact happ.2.2 c hmem c mem_cons_self rfl
  have hnl : n ∉ l := by
    intro hmem
    cases l' with
    | nil =>
      obtain rfl : n = r := Option.some.inj (hn.symm.trans hsecond.1)
      exact hrl hmem
    | cons x l' =>
      obtain rfl : n = x := Option.some.inj (hn.symm.trans hsecond.1.1)
      exact happ.2.2 n hmem n (by simp) rfl
  have hredirect : Path next' prev' r l n :=
    hfirst.redirect hp (nodup_cons.2 ⟨hrl, happ.1⟩) hnl hnextp hnext hprevn hprev hcl
  cases l' with
  | nil =>
    obtain rfl : n = r := Option.some.inj (hn.symm.trans hsecond.1)
    rw [append_nil]
    exact hredirect
  | cons x l' =>
    obtain rfl : n = x := Option.some.inj (hn.symm.trans hsecond.1.1)
    obtain ⟨q, hq, hpq⟩ := hfirst.prev_mem
    obtain rfl := Option.some.inj (hp.symm.trans hpq)
    have hnl' := nodup_cons.1 hcl'.2
    refine path_append.2 ⟨hredirect, Path.congr hsecond.2 ?_ ?_⟩
    · intro y hy
      refine hnext y (fun heq => ?_) (fun heq => hcl'.1 (heq ▸ hy))
      subst heq
      rcases mem_cons.1 hq with rfl | hq
      · exact hr.1 (mem_append_right _ (mem_cons_of_mem _ hy))
      · exact happ.2.2 y hq y (mem_cons_of_mem _ hy) rfl
    · rintro y (hy | rfl)
      · exact hprev y (fun heq => hnl'.1 (heq ▸ hy))
          (fun heq => hcl'.1 (heq ▸ mem_cons_of_mem _ hy))
      · exact hprev y (fun heq => hr.1 (by simp [heq])) hrc

/-- The first node is taken out of a ring with others. -/
theorem Ring.removeHead (h : Ring next prev (c :: x :: rs))
    (hnodup : (c :: x :: rs).Nodup) (hp : prev c = some p) (hnextp : next' p = some x)
    (hprevx : prev' x = some p) (hnext : ∀ y, y ≠ p → y ≠ c → next' y = next y)
    (hprev : ∀ y, y ≠ x → y ≠ c → prev' y = prev y) : Ring next' prev' (x :: rs) := by
  have hrot : Ring next prev (x :: (rs ++ c :: [])) := h.rotate
  have hnodup' : (x :: (rs ++ [c])).Nodup := by
    have hperm : (x :: (rs ++ [c])).Perm (c :: x :: rs) := perm_append_singleton c (x :: rs)
    exact hperm.nodup_iff.2 hnodup
  have hres := hrot.remove hnodup' h.1.1 hp hnextp hprevx hnext hprev
  rwa [append_nil] at hres

end MateKeyring.Lib
