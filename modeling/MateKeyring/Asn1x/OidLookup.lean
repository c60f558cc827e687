import MateKeyring.Asn1x.OidValues

/-!
# Looking up object identifiers

`match_oid_in_definitions` goes over the table until every name in an object identifier has a value.
In each pass it tries the identifiers that have none yet, and one more level of names is resolved
(`Passed.resolve_le`). Its flag for progress is set for an identifier that is tried, whether it is
resolved or not, so that a name that is not defined keeps the loop going for ever
(`lookup_right_iff`).
-/

set_option autoImplicit false

namespace MateKeyring.Asn1x.Tables

open List
open Function (update update_of_ne update_self)

variable {result : Option (Option (List Row))}

/-! ## The functions -/

/-- The variables of `match_oid_in_definitions`; `result` has no value before the first call. -/
structure Search where
  names : Names
  progress : Bool
  problem : Option Text
  result : Option (Option (List Row))

/-- The name of an object identifier that has one. -/
def oidName (def' : List Row) : Option Text :=
  def'.head?.bind fun r => if r.row.kind = .objectId then r.row.name else none

/-- The inner loop of `match_oid_in_definitions`. -/
def pass (match' : Text) : List (List Row) → Search → Search
  | [], s => s
  | def' :: defs, s =>
    match oidName def' with
    | none => pass match' defs s
    | some name =>
      if (s.names name).isSome then pass match' defs s
      else
        let m := matchOidInDefinition def' name s.names match' s.problem
        let s' : Search := ⟨m.names, true, m.problem, some m.result⟩
        if m.result.isSome then s' else pass match' defs s'

/-- What a run of `match_oid_in_definitions` ends with, if it does. -/
inductive Answer where
  | running
  | uninitialized
  | returned (result : Option (List Row))

/-- The outer loop of `match_oid_in_definitions`. -/
def searchLoop (match' : Text) (defs : List (List Row)) :
    Nat → Names → Option (Option (List Row)) → Answer
  | 0, _, _ => .running
  | fuel + 1, names, result =>
    let s := pass match' defs ⟨names, false, none, result⟩
    if s.problem = none ∨ (s.result.bind id).isSome then
      match s.result with
      | none => .uninitialized
      | some result => .returned result
    else if s.progress = false then .returned none
    else searchLoop match' defs fuel s.names s.result

/-- `match_oid_in_definitions`, with a bound for the number of passes. -/
def matchOidInDefinitions (fuel : Nat) (defs : List Row) (match' : Text) : Answer :=
  searchLoop match' (siblings (adefFirstChild defs)) fuel (fun _ => none) none

/-! ## What it should return -/

/-- The sibling that follows a named identifier with the value, or null if there is none. -/
def Right (defs : List Tree) (value : Text) (result : Option (List Row)) : Prop :=
  (∃ before t after, defs = before ++ t :: after ∧ Named defs t value ∧ result = pointer after []) ∨
    (¬ (∃ t ∈ defs, Named defs t value) ∧ result = none)

/-- There is an identifier with a name, and either all of them are resolved that have constants, or one
that is not the last definition has the value. -/
def Resolvable (defs : List Tree) (value : Text) : Prop :=
  (∃ t ∈ defs, nameOf t ≠ none) ∧
    ((∀ t ∈ defs, nameOf t ≠ none → components t ≠ [] → ∃ v, HasValue defs t v) ∨
      ∃ before t t' after, defs = before ++ t :: t' :: after ∧ Named defs t value)

/-! ## One pass -/

variable {names names' : Names} {t : Tree} {v value : Text} {defs after ts : List Tree}
  {s s₁ s' : Search}

theorem oidName_forest (t : Tree) (after : List Tree) (rest : List Row) :
    oidName (forest (t :: after) ++ rest) = nameOf t := by
  obtain ⟨row, children⟩ := t
  rw [forest, treeRows, append_assoc, cons_append]
  rfl

/-- An identifier with the value that was found is the last definition. -/
def Searched (defs : List Tree) (value : Text) (names : Names) : Prop :=
  ∀ before t after name, defs = before ++ t :: after → nameOf t = some name →
    names name = some value → after = []

/-- What a pass over some of the definitions leaves, if it does not find the value. -/
structure Passed (defs : List Tree) (value : Text) (ts : List Tree) (s s' : Search) : Prop where
  part : Part s.names s'.names
  sound : Sound defs s'.names
  searched : Searched defs value s'.names
  result : s'.result = s.result ∨ s'.result = some none
  resolved : ∀ t ∈ ts, ∀ name, nameOf t = some name → ∀ v, valueAt s.names t = some v →
    s'.names name = some v
  complete : s'.problem = none → ∀ t ∈ ts, ∀ name, nameOf t = some name → components t ≠ [] →
    s'.names name ≠ none
  problem : s'.problem ≠ none → s.problem ≠ none ∨
    ∃ t ∈ ts, ∃ name, nameOf t = some name ∧ components t ≠ [] ∧ s.names name = none
  tried : ∀ t ∈ ts, ∀ name, nameOf t = some name → s.names name = none →
    s'.result = some none ∧ s'.progress = true
  keeps : (s.problem ≠ none → s'.problem ≠ none) ∧ (s.progress = true → s'.progress = true)

/-- A pass has found the value. -/
def Found (defs : List Tree) (value : Text) (s' : Search) : Prop :=
  ∃ before t t' after, defs = before ++ t :: t' :: after ∧ Named defs t value ∧
    s'.result = some (pointer (t' :: after) [])

theorem Passed.refl (hsound : Sound defs s.names) (hsearched : Searched defs value s.names) :
    Passed defs value [] s s where
  part _ _ h := h
  sound := hsound
  searched := hsearched
  result := .inl rfl
  resolved _ ht := absurd ht not_mem_nil
  complete _ _ ht := absurd ht not_mem_nil
  problem := .inl
  tried _ ht := absurd ht not_mem_nil
  keeps := ⟨id, id⟩

/-- The pass over the rest, from `s₁` on, with the first definition, which was tried from `s` to `s₁`. -/
theorem Passed.cons (h : Passed defs value after s₁ s') (hpart : Part s.names s₁.names)
    (hresult : s₁.result = s.result ∨ s₁.result = some none)
    (hkeeps : (s.problem ≠ none → s₁.problem ≠ none) ∧ (s.progress = true → s₁.progress = true))
    (hresolved : ∀ name, nameOf t = some name → ∀ v, valueAt s.names t = some v →
      s₁.names name = some v)
    (hcomplete : ∀ name, nameOf t = some name → components t ≠ [] →
      s₁.names name ≠ none ∨ s₁.problem ≠ none)
    (hproblem : s₁.problem ≠ none → s.problem ≠ none ∨
      ∃ name, nameOf t = some name ∧ components t ≠ [] ∧ s.names name = none)
    (htried : (∀ name, nameOf t = some name → s.names name ≠ none) ∧ s₁.names = s.names ∨
      s₁.result = some none ∧ s₁.progress = true) :
    Passed defs value (t :: after) s s' := by
  have hnone : ∀ name, s₁.names name = none → s.names name = none := by
    intro name hname
    cases hold : s.names name with
    | none => rfl
    | some v => exact absurd (hpart name v hold) (by rw [hname]; exact Option.some_ne_none v ∘ Eq.symm)
  refine ⟨fun name v hv => h.part name v (hpart name v hv), h.sound, h.searched, ?_, ?_, ?_, ?_, ?_,
    fun hp => h.keeps.1 (hkeeps.1 hp), fun hp => h.keeps.2 (hkeeps.2 hp)⟩
  · rcases h.result with heq | heq
    · rw [heq]
      exact hresult
    · exact .inr heq
  · intro t' ht' name hname v hv
    rcases mem_cons.1 ht' with rfl | ht'
    · exact h.part name v (hresolved name hname v hv)
    · exact h.resolved t' ht' name hname v (valueAt_mono hpart hv)
  · intro hp t' ht' name hname hne
    rcases mem_cons.1 ht' with rfl | ht'
    · rcases hcomplete name hname hne with hsome | hprob
      · obtain ⟨v, hv⟩ := Option.ne_none_iff_exists'.1 hsome
        rw [h.part name v hv]
        exact Option.some_ne_none v
      · exact absurd hp (h.keeps.1 hprob)
    · exact h.complete hp t' ht' name hname hne
  · intro hp
    rcases h.problem hp with hprob | ⟨t', ht', name, hname, hne, hnew⟩
    · rcases hproblem hprob with hold | ⟨name, hname, hne, hnew⟩
      · exact .inl hold
      · exact .inr ⟨t, mem_cons_self, name, hname, hne, hnew⟩
    · exact .inr ⟨t', mem_cons_of_mem t ht', name, hname, hne, hnone name hnew⟩
  · intro t' ht' name hname hnew
    rcases htried with ⟨hold, hsame⟩ | ⟨hres, hprog⟩
    · rcases mem_cons.1 ht' with rfl | ht'
      · exact absurd hnew (hold name hname)
      · exact h.tried t' ht' name hname (by rw [hsame]; exact hnew)
    · refine ⟨?_, h.keeps.2 hprog⟩
      rcases h.result with heq | heq
      · rw [heq, hres]
      · exact heq

/-- A name has one place in a table. -/
theorem place_unique {name : Text} (hnodup : (defs.filterMap nameOf).Nodup) {a b c d : List Tree}
    {t t' : Tree} (h : defs = a ++ t :: b) (h' : defs = c ++ t' :: d) (ht : nameOf t = some name)
    (ht' : nameOf t' = some name) : b = d := by
  subst h
  induction a generalizing c with
  | nil =>
    cases c with
    | nil =>
      cases h'
      rfl
    | cons x c =>
      rw [nil_append, cons_append, List.cons.injEq] at h'
      obtain ⟨rfl, rfl⟩ := h'
      rw [nil_append, filterMap_cons_some ht, nodup_cons] at hnodup
      exact absurd (mem_filterMap.2 ⟨t', by simp, ht'⟩) hnodup.1
  | cons x a ih =>
    cases c with
    | nil =>
      rw [nil_append, cons_append, List.cons.injEq] at h'
      obtain ⟨rfl, rfl⟩ := h'
      rw [cons_append, filterMap_cons_some ht', nodup_cons] at hnodup
      exact absurd (mem_filterMap.2 ⟨t, by simp, ht⟩) hnodup.1
    | cons y c =>
      rw [cons_append, cons_append, List.cons.injEq] at h'
      have hrest : ((a ++ t :: b).filterMap nameOf).Nodup :=
        hnodup.sublist ((sublist_cons_self x _).filterMap nameOf)
      exact ih hrest h'.2

/-! ### A value that is found -/

variable {name : Text}

theorem part_update (hseen : names name = none) (v : Text) :
    Part names (update names name (some v)) := by
  intro n w hw
  by_cases hn : n = name
  · rw [hn, hseen] at hw
    cases hw
  · rw [update_of_ne hn]
    exact hw

theorem sound_update (hsound : Sound defs names) (hdefinition : definition defs name = some t)
    (hv : valueAt names t = some v) : Sound defs (update names name (some v)) := by
  intro n w hw
  by_cases hn : n = name
  · rw [hn, update_self] at hw
    cases hw
    obtain ⟨k, hk⟩ := hasValue_of_sound hsound hv
    refine ⟨k + 1, ?_⟩
    rw [hn]
    exact Option.bind_eq_some_iff.2 ⟨t, hdefinition, hk⟩
  · rw [update_of_ne hn] at hw
    exact hsound n w hw

/-- The value is not the one that is looked for, or it is that of the last definition. -/
theorem searched_update (hnodup : (defs.filterMap nameOf).Nodup)
    (hsearched : Searched defs value names) {before : List Tree} (hdefs : defs = before ++ t :: after)
    (hname : nameOf t = some name) (hother : ¬ (v = value ∧ after ≠ [])) :
    Searched defs value (update names name (some v)) := by
  intro before' t' after' n hdefs' hname' hn'
  by_cases hn : n = name
  · rw [hn, update_self] at hn'
    cases hn'
    rw [← place_unique hnodup hdefs hdefs' hname (hn ▸ hname')]
    by_contra hafter
    exact hother ⟨rfl, hafter⟩
  · rw [update_of_ne hn] at hn'
    exact hsearched before' t' after' n hdefs' hname' hn'

/-- A name that has a value already has the one that it would be given. -/
theorem seen_value {w : Text} (hsound : Sound defs names) (hdefinition : definition defs name = some t)
    (hseen : names name = some w) (hv : valueAt names t = some v) : w = v := by
  obtain ⟨k, hk⟩ := hsound name w hseen
  cases k with
  | zero => cases hk
  | succ k =>
    obtain ⟨t', ht', hw⟩ := Option.bind_eq_some_iff.1 hk
    rw [hdefinition] at ht'
    cases ht'
    exact HasValue.unique ⟨k, hw⟩ (hasValue_of_sound hsound hv)

/-- A pass finds the value, or does what it can. -/
theorem pass_cases (hnodup : (defs.filterMap nameOf).Nodup)
    (hconstants : ∀ t ∈ defs, ∀ c ∈ t.children, c.row.kind = .constant → c.row.value ≠ none)
    (before : List Tree) (hdefs : defs = before ++ ts) (hsound : Sound defs s.names)
    (hsearched : Searched defs value s.names) :
    Found defs value (pass value (places [] ts) s) ∨
      Passed defs value ts s (pass value (places [] ts) s) := by
  induction ts generalizing before s with
  | nil => exact .inr (Passed.refl hsound hsearched)
  | cons t after ih =>
    have hmem : t ∈ defs := by
      rw [hdefs]
      exact mem_append_right before mem_cons_self
    have hnext : defs = (before ++ [t]) ++ after := by
      rw [hdefs, append_assoc, singleton_append]
    rw [places, pass, oidName_forest]
    cases hname : nameOf t with
    | none =>
      have hno : ∀ name, nameOf t ≠ some name := fun name h => by
        rw [hname] at h
        cases h
      refine (ih _ hnext hsound hsearched).imp_right fun h => ?_
      exact h.cons (fun _ _ hv => hv) (.inl rfl) ⟨id, id⟩ (fun n hn => absurd hn (hno n))
        (fun n hn => absurd hn (hno n)) .inl (.inl ⟨fun n hn => absurd hn (hno n), rfl⟩)
    | some name =>
      have hdefinition := definition_of_mem hnodup hmem hname
      have heach : ∀ n, nameOf t = some n → n = name := fun n hn =>
        Option.some.inj (hn.symm.trans hname)
      dsimp only
      cases hseen : s.names name with
      | some w =>
        rw [if_pos (show (some w).isSome = true from rfl)]
        refine (ih _ hnext hsound hsearched).imp_right fun h => ?_
        refine h.cons (fun _ _ hv => hv) (.inl rfl) ⟨id, id⟩ (fun n hn v hv => ?_)
          (fun n hn _ => ?_) .inl (.inl ⟨fun n hn => ?_, rfl⟩)
        · rw [heach n hn, hseen, seen_value hsound hdefinition hseen hv]
        · rw [heach n hn, hseen]
          exact .inl (Option.some_ne_none w)
        · rw [heach n hn, hseen]
          exact Option.some_ne_none w
      | none =>
        rw [if_neg (show ¬ (none : Option Text).isSome = true from Bool.false_ne_true)]
        rcases matchOidInDefinition_cases s.names t after name value s.problem
          (hconstants t hmem) with
          ⟨hempty, hm⟩ | ⟨hne, hnone, p, hm⟩ | ⟨v, hv, hm⟩
        · rw [hm]
          refine (ih (s := ⟨s.names, true, s.problem, some none⟩) _ hnext hsound
            hsearched).imp_right fun h => ?_
          exact h.cons (fun _ _ hv => hv) (.inr rfl) ⟨id, fun _ => rfl⟩
            (fun n hn v hv => absurd hempty (valueAt_eq_some.1 hv).1)
            (fun n hn hne => absurd hempty hne) .inl (.inr ⟨rfl, rfl⟩)
        · rw [hm]
          refine (ih (s := ⟨s.names, true, some p, some none⟩) _ hnext hsound
            hsearched).imp_right fun h => ?_
          refine h.cons (fun _ _ hv => hv) (.inr rfl)
            ⟨fun _ => Option.some_ne_none p, fun _ => rfl⟩ (fun n hn v hv => ?_)
            (fun n hn _ => .inr (Option.some_ne_none p))
            (fun _ => .inr ⟨name, hname, hne, hseen⟩) (.inr ⟨rfl, rfl⟩)
          rw [hnone] at hv
          cases hv
        · rw [hm]
          by_cases hfound : v = value ∧ after ≠ []
          · obtain ⟨rfl, hafter⟩ := hfound
            obtain ⟨t', after, rfl⟩ := exists_cons_of_ne_nil hafter
            rw [if_pos rfl]
            refine .inl ⟨before, t, t', after, hdefs, ⟨?_, hasValue_of_sound hsound hv⟩, ?_⟩
            · rw [hname]
              exact Option.some_ne_none name
            · rfl
          · have hresult : (if v = value then pointer after [] else none) = none := by
              by_cases hvalue : v = value
              · have hlast : after = [] := by
                  by_contra hafter
                  exact hfound ⟨hvalue, hafter⟩
                rw [if_pos hvalue, hlast]
                rfl
              · exact if_neg hvalue
            rw [hresult]
            have hsound' := sound_update hsound hdefinition hv
            have hsearched' := searched_update hnodup hsearched hdefs hname hfound
            refine (ih (s := ⟨update s.names name (some v), true, s.problem,
              some none⟩) _ hnext hsound' hsearched').imp_right fun h => ?_
            refine h.cons (part_update hseen v) (.inr rfl) ⟨id, fun _ => rfl⟩
              (fun n hn w hw => ?_) (fun n hn _ => .inl ?_) .inl (.inr ⟨rfl, rfl⟩)
            · rw [hv] at hw
              cases hw
              rw [heach n hn]
              exact update_self ..
            · rw [heach n hn]
              exact ne_of_eq_of_ne (update_self ..) (Option.some_ne_none v)

/-! ## The outer loop -/

/-- One more level of names is resolved in a pass. -/
theorem Passed.resolve_le {k : Nat} (h : Passed defs value defs s s')
    (hk : Part (resolve defs k) s.names) : Part (resolve defs (k + 1)) s'.names := by
  intro name v hv
  obtain ⟨t, ht, hv⟩ := Option.bind_eq_some_iff.1 hv
  exact h.resolved t (mem_of_find?_eq_some ht) name (nameOf_of_definition ht) v
    (valueAt_mono hk hv)

theorem resolve_of_hasValue {name : Text} (hnodup : (defs.filterMap nameOf).Nodup) (ht : t ∈ defs)
    (hname : nameOf t = some name) (hv : HasValue defs t v) : ∃ k, resolve defs k name = some v := by
  obtain ⟨k, hk⟩ := hv
  exact ⟨k + 1, Option.bind_eq_some_iff.2 ⟨t, definition_of_mem hnodup ht hname, hk⟩⟩

/-- After a pass over a table with a named identifier `result` is null. -/
theorem Passed.result_none (h : Passed defs value defs ⟨names, false, none, result⟩ s')
    (hnamed : ∃ t ∈ defs, nameOf t ≠ none) (hresult : result.bind id = none)
    (hinit : result ≠ none ∨ ∀ name, names name = none) : s'.result = some none := by
  rcases hinit with hinit | hinit
  · rcases h.result with heq | heq
    · rw [heq]
      obtain ⟨r, rfl⟩ := Option.ne_none_iff_exists'.1 hinit
      exact congrArg some hresult
    · exact heq
  · obtain ⟨t, ht, hname⟩ := hnamed
    obtain ⟨name, hname⟩ := Option.ne_none_iff_exists'.1 hname
    exact (h.tried t ht name hname (hinit name)).1

/-- When nothing is left to be resolved and the value was not found, there is no sibling to return. -/
theorem Passed.right (hnodup : (defs.filterMap nameOf).Nodup) (h : Passed defs value defs s s')
    (hproblem : s'.problem = none) : Right defs value none := by
  by_cases hany : ∃ t ∈ defs, Named defs t value
  · obtain ⟨t, ht, hnamed, hvalue⟩ := hany
    obtain ⟨name, hname⟩ := Option.ne_none_iff_exists'.1 hnamed
    obtain ⟨before, after, hdefs⟩ := append_of_mem ht
    have hsome := h.complete hproblem t ht name hname hvalue.components_ne_nil
    obtain ⟨w, hw⟩ := Option.ne_none_iff_exists'.1 hsome
    obtain ⟨j, hj⟩ := h.sound name w hw
    obtain ⟨k, hk⟩ := resolve_of_hasValue hnodup ht hname hvalue
    rw [resolve_unique hj hk] at hw
    have hlast := h.searched before t after name hdefs hname hw
    refine .inl ⟨before, t, after, hdefs, ⟨hnamed, hvalue⟩, ?_⟩
    rw [hlast]
    rfl
  · exact .inr ⟨hany, rfl⟩

theorem Found.right (h : Found defs value s') :
    ∃ p, s'.result = some (some p) ∧ Right defs value (some p) := by
  obtain ⟨before, t, t', after, hdefs, hnamed, hresult⟩ := h
  exact ⟨forest (t' :: after) ++ [], hresult, .inl ⟨before, t, t' :: after, hdefs, hnamed, rfl⟩⟩

section

variable (hnodup : (defs.filterMap nameOf).Nodup)

include hnodup

/-- One pass of the outer loop: it returns what it has found, or it ends when there is no problem and
goes on when there is one. -/
theorem searchLoop_step (hconstants : ∀ t ∈ defs, ∀ c ∈ t.children, c.row.kind = .constant → c.row.value ≠ none)
    (hsound : Sound defs names) (hsearched : Searched defs value names) (hresult : result.bind id = none) :
    (∃ p, Right defs value (some p) ∧
        ∀ fuel, searchLoop value (places [] defs) (fuel + 1) names result = .returned (some p)) ∨
      ∃ s', Passed defs value defs ⟨names, false, none, result⟩ s' ∧
        (s'.problem = none → ∀ fuel r, s'.result = some r →
          searchLoop value (places [] defs) (fuel + 1) names result = .returned r) ∧
        (s'.problem ≠ none → ∀ fuel, searchLoop value (places [] defs) (fuel + 1) names result =
          searchLoop value (places [] defs) fuel s'.names s'.result) := by
  rcases pass_cases (s := ⟨names, false, none, result⟩) hnodup hconstants [] rfl hsound
    hsearched with h | h
  · obtain ⟨p, hp, hright⟩ := h.right
    refine .inl ⟨p, hright, fun fuel => ?_⟩
    rw [searchLoop]
    rw [hp, if_pos (.inr (show ((some (some p)).bind id).isSome = true from rfl))]
  · refine .inr ⟨_, h, fun hproblem fuel r hr => ?_, fun hproblem fuel => ?_⟩
    · rw [searchLoop]
      rw [if_pos (.inl hproblem), hr]
    · have hnone : ((pass value (places [] defs) ⟨names, false, none, result⟩).result.bind id) =
          none := by
        rcases h.result with heq | heq
        · rw [heq]
          exact hresult
        · rw [heq]
          rfl
      have hprogress : (pass value (places [] defs) ⟨names, false, none, result⟩).progress = true := by
        rcases h.problem hproblem with hold | ⟨t, ht, name, hname, -, hnew⟩
        · exact absurd rfl hold
        · exact (h.tried t ht name hname hnew).2
      rw [searchLoop]
      rw [if_neg, if_neg]
      · rw [hprogress]
        exact fun h => by cases h
      · rintro (hp | hp)
        · exact hproblem hp
        · rw [hnone] at hp
          cases hp

/-- When all names are resolved that can be, there is no problem any more. -/
theorem Passed.problem_none {K : Nat}
    (hK : ∀ k, Part (resolve defs k) (resolve defs K)) (hresolvable : Resolvable defs value)
    (h : Passed defs value defs ⟨names, false, none, result⟩ s') (hlevel : Part (resolve defs K) names) :
    s'.problem = none := by
  by_contra hproblem
  have hknown : ∀ t ∈ defs, ∀ name, nameOf t = some name → ∀ v, HasValue defs t v →
      names name = some v := by
    intro t ht name hname v hv
    obtain ⟨k, hk⟩ := resolve_of_hasValue hnodup ht hname hv
    exact hlevel name v (hK k name v hk)
  rcases h.problem hproblem with hold | ⟨t, ht, name, hname, hne, hnew⟩
  · exact hold rfl
  · rcases hresolvable.2 with hall | ⟨before, t₀, t', after, hdefs, hnamed, hvalue⟩
    · obtain ⟨v, hv⟩ := hall t ht (by rw [hname]; exact Option.some_ne_none name) hne
      have hsome := hknown t ht name hname v hv
      have hnew : names name = none := hnew
      rw [hsome] at hnew
      cases hnew
    · obtain ⟨name₀, hname₀⟩ := Option.ne_none_iff_exists'.1 hnamed
      have hmem : t₀ ∈ defs := by
        rw [hdefs]
        exact mem_append_right before mem_cons_self
      have hsome := h.part name₀ value (hknown t₀ hmem name₀ hname₀ value hvalue)
      exact absurd (h.searched before t₀ (t' :: after) name₀ hdefs hname₀ hsome)
        (cons_ne_nil t' after)

/-- With `j` levels left below the last one, the loop ends and returns what it should. -/
theorem searchLoop_right
    (hconstants : ∀ t ∈ defs, ∀ c ∈ t.children, c.row.kind = .constant → c.row.value ≠ none) {K : Nat}
    (hK : ∀ k, Part (resolve defs k) (resolve defs K)) (hresolvable : Resolvable defs value) (j : Nat)
    (hsound : Sound defs names) (hsearched : Searched defs value names)
    (hlevel : Part (resolve defs (K - j)) names) (hresult : result.bind id = none)
    (hinit : result ≠ none ∨ ∀ name, names name = none) :
    ∃ fuel r, searchLoop value (places [] defs) fuel names result = .returned r ∧
      Right defs value r := by
  induction j generalizing names result with
  | zero =>
    rcases searchLoop_step hnodup hconstants hsound hsearched hresult with
      ⟨p, hright, hloop⟩ | ⟨s', h, hend, -⟩
    · exact ⟨1, some p, hloop 0, hright⟩
    · have hproblem := h.problem_none hnodup hK hresolvable hlevel
      exact ⟨1, none, hend hproblem 0 none (h.result_none hresolvable.1 hresult hinit),
        h.right hnodup hproblem⟩
  | succ j ih =>
    rcases searchLoop_step hnodup hconstants hsound hsearched hresult with
      ⟨p, hright, hloop⟩ | ⟨s', h, hend, hgo⟩
    · exact ⟨1, some p, hloop 0, hright⟩
    · have hnone := h.result_none hresolvable.1 hresult hinit
      by_cases hproblem : s'.problem = none
      · exact ⟨1, none, hend hproblem 0 none hnone, h.right hnodup hproblem⟩
      · have hnext : Part (resolve defs (K - j)) s'.names := fun name v hv =>
          h.resolve_le hlevel name v (resolve_mono (by omega) name v hv)
        have hbind : s'.result.bind id = none := by
          rw [hnone]
          rfl
        have hset : s'.result ≠ none := by
          rw [hnone]
          exact Option.some_ne_none none
        obtain ⟨fuel, r, hrun, hright⟩ := ih h.sound h.searched hnext hbind (.inl hset)
        exact ⟨fuel + 1, r, (hgo hproblem fuel).trans hrun, hright⟩

/-- A name that is never resolved, and no sibling to return: the loop does not end. -/
theorem searchLoop_running
    (hconstants : ∀ t ∈ defs, ∀ c ∈ t.children, c.row.kind = .constant → c.row.value ≠ none) (ht : t ∈ defs)
    {name : Text} (hname : nameOf t = some name) (hne : components t ≠ [])
    (hnever : ¬ ∃ v, HasValue defs t v)
    (hno : ¬ ∃ before t t' after, defs = before ++ t :: t' :: after ∧ Named defs t value)
    (hsound : Sound defs names) (hsearched : Searched defs value names) (hresult : result.bind id = none)
    (fuel : Nat) :
    searchLoop value (places [] defs) fuel names result = .running := by
  induction fuel generalizing names result with
  | zero => rfl
  | succ fuel ih =>
    rcases searchLoop_step hnodup hconstants hsound hsearched hresult with
      ⟨p, hright, -⟩ | ⟨s', h, -, hgo⟩
    · exfalso
      rcases hright with ⟨before, t₀, after, hdefs, hnamed, hp⟩ | ⟨-, hp⟩
      · cases after with
        | nil => cases hp
        | cons t' after => exact hno ⟨before, t₀, t', after, hdefs, hnamed⟩
      · cases hp
    · have hproblem : s'.problem ≠ none := by
        intro hproblem
        obtain ⟨v, hv⟩ := Option.ne_none_iff_exists'.1 (h.complete hproblem t ht name hname hne)
        obtain ⟨k, hk⟩ := h.sound name v hv
        cases k with
        | zero => cases hk
        | succ k =>
          obtain ⟨t', ht', hv'⟩ := Option.bind_eq_some_iff.1 hk
          rw [definition_of_mem hnodup ht hname] at ht'
          cases ht'
          exact hnever ⟨v, k, hv'⟩
      rw [hgo hproblem fuel]
      refine ih h.sound h.searched ?_
      rcases h.result with heq | heq
      · rw [heq]
        exact hresult
      · rw [heq]
        rfl

end

/-- Without a named identifier nothing is tried. -/
theorem pass_of_unnamed (hno : ¬ ∃ t ∈ ts, nameOf t ≠ none) : pass value (places [] ts) s = s := by
  induction ts with
  | nil => rfl
  | cons t after ih =>
    have hname : nameOf t = none := by
      by_contra hname
      exact hno ⟨t, mem_cons_self, hname⟩
    rw [places, pass, oidName_forest, hname]
    refine ih ?_
    rintro ⟨t', ht', hname'⟩
    exact hno ⟨t', mem_cons_of_mem t ht', hname'⟩

theorem matchOidInDefinitions_eq (table : Table) (fuel : Nat) (value : Text) :
    matchOidInDefinitions fuel table.rows value =
      searchLoop value (places [] table.defs) fuel (fun _ => none) none := by
  have hfirst : adefFirstChild table.rows = pointer table.defs [] := by
    have hroot := adefFirstChild_forest (.mk table.root table.defs) [] []
    simp only [forest, append_nil] at hroot
    exact hroot
  rw [matchOidInDefinitions, hfirst, siblings_forest]

/-- The lookup ends and returns the sibling after the identifier with the value, or null if there is
none, exactly if the table has a named identifier and either each of them is resolved or the sibling is
there. -/
theorem lookup_right_iff (table : Table) (value : Text) :
    (∃ fuel r, matchOidInDefinitions fuel table.rows value = .returned r ∧
        Right table.defs value r) ↔ Resolvable table.defs value := by
  have hsound : Sound table.defs fun _ => none := fun name v h => by cases h
  have hsearched : Searched table.defs value fun _ => none := fun _ _ _ _ _ _ h => by cases h
  constructor
  · rintro ⟨fuel, r, hrun, hright⟩
    rw [matchOidInDefinitions_eq] at hrun
    refine ⟨?_, or_iff_not_imp_right.2 fun hno t ht hnamed hne => ?_⟩
    · by_contra hno
      cases fuel with
      | zero => cases hrun
      | succ fuel =>
        rw [searchLoop, pass_of_unnamed hno, if_pos (.inl rfl)] at hrun
        cases hrun
    · by_contra hnever
      obtain ⟨name, hname⟩ := Option.ne_none_iff_exists'.1 hnamed
      rw [searchLoop_running table.names_nodup table.constants ht hname hne hnever hno hsound
        hsearched rfl] at hrun
      cases hrun
  · intro hresolvable
    obtain ⟨K, hK⟩ := exists_last_level table.defs
    obtain ⟨fuel, r, hrun, hright⟩ := searchLoop_right table.names_nodup table.constants hK
      hresolvable K hsound hsearched (by rw [Nat.sub_self]; exact fun _ _ h => by cases h)
      (rfl : (none : Option (Option (List Row))).bind id = none) (.inr fun _ => rfl)
    exact ⟨fuel, r, (matchOidInDefinitions_eq table fuel value).trans hrun, hright⟩

/-! ### A name that is not defined -/

/-- `a OBJECT IDENTIFIER ::= { b 1 }` -/
def danglingIdentifier : Tree :=
  .mk { name := some [0x61], kind := .objectId }
    [.mk { kind := .constant, value := some [0x62] } [],
      .mk { kind := .constant, value := some [0x31] } []]

/-- A table with that definition only. -/
def danglingTable : Table where
  root := { kind := .definitions }
  defs := [danglingIdentifier]
  names_nodup := nodup_singleton _
  constants := by
    intro t ht c hc hkind
    rw [mem_singleton.1 ht] at hc
    simp only [danglingIdentifier, Tree.children, mem_cons, not_mem_nil, or_false] at hc
    rcases hc with rfl | rfl
    · exact Option.some_ne_none _
    · exact Option.some_ne_none _

theorem dangling_never (v : Text) : ¬ HasValue danglingTable.defs danglingIdentifier v := by
  rintro ⟨k, hk⟩
  obtain ⟨-, vs, hvs, -⟩ := valueAt_eq_some.1 hk
  obtain ⟨w, ws, hw, -⟩ := valuesAt_cons_eq_some.1 hvs
  cases k with
  | zero => cases hw
  | succ k => cases hw

/-- The lookup of `1` does not end. -/
theorem undefined_name_loops :
    ¬ ∃ fuel r, matchOidInDefinitions fuel danglingTable.rows [0x31] = .returned r ∧
      Right danglingTable.defs [0x31] r := by
  rintro ⟨fuel, r, hrun, -⟩
  have hno : ¬ ∃ before t t' after, danglingTable.defs = before ++ t :: t' :: after ∧
      Named danglingTable.defs t [0x31] := by
    rintro ⟨before, t, t', after, hdefs, -⟩
    have hlength := congrArg List.length hdefs
    rw [length_append, length_cons, length_cons] at hlength
    change 1 = _ at hlength
    omega
  rw [matchOidInDefinitions_eq, searchLoop_running danglingTable.names_nodup
    danglingTable.constants mem_cons_self (rfl : nameOf danglingIdentifier = some [0x61])
    (cons_ne_nil _ _)
    (fun ⟨v, hv⟩ => dangling_never v hv) hno (fun _ _ h => by cases h)
    (fun _ _ _ _ _ _ h => by cases h) rfl] at hrun
  cases hrun

end MateKeyring.Asn1x.Tables
