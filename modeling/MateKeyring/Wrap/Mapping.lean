import Mathlib.Data.List.Forall2
import Mathlib.Data.List.Nodup
import MateKeyring.Wrap.Layer

/-!
# The mapping of the wrap layer

The invariant `WellMapped` ties what the callers hold to the tables of the wrap layer: while an array
of mappings is installed its entries are numbered from `PLEX_MAPPING_OFFSET` on and its length is
the count; the sessions of the table and the handles the callers hold correspond one to one; and
every handle stands for a session that is open below.

The invariant is kept by every call that is `Guarded`: the slot id does not lie directly behind the
last one, after a `wrap_C_Finalize` the slot list is only counted, sessions are not closed
wholesale while there is no table, and the counter has not come round to a handle in use.
-/

set_option autoImplicit false

namespace MateKeyring.Wrap

open List
open Rpc (CkRv ckrOk ckrBufferTooSmall)

variable {mappings : List Mapping} {sessions : List Session} {s : System}

/-! ## The invariant -/

/-- The slot ids of an array of mappings. -/
def Numbered (mappings : List Mapping) : Prop :=
  ∀ i m, mappings[i]? = some m → m.wrapSlot = i + plexMappingOffset

/-- What a caller holds is this session, in the module of its mapping. -/
structure Placed (mappings : List Mapping) (sess : Session) (g : Given) : Prop where
  key : sess.wrapSession < 2 ^ 32
  handle : g.handle = toUlong sess.wrapSession
  session : g.session = sess.realSession
  slot : plexMappingOffset ≤ sess.wrapSlot
  mapping : ∃ m, mappings[sess.wrapSlot - plexMappingOffset]? = some m ∧ m.funcs = g.funcs

/-- The array and the session table of a layer in use. -/
structure Installed (s : System) (mappings : List Mapping) (sessions : List Session) : Prop where
  array : s.layer.wrapMappings = some mappings
  count : s.layer.nWrapMappings = mappings.length
  numbered : Numbered mappings
  table : s.layer.wrapSessions = some sessions
  placed : List.Forall₂ (Placed mappings) sessions s.given
  keys : (sessions.map Session.wrapSession).Nodup

/-- Nothing is held while no array is installed. -/
structure Unused (s : System) : Prop where
  array : s.layer.wrapMappings = none
  given : s.given = []
  table : ∀ sessions, s.layer.wrapSessions = some sessions → sessions = []

/-- The invariant. -/
structure WellMapped (s : System) : Prop where
  layer : Unused s ∨ ∃ mappings sessions, Installed s mappings sessions
  isOpen : ∀ g ∈ s.given, (g.funcs, g.session) ∈ s.lower
  distinct : (s.given.map fun g => (g.funcs, g.session)).Nodup

theorem wellMapped_start (modules : List Funcs) : WellMapped (start modules) :=
  ⟨.inl ⟨rfl, rfl, fun _ h => by simp [start] at h⟩, by simp [start], by simp [start]⟩

/-! ## Numbering -/

theorem numbered_snoc (h : Numbered mappings) (slot : Nat) (funcs : Funcs) :
    Numbered (mappings ++ [⟨mappings.length + plexMappingOffset, slot, funcs⟩]) := by
  intro i m hm
  rcases Nat.lt_trichotomy i mappings.length with hi | hi | hi
  · rw [getElem?_append_left hi] at hm
    exact h i m hm
  · subst hi
    simp only [getElem?_concat_length, Option.some.injEq] at hm
    rw [← hm]
  · rw [getElem?_eq_none (by simp; omega)] at hm
    simp at hm

theorem numbered_addSlots (funcs : Funcs) (slots : List Nat) (h : Numbered mappings) :
    Numbered (addSlots funcs slots mappings) := by
  induction slots generalizing mappings with
  | nil => exact h
  | cons slot slots ih => exact ih (numbered_snoc h slot funcs)

theorem numbered_initModules (answer : Nat → InitAnswer) (modules : List Funcs) (i : Nat)
    (h : Numbered mappings) :
    Numbered (initModules answer modules i mappings).2.1 := by
  induction modules generalizing i mappings with
  | nil => exact h
  | cons funcs rest ih =>
    unfold initModules
    dsimp only
    split
    · exact h
    split
    · exact h
    split
    · exact ih _ h
    split
    · exact h
    · exact ih _ (numbered_addSlots funcs _ h)

/-! ## Sessions of the table -/

theorem forall₂_mem_right {α β : Type} {R : α → β → Prop} {xs : List α} {ys : List β}
    (h : List.Forall₂ R xs ys) {y : β} (hy : y ∈ ys) : ∃ x ∈ xs, R x y := by
  induction h with
  | nil => simp at hy
  | cons hxy _ ih =>
    rcases mem_cons.1 hy with rfl | hrest
    · exact ⟨_, by simp, hxy⟩
    · obtain ⟨x, hx, hr⟩ := ih hrest
      exact ⟨x, by simp [hx], hr⟩

theorem Installed.mapSlot (h : Installed s mappings sessions) {sess : Session} {g : Given}
    (hp : Placed mappings sess g) :
    ∃ m, mapSlotUnlocked s.layer sess.wrapSlot = .ok (.ok m) ∧ m.funcs = g.funcs := by
  obtain ⟨m, hm, hfuncs⟩ := hp.mapping
  have hlt : sess.wrapSlot - plexMappingOffset < mappings.length :=
    (List.getElem?_eq_some_iff.1 hm).1
  have hlow : ¬ sess.wrapSlot < plexMappingOffset := by
    have := hp.slot
    omega
  have hhigh : ¬ sess.wrapSlot - plexMappingOffset > s.layer.nWrapMappings := by
    rw [h.count]
    omega
  refine ⟨m, ?_, hfuncs⟩
  simp only [mapSlotUnlocked, h.array, if_neg hlow, if_neg hhigh, hm]

theorem lookup_eq_some {sess : Session} (hkeys : (sessions.map Session.wrapSession).Nodup)
    (hmem : sess ∈ sessions) :
    lookup sessions sess.wrapSession = some sess := by
  induction sessions with
  | nil => simp at hmem
  | cons first rest ih =>
    rw [map_cons, nodup_cons] at hkeys
    rcases mem_cons.1 hmem with rfl | hrest
    · simp [lookup]
    · have hne : first.wrapSession ≠ sess.wrapSession := by
        intro he
        exact hkeys.1 (he ▸ mem_map_of_mem hrest)
      simp only [lookup, find?_cons, hne, decide_false]
      exact ih hkeys.2 hrest

section

variable (h : Installed s mappings sessions)

include h

/-- A handle that a caller holds leads to its session. -/
theorem Installed.reaches {g : Given} (hg : g ∈ s.given) :
    ∃ m, mapSessionToReal s.layer g.handle = .ok (.ok (g.session, m)) ∧ m.funcs = g.funcs := by
  obtain ⟨sess, hsess, hp⟩ := forall₂_mem_right h.placed hg
  obtain ⟨m, hm, hfuncs⟩ := h.mapSlot hp
  refine ⟨m, ?_, hfuncs⟩
  have hkey : lookup sessions (toGint g.handle) = some sess := by
    rw [hp.handle, toGint_toUlong hp.key]
    exact lookup_eq_some h.keys hsess
  simp [mapSessionToReal, h.table, hkey, hm, hp.session]

/-- A handle is refused when no caller holds it, and otherwise leads to a session that is held. -/
theorem Installed.mapSession (handle : Nat) :
    ((∃ rv, mapSessionToReal s.layer handle = .ok (.error rv)) ∧
        ∀ g ∈ s.given, toGint g.handle ≠ toGint handle) ∨
      ∃ g ∈ s.given, ∃ m, toGint g.handle = toGint handle ∧ m.funcs = g.funcs ∧
        mapSessionToReal s.layer handle = .ok (.ok (g.session, m)) := by
  cases hl : lookup sessions (toGint handle) with
  | none =>
    refine .inl ⟨⟨ckrSessionHandleInvalid, by simp [mapSessionToReal, h.table, hl]⟩, ?_⟩
    intro g hg he
    obtain ⟨sess, hsess, hp⟩ := forall₂_mem_right h.placed hg
    have hfound := lookup_eq_some h.keys hsess
    rw [← toGint_toUlong hp.key, ← hp.handle, he, hl] at hfound
    simp at hfound
  | some sess =>
    have hmem := mem_of_find?_eq_some hl
    have hkey : sess.wrapSession = toGint handle := by simpa using find?_some hl
    obtain ⟨g, hg, hp⟩ := forall₂_mem_right h.placed.flip hmem
    obtain ⟨m, hm, hfuncs⟩ := h.mapSlot hp
    refine .inr ⟨g, hg, m, ?_, hfuncs, ?_⟩
    · rw [hp.handle, toGint_toUlong hp.key, hkey]
    · simp [mapSessionToReal, h.table, hl, hm, hp.session]

/-! ## Closing -/

theorem Installed.filter (key : Nat) :
    List.Forall₂ (Placed mappings) (sessions.filter fun sess => sess.wrapSession ≠ key)
      (s.given.filter fun g => toGint g.handle ≠ key) := by
  refine rel_filter ?_ h.placed
  intro sess g hp
  dsimp only
  rw [hp.handle, toGint_toUlong hp.key]

/-- What closing a handle does to a layer in use: the handle or the module refuses and nothing
changes, or the session of the handle is closed. -/
theorem Installed.closeSession_cases (handle : Nat) (rv : CkRv) :
    (closeSession s handle rv = .ok s ∧
        (rv = ckrOk → ∀ g ∈ s.given, toGint g.handle ≠ toGint handle)) ∨
      ∃ g ∈ s.given, toGint g.handle = toGint handle ∧ closeSession s handle rv = .ok
        { layer := { s.layer with
            wrapSessions := some (sessions.filter fun sess => sess.wrapSession ≠ toGint handle) }
          lower := s.lower.filter (· ≠ (g.funcs, g.session))
          given := s.given.filter fun g => toGint g.handle ≠ toGint handle } := by
  rcases h.mapSession handle with ⟨⟨rv', hrv⟩, hnone⟩ | ⟨g, hg, m, hkey, hfuncs, hm⟩
  · exact .inl ⟨by simp [closeSession, wrapCCloseSession, hrv], fun _ => hnone⟩
  · by_cases hok : rv = ckrOk
    · refine .inr ⟨g, hg, hkey, ?_⟩
      simp [closeSession, wrapCCloseSession, hm, hok, h.table, System.closed, hfuncs]
    · exact .inl ⟨by simp [closeSession, wrapCCloseSession, hm, hok], fun h => absurd h hok⟩

end

/-- Closing a handle does not fault, and keeps the invariant. -/
theorem WellMapped.closeSession (h : WellMapped s) (handle : Nat) (rv : CkRv) :
    ∃ s', Wrap.closeSession s handle rv = .ok s' ∧ WellMapped s' := by
  rcases h.layer with hun | ⟨mappings, sessions, hin⟩
  · refine ⟨s, ?_, h⟩
    cases hs : s.layer.wrapSessions with
    | none => simp [Wrap.closeSession, wrapCCloseSession, mapSessionToReal, hs]
    | some sessions =>
      simp [Wrap.closeSession, wrapCCloseSession, mapSessionToReal, hs, hun.table _ hs, lookup]
  · rcases hin.closeSession_cases handle rv with ⟨heq, -⟩ | ⟨g, hg, hkey, heq⟩
    · exact ⟨s, heq, h⟩
    · refine ⟨_, heq, .inr ⟨mappings, _, hin.array, hin.count, hin.numbered, rfl,
        hin.filter _, ?_⟩, ?_, ?_⟩
      · exact hin.keys.sublist (filter_sublist.map _)
      · intro g' hg'
        obtain ⟨hmem, hne⟩ := mem_filter.1 hg'
        refine mem_filter.2 ⟨h.isOpen g' hmem, ?_⟩
        -- another session of the table is another session below
        have hdiff : (g'.funcs, g'.session) ≠ (g.funcs, g.session) := by
          intro he
          have hgg : g' = g := inj_on_of_nodup_map h.distinct hmem hg he
          rw [hgg, hkey] at hne
          simp at hne
        exact decide_eq_true hdiff
      · exact h.distinct.sublist (filter_sublist.map _)

theorem WellMapped.closeSessions (h : WellMapped s) (rv : Nat → CkRv) (handles : List Nat) (i : Nat) :
    ∃ s', Wrap.closeSessions rv handles i s = .ok s' ∧ WellMapped s' := by
  induction handles generalizing i s with
  | nil => exact ⟨s, rfl, h⟩
  | cons handle handles ih =>
    obtain ⟨s', hs', hw⟩ := h.closeSession handle (rv i)
    obtain ⟨s'', hs'', hw'⟩ := ih hw (i + 1)
    exact ⟨s'', by simp [Wrap.closeSessions, hs', hs''], hw'⟩

/-! ## Opening -/

/-- The counter has come round to a handle in use. -/
def Collides (w : WrapLayer) : Prop :=
  ∃ sessions, w.wrapSessions = some sessions ∧
    toGint (w.lastHandle + 1) ∈ sessions.map Session.wrapSession

/-- The slot id lies directly behind the last one of the array. -/
def Behind (w : WrapLayer) (id : Nat) : Prop :=
  w.wrapMappings.isSome ∧ id = w.nWrapMappings + plexMappingOffset

/-- A slot id that is in the array or is refused. -/
theorem Installed.mapSlot_cases (h : Installed s mappings sessions) {id : Nat} (hid : ¬ Behind s.layer id) :
    (mapSlotUnlocked s.layer id = .ok (.error ckrSlotIdInvalid) ∧ ∀ m ∈ mappings, m.wrapSlot ≠ id) ∨
      ∃ m ∈ mappings, m.wrapSlot = id ∧ plexMappingOffset ≤ id ∧
        mappings[id - plexMappingOffset]? = some m ∧ mapSlotUnlocked s.layer id = .ok (.ok m) := by
  have hne : id ≠ mappings.length + plexMappingOffset := by
    intro he
    exact hid ⟨by simp [h.array], by rw [h.count, he]⟩
  have hslots : ∀ m ∈ mappings, m.wrapSlot = id →
      plexMappingOffset ≤ id ∧ id - plexMappingOffset < mappings.length := by
    intro m hm he
    obtain ⟨i, hi⟩ := getElem?_of_mem hm
    have hlt := (List.getElem?_eq_some_iff.1 hi).1
    have hnum := h.numbered i m hi
    omega
  by_cases hlow : id < plexMappingOffset
  · refine .inl ⟨by simp only [mapSlotUnlocked, h.array, if_pos hlow], ?_⟩
    intro m hm he
    have := (hslots m hm he).1
    omega
  · by_cases hhigh : id - plexMappingOffset < mappings.length
    · have hget := getElem?_eq_getElem hhigh
      have hgt : ¬ id - plexMappingOffset > s.layer.nWrapMappings := by
        rw [h.count]
        omega
      refine .inr ⟨_, getElem_mem hhigh, ?_, by omega, hget, ?_⟩
      · rw [h.numbered _ _ hget]
        omega
      · simp only [mapSlotUnlocked, h.array, if_neg hlow, if_neg hgt, hget]
    · have hgt : id - plexMappingOffset > s.layer.nWrapMappings := by
        rw [h.count]
        omega
      refine .inl ⟨by simp only [mapSlotUnlocked, h.array, if_neg hlow, if_pos hgt], ?_⟩
      intro m hm he
      have := (hslots m hm he).2
      omega

theorem toGint_lt (n : Nat) : toGint n < 2 ^ 32 := Nat.mod_lt _ (by decide)

/-- What opening a session does: nothing when the slot is refused or the module refuses, otherwise
a session of the module is added under a new handle. -/
theorem WellMapped.openSession (h : WellMapped s) {id flags : Nat} {a : OpenAnswer}
    (hid : ¬ Behind s.layer id) (hfresh : ∀ m, mapSlotUnlocked s.layer id = .ok (.ok m) → a.rv = ckrOk →
      (m.funcs, a.session) ∉ s.lower)
    (hcounter : ∀ m, mapSlotUnlocked s.layer id = .ok (.ok m) → a.rv = ckrOk → ¬ Collides s.layer) :
    ∃ s', Wrap.openSession s id flags a = .ok s' ∧ WellMapped s' := by
  rcases h.layer with hun | ⟨mappings, sessions, hin⟩
  · refine ⟨s, ?_, h⟩
    simp [Wrap.openSession, wrapCOpenSession, mapSlotUnlocked, hun.array]
  · rcases hin.mapSlot_cases hid with ⟨hmap, -⟩ | ⟨m, hm, hslot, hlow, hget, hmap⟩
    · exact ⟨s, by simp [Wrap.openSession, wrapCOpenSession, hmap], h⟩
    · by_cases hok : a.rv = ckrOk
      · have hnot := hfresh m hmap hok
        have hkey : toGint (s.layer.lastHandle + 1) ∉ sessions.map Session.wrapSession :=
          fun hmem => hcounter m hmap hok ⟨sessions, hin.table, hmem⟩
        have hreplace : replace sessions (newSession s.layer flags m a) =
            newSession s.layer flags m a :: sessions := by
          rw [replace, filter_eq_self.2]
          intro sess hsess
          refine decide_eq_true fun he => hkey ?_
          rw [← show sess.wrapSession = toGint (s.layer.lastHandle + 1) from he]
          exact mem_map_of_mem hsess
        refine ⟨_, by
          simp [Wrap.openSession, wrapCOpenSession, hmap, hok, hin.table, hreplace]; rfl, ?_⟩
        refine ⟨.inr ⟨mappings, newSession s.layer flags m a :: sessions, hin.array, hin.count,
          hin.numbered, rfl, ?_, ?_⟩, ?_, ?_⟩
        · refine List.Forall₂.cons ⟨toGint_lt _, rfl, rfl, ?_, m, ?_, rfl⟩ hin.placed
          · rw [newSession, hslot]
            exact hlow
          · rw [newSession, hslot]
            exact hget
        · rw [map_cons, nodup_cons]
          exact ⟨hkey, hin.keys⟩
        · intro g hg
          rcases mem_cons.1 hg with rfl | hrest
          · exact mem_cons_self
          · exact mem_cons_of_mem _ (h.isOpen g hrest)
        · rw [map_cons, nodup_cons]
          refine ⟨?_, h.distinct⟩
          intro hmem
          obtain ⟨g, hg, he⟩ := mem_map.1 hmem
          exact hnot (he ▸ h.isOpen g hg)
      · exact ⟨s, by simp [Wrap.openSession, wrapCOpenSession, hmap, hok], h⟩

/-! ## Starting and stopping -/

/-- What `wrap_C_Initialize` does: nothing to the layer, or it installs a numbered array. -/
theorem wrapCInitialize_cases (w : WrapLayer) (answer : Nat → InitAnswer) :
    (wrapCInitialize w answer).2.2 = w ∧
        (w.wrapMappings.isSome = true → (wrapCInitialize w answer).2.1 = []) ∨
      w.wrapMappings = none ∧ ∃ mappings, Numbered mappings ∧ (wrapCInitialize w answer).2 =
        ([], { w with wrapMappings := handOver mappings, nWrapMappings := mappings.length,
                      wrapSessions := some [] }) := by
  unfold wrapCInitialize
  split
  · exact .inl ⟨rfl, fun _ => rfl⟩
  · rename_i hnone
    have hnum : Numbered (initModules answer w.wrapModules 0 []).2.1 :=
      numbered_initModules answer _ 0 (fun i m hm => by simp at hm)
    generalize initModules answer w.wrapModules 0 [] = r at hnum ⊢
    obtain ⟨rv, mappings, i⟩ := r
    dsimp only at hnum ⊢
    split
    · exact .inr ⟨by simpa using hnone, mappings, hnum, rfl⟩
    · exact .inl ⟨rfl, fun h => absurd h hnone⟩

/-- Without anything held, only the layer matters. -/
theorem wellMapped_of_given_nil (hgiven : s.given = [])
    (h : Unused s ∨ ∃ mappings sessions, Installed s mappings sessions) : WellMapped s :=
  ⟨h, by simp [hgiven], by simp [hgiven]⟩

theorem WellMapped.cInitialize (h : WellMapped s) (answer : Nat → InitAnswer) :
    ∃ s', step s (.cInitialize answer) = .ok s' ∧ WellMapped s' := by
  refine ⟨{ s with layer := (wrapCInitialize s.layer answer).2.2 }.finalizeLower
    (wrapCInitialize s.layer answer).2.1, rfl, ?_⟩
  rcases wrapCInitialize_cases s.layer answer with ⟨hlayer, hnil⟩ | ⟨hnone, mappings, hnum, heq⟩
  · rcases h.layer with hun | ⟨mappings, sessions, hin⟩
    · refine wellMapped_of_given_nil hun.given (.inl ⟨?_, hun.given, ?_⟩)
      · rw [System.finalizeLower, hlayer]
        exact hun.array
      · rw [System.finalizeLower, hlayer]
        exact hun.table
    · rw [hlayer, hnil (by simp [hin.array])]
      simpa [System.finalizeLower] using h
  · have hun : Unused s := by
      rcases h.layer with hun | ⟨mappings', sessions, hin⟩
      · exact hun
      · simp [hin.array] at hnone
    rw [heq]
    refine wellMapped_of_given_nil hun.given ?_
    by_cases hempty : mappings = []
    · refine .inl ⟨by simp [System.finalizeLower, handOver, hempty], hun.given, ?_⟩
      simp [System.finalizeLower]
    · refine .inr ⟨mappings, [], by simp [System.finalizeLower, handOver, hempty], rfl, hnum, rfl,
        ?_, by simp⟩
      simp [System.finalizeLower, hun.given]

theorem WellMapped.cFinalize : ∃ s', step s .cFinalize = .ok s' ∧ WellMapped s' :=
  ⟨_, rfl, .inl ⟨rfl, rfl, fun _ h => by simp [wrapCFinalize] at h⟩, by simp, by simp⟩

/-! ## The slot list -/

theorem Installed.mappingAt (h : Installed s mappings sessions) {i : Nat} (hi : i < mappings.length) :
    Wrap.mappingAt s.layer i = .ok mappings[i] := by
  simp [Wrap.mappingAt, h.array, hi]

theorem Installed.slotInfo (h : Installed s mappings sessions) (tokenPresent : Bool)
    (info : Nat → CkRv × Bool) {i : Nat} (hi : i < mappings.length) :
    Wrap.slotInfo s.layer tokenPresent info i = .ok (if tokenPresent then info i else (ckrOk, true)) := by
  cases tokenPresent with
  | false => rfl
  | true => simp [Wrap.slotInfo, h.mappingAt hi]

theorem Installed.slotListFrom (h : Installed s mappings sessions) (tokenPresent : Bool)
    (info : Nat → CkRv × Bool) (room fuel i index : Nat) (hi : i + fuel ≤ mappings.length) :
    ∃ r, Wrap.slotListFrom s.layer tokenPresent info room fuel i index = .ok r := by
  induction fuel generalizing i index with
  | zero => exact ⟨_, rfl⟩
  | succ fuel ih =>
    obtain ⟨r, hr⟩ := ih (i + 1) index (by omega)
    obtain ⟨r', hr'⟩ := ih (i + 1) (index + 1) (by omega)
    have hlt : i < mappings.length := by omega
    obtain ⟨answer, hanswer⟩ : ∃ answer, Wrap.slotInfo s.layer tokenPresent info i = .ok answer :=
      ⟨_, h.slotInfo tokenPresent info hlt⟩
    simp only [Wrap.slotListFrom, hanswer, h.mappingAt hlt, ok_bind, hr, hr']
    split
    · exact ⟨_, rfl⟩
    split
    · exact ⟨_, rfl⟩
    split
    · exact ⟨_, rfl⟩
    · exact ⟨_, rfl⟩

/-- Asked without regard to tokens, the list has the slots of the mappings there is room for. -/
theorem Installed.slotListFrom_all (h : Installed s mappings sessions) (info : Nat → CkRv × Bool)
    (room fuel i index : Nat) (hi : i + fuel = mappings.length) :
    Wrap.slotListFrom s.layer false info room fuel i index =
      .ok (ckrOk, ((mappings.drop i).map Mapping.wrapSlot).take (room - index), index + fuel) := by
  induction fuel generalizing i index with
  | zero =>
    rw [drop_eq_nil_of_le (by omega), map_nil, take_nil]
    rfl
  | succ fuel ih =>
    have hlt : i < mappings.length := by omega
    have hnext : index + 1 + fuel = index + (fuel + 1) := by omega
    simp only [Wrap.slotListFrom, h.slotInfo _ _ hlt, h.mappingAt hlt, ih (i + 1) (index + 1) (by omega), ok_bind,
      hnext]
    by_cases hroom : index < room
    · have hleft : room - index = room - (index + 1) + 1 := by omega
      rw [drop_eq_getElem_cons hlt, map_cons, hleft, take_succ_cons]
      simp [hroom]
    · have hleft : room - index = 0 := by omega
      have hleft' : room - (index + 1) = 0 := by omega
      simp [hroom, hleft, hleft']

/-- Without an array, a round that calls a module or writes a slot reads through the null pointer. -/
theorem slotListFrom_none {w : WrapLayer} (hw : w.wrapMappings = none) {tokenPresent : Bool}
    (info : Nat → CkRv × Bool) {room : Nat} (h : tokenPresent = true ∨ 0 < room) (fuel : Nat) :
    slotListFrom w tokenPresent info room (fuel + 1) 0 0 = .error .nullPointer := by
  have hat : mappingAt w 0 = .error .nullPointer := by rw [mappingAt, hw]
  cases tokenPresent with
  | true => simp [slotListFrom, slotInfo, hat]
  | false => simp [slotListFrom, slotInfo, hat, h.resolve_left Bool.false_ne_true]

/-- Only counting reads no array. -/
theorem slotListFrom_count (w : WrapLayer) (info : Nat → CkRv × Bool) (fuel i index : Nat) :
    slotListFrom w false info 0 fuel i index = .ok (ckrOk, [], index + fuel) := by
  induction fuel generalizing i index with
  | zero => rfl
  | succ fuel ih => simp [slotListFrom, slotInfo, ih, Nat.add_assoc, Nat.add_comm 1]

/-- `wrap_C_GetSlotList` lists the slot, when it is asked for all slots. -/
def Listed (w : WrapLayer) (id : Nat) : Prop :=
  ∃ info room slots count, wrapCGetSlotList w false info (some room) = .ok (ckrOk, slots, count) ∧
    id ∈ slots

/-- The checks of `map_slot_unlocked` let the slot through. -/
def Accepted (w : WrapLayer) (id : Nat) : Prop :=
  ∀ rv, mapSlotUnlocked w id ≠ .ok (.error rv)

theorem Installed.listed_iff (h : Installed s mappings sessions) (id : Nat) :
    Listed s.layer id ↔ ∃ m ∈ mappings, m.wrapSlot = id := by
  have hall : ∀ info room, Wrap.slotListFrom s.layer false info room s.layer.nWrapMappings 0 0 =
      .ok (ckrOk, (mappings.map Mapping.wrapSlot).take room, mappings.length) := by
    intro info room
    rw [h.slotListFrom_all info room _ 0 0 (by rw [h.count]; omega), drop_zero, h.count, Nat.sub_zero,
      Nat.zero_add]
  constructor
  · rintro ⟨info, room, slots, count, hlist, hmem⟩
    simp only [wrapCGetSlotList, hall, ok_bind, pure_eq_ok, Except.ok.injEq, Prod.mk.injEq,
      Option.getD_some] at hlist
    rw [← hlist.2.1] at hmem
    exact mem_map.1 (mem_of_mem_take hmem)
  · intro hmem
    refine ⟨fun _ => (ckrOk, true), mappings.length, mappings.map Mapping.wrapSlot,
      mappings.length, ?_, mem_map.2 hmem⟩
    simp only [wrapCGetSlotList, hall, ok_bind, pure_eq_ok, Option.getD_some]
    rw [take_of_length_le (by simp)]
    simp

/-- Outside the place behind the array, the slots accepted are the slots listed. -/
theorem WellMapped.accepted_iff (h : WellMapped s) {id : Nat} (hid : ¬ Behind s.layer id) :
    Accepted s.layer id ↔ Listed s.layer id := by
  rcases h.layer with hun | ⟨mappings, sessions, hin⟩
  · constructor
    · intro hacc
      exact absurd (by simp [mapSlotUnlocked, hun.array]) (hacc ckrCryptokiNotInitialized)
    · rintro ⟨info, room, slots, count, hlist, hmem⟩
      -- without an array the loop finds nothing: it is not entered, or it has no memory to read
      have hslots : slots = [] := by
        cases hn : s.layer.nWrapMappings with
        | zero =>
          simp [wrapCGetSlotList, hn, Wrap.slotListFrom] at hlist
          exact hlist.1
        | succ n =>
          rcases Nat.eq_zero_or_pos room with rfl | hroom
          · simp [wrapCGetSlotList, slotListFrom_count] at hlist
            exact hlist.2.1
          · simp [wrapCGetSlotList, hn, slotListFrom_none hun.array info (.inr hroom)] at hlist
      simp [hslots] at hmem
  · rw [hin.listed_iff]
    rcases hin.mapSlot_cases hid with ⟨hmap, hnone⟩ | ⟨m, hm, hslot, -, -, hmap⟩
    · constructor
      · intro hacc
        exact absurd hmap (hacc _)
      · rintro ⟨m, hm, he⟩
        exact absurd he (hnone m hm)
    · constructor
      · intro _
        exact ⟨m, hm, hslot⟩
      · intro _ rv hrv
        rw [hmap] at hrv
        simp at hrv

/-! ## Runs -/

/-- The slot id that a call passes. -/
def Call.slotId : Call → Option Nat
  | .cOpenSession id _ _ => some id
  | _ => none

/-- The modules below keep to the rule for sessions: one that is open is not given out again. -/
def Lawful (s : System) : Call → Prop
  | .cOpenSession id _ a => ∀ m, mapSlotUnlocked s.layer id = .ok (.ok m) → a.rv = ckrOk →
      (m.funcs, a.session) ∉ s.lower
  | _ => True

/-- The calls that the wrap layer carries out as it should. -/
def Guarded (s : System) : Call → Prop
  | .cGetSlotList tokenPresent _ slotList => s.layer.wrapMappings = none →
      s.layer.nWrapMappings = 0 ∨ tokenPresent = false ∧ slotList.getD 0 = 0
  | .cOpenSession id _ a => ¬ Behind s.layer id ∧
      ∀ m, mapSlotUnlocked s.layer id = .ok (.ok m) → a.rv = ckrOk → ¬ Collides s.layer
  | .cCloseAllSessions _ _ => s.layer.wrapSessions ≠ none
  | _ => True

/-- A state after some calls, each satisfying `C`. -/
inductive Reachable (modules : List Funcs) (C : System → Call → Prop) : System → Prop where
  | start : Reachable modules C (start modules)
  | step {s s' : System} {c : Call} (hs : Reachable modules C s) (hc : C s c)
      (h : step s c = .ok s') : Reachable modules C s'

/-- What the wrap layer promises for the call `c` in the state `s`: every access to the array stays
inside it, a slot id is accepted when it is listed, and each handle that a caller holds leads to the
session it was given for, which is another one for another handle. -/
structure MappingHolds (s : System) (c : Call) : Prop where
  inBounds : ∃ s', step s c = .ok s'
  slot : ∀ id, c.slotId = some id → (Accepted s.layer id ↔ Listed s.layer id)
  distinct : ∀ g ∈ s.given, ∀ g' ∈ s.given, g.handle ≠ g'.handle →
    (g.funcs, g.session) ≠ (g'.funcs, g'.session)
  reaches : ∀ g ∈ s.given, ∃ m,
    mapSessionToReal s.layer g.handle = .ok (.ok (g.session, m)) ∧ m.funcs = g.funcs

/-- A guarded call does not fault and keeps the invariant. -/
theorem WellMapped.step {s : System} (h : WellMapped s) {c : Call} (hl : Lawful s c)
    (hg : Guarded s c) : ∃ s', Wrap.step s c = .ok s' ∧ WellMapped s' := by
  cases c with
  | cInitialize answer => exact h.cInitialize answer
  | cFinalize => exact WellMapped.cFinalize
  | cGetSlotList tokenPresent info slotList =>
    refine ⟨s, ?_, h⟩
    have hlist : ∃ r, slotListFrom s.layer tokenPresent info (slotList.getD 0) s.layer.nWrapMappings 0 0 =
        .ok r := by
      rcases h.layer with hun | ⟨mappings, sessions, hin⟩
      · rcases hg hun.array with hnone | ⟨rfl, hroom⟩
        · rw [hnone]
          exact ⟨_, rfl⟩
        · rw [hroom]
          exact ⟨_, slotListFrom_count _ _ _ _ _⟩
      · exact hin.slotListFrom _ _ _ _ _ _ (by rw [hin.count]; omega)
    obtain ⟨r, hr⟩ := hlist
    simp [Wrap.step, wrapCGetSlotList, hr]
  | cOpenSession id flags a => exact h.openSession hg.1 hl hg.2
  | cCloseSession handle rv => exact h.closeSession handle rv
  | cCloseAllSessions id rv =>
    cases hs : s.layer.wrapSessions with
    | none => exact absurd hs hg
    | some sessions =>
      obtain ⟨s', hs', hw⟩ := h.closeSessions rv ((sessions.filter fun sess =>
        sess.appId ||| sess.wrapSlot = id).map fun sess => toUlong sess.wrapSession) 0
      exact ⟨s', by simpa [Wrap.step, closeAllSessions, toClose, hs] using hs', hw⟩

theorem Reachable.wellMapped {modules : List Funcs}
    (h : Reachable modules (fun s c => Lawful s c ∧ Guarded s c) s) : WellMapped s := by
  induction h with
  | start => exact wellMapped_start modules
  | step _ hc hstep ih =>
    obtain ⟨s', hs', hw⟩ := ih.step hc.1 hc.2
    rw [hstep] at hs'
    cases hs'
    exact hw

/-- In every run of guarded calls, over modules that do not give out an open session again, the
mapping of the wrap layer does what it promises at every guarded call. -/
theorem mapping_holds {modules : List Funcs} {s : System} {c : Call}
    (hs : Reachable modules (fun s c => Lawful s c ∧ Guarded s c) s) (hl : Lawful s c)
    (hg : Guarded s c) : MappingHolds s c := by
  have h := hs.wellMapped
  refine ⟨?_, ?_, ?_, ?_⟩
  · obtain ⟨s', hs', -⟩ := h.step hl hg
    exact ⟨s', hs'⟩
  · intro id hid
    cases c with
    | cOpenSession id' flags a =>
      cases hid
      exact h.accepted_iff hg.1
    | _ => simp [Call.slotId] at hid
  · intro g hg g' hg' hne he
    exact hne (congrArg Given.handle (inj_on_of_nodup_map h.distinct hg hg' he))
  · intro g hgiven
    rcases h.layer with hun | ⟨mappings, sessions, hin⟩
    · simp [hun.given] at hgiven
    · exact hin.reaches hgiven

/-- A module with the one slot `1`. -/
def sampleAnswer : InitAnswer := ⟨ckrOk, ckrOk, 1, ckrOk, [1]⟩

/-- The wrap layer over that module. -/
def sampleSystem : System :=
  { layer := ⟨[0], some [⟨0x10, 1, 0⟩], 1, some [], 16⟩, lower := [], given := [] }

theorem sampleSystem_step : step (start [0]) (.cInitialize fun _ => sampleAnswer) =
    .ok sampleSystem := rfl

/-- Opening a session on the slot. -/
def sampleOpen (id : Nat) : Call := .cOpenSession id 0x40000004 ⟨ckrOk, 7, 0x100, 0⟩

theorem sampleOpen_lawful (id : Nat) : Lawful sampleSystem (sampleOpen id) := by
  intro m _ _
  simp [sampleSystem]

/-- The wrap layer after that. -/
def sampleOpened : System :=
  { layer := ⟨[0], some [⟨0x10, 1, 0⟩], 1, some [⟨17, 7, 0x100, 0x10⟩], 17⟩
    lower := [(0, 7)], given := [⟨17, 0, 7⟩] }

/-- The wrap layer after another client opened a session, too. -/
def sampleShared : System :=
  { layer := ⟨[0], some [⟨0x10, 1, 0⟩], 1, some [⟨18, 8, 0x200, 0x10⟩, ⟨17, 7, 0x100, 0x10⟩], 18⟩
    lower := [(0, 8), (0, 7)], given := [⟨18, 0, 8⟩, ⟨17, 0, 7⟩] }

/-- Opening a session on the slot of the sample is guarded, while its handle and its session are new. -/
theorem sample_guarded {s : System} {a : OpenAnswer} (harray : s.layer.wrapMappings = some [⟨0x10, 1, 0⟩])
    (hcount : s.layer.nWrapMappings = 1) (hnew : (0, a.session) ∉ s.lower)
    (hcounter : toGint (s.layer.lastHandle + 1) ∉ (s.layer.wrapSessions.getD []).map Session.wrapSession)
    (flags : Nat) : Lawful s (.cOpenSession 0x10 flags a) ∧ Guarded s (.cOpenSession 0x10 flags a) := by
  refine ⟨fun m hm _ => ?_, by simp [Behind, hcount], fun m hm _ => ?_⟩
  · rw [mapSlotUnlocked, harray, hcount] at hm
    cases hm
    exact hnew
  · rintro ⟨sessions, hs, hmem⟩
    rw [hs] at hcounter
    exact hcounter hmem

theorem mapping_holds_sample :
    sampleShared.given.length = 2 ∧ MappingHolds sampleShared (.cOpenSession 0x10 4 ⟨ckrOk, 9, 0, 0⟩) := by
  have hstart : Reachable [0] (fun s c => Lawful s c ∧ Guarded s c) sampleSystem :=
    .step (c := .cInitialize fun _ => sampleAnswer) .start ⟨trivial, trivial⟩ sampleSystem_step
  have hopened : Reachable _ _ sampleOpened := hstart.step (c := sampleOpen 0x10)
    (sample_guarded rfl rfl (by decide) (by decide) _) rfl
  have hshared : Reachable _ _ sampleShared :=
    hopened.step (c := .cOpenSession 0x10 0x40000004 ⟨ckrOk, 8, 0x200, 0⟩)
      (sample_guarded rfl rfl (by decide) (by decide) _) rfl
  have hcall := sample_guarded (s := sampleShared) (a := ⟨ckrOk, 9, 0, 0⟩) rfl rfl (by decide) (by decide) 4
  exact ⟨rfl, mapping_holds hshared hcall.1 hcall.2⟩

/-- The slot id behind the last one is let through and read outside the array; after a
`wrap_C_Finalize` the slot list is read from the array that was freed. -/
theorem slot_behind_the_last :
    (∃ s c, Reachable [0] Lawful s ∧ Lawful s c ∧ step s c = .error .outOfBounds ∧
      ¬ MappingHolds s c) ∧
    ∃ s c, Reachable [0] Lawful s ∧ Lawful s c ∧ step s c = .error .nullPointer ∧
      ¬ MappingHolds s c := by
  have hsample : Reachable [0] Lawful sampleSystem :=
    .step (c := .cInitialize fun _ => sampleAnswer) .start trivial sampleSystem_step
  constructor
  · refine ⟨sampleSystem, sampleOpen 0x11, hsample, sampleOpen_lawful 0x11, rfl, ?_⟩
    rintro ⟨⟨s', hs'⟩, -, -, -⟩
    cases hs'
  · refine ⟨_, .cGetSlotList false (fun _ => (ckrOk, true)) (some 1),
      .step (c := .cFinalize) hsample trivial rfl, trivial, rfl, ?_⟩
    rintro ⟨⟨s', hs'⟩, -, -, -⟩
    cases hs'

end MateKeyring.Wrap
