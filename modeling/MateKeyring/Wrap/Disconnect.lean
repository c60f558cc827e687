import MateKeyring.Wrap.Mapping

/-!
# Clients of the daemon and the end of a connection

Every client of the socket is served by `run_dispatch_loop` over the wrap layer. The dispatcher marks
the sessions a client opens with its application id, which the first module it opens a session in
gives out, and adds that id to the slot of a `C_CloseAllSessions`. When the connection ends it
calls `C_CloseAllSessions` with the application id alone.

The wrap layer closes the sessions with `(app_id | wrap_slot) == id`. A slot id is never zero, so the
application id alone matches a session only when the bits of the slot are already in it
(`session_left_behind`).
-/

set_option autoImplicit false

namespace MateKeyring.Wrap

open List
open Rpc (CkRv ckrOk ckrBufferTooSmall)

variable {s : System} {k : Nat} {a : OpenAnswer}

/-! ## Serving requests -/

/-- The daemon: the wrap layer, the application id of each client, and which client opened each of
the sessions that are open. -/
structure Daemon where
  system : System
  applicationId : Nat → Nat
  owner : Given → Nat

/-- The requests that open or close sessions, with the answers of the modules below; the modules
answer `CKR_OK` when an open session is closed. `disconnect` is the end of the loop. -/
inductive Request where
  | cOpenSession (id flags : Nat) (answer : OpenAnswer)
  | cCloseSession (handle : Nat)
  | cCloseAllSessions (id : Nat)
  | cFinalize (info : Nat → CkRv × Bool)
  | disconnect

/-- `CKF_G_APPLICATION_SESSION`, which `rpc_C_OpenSession` adds to the flags. -/
abbrev ckfGApplicationSession : Nat := 0x40000000

/-- `C_CloseAllSessions` for one id after the other. -/
def closeEach : List Nat → System → Checked System
  | [], s => .ok s
  | id :: ids, s => do
      let s ← closeAllSessions s id fun _ => ckrOk
      closeEach ids s

/-- `rpc_C_Finalize`: the slots it closes the sessions of. -/
def finalizeSlots (w : WrapLayer) (info : Nat → CkRv × Bool) : Checked (List Nat) := do
  let (rv, _, nSlots) ← wrapCGetSlotList w true info none
  if rv ≠ ckrOk then pure []
  else do
    let (rv, slots, _) ← wrapCGetSlotList w true info (some nSlots)
    pure (if rv = ckrOk then slots else [])

/-- The application ids after `rpc_C_OpenSession`: the modules below are called, and may give one
out, only for a slot that is let through. -/
def Daemon.applicationIds (d : Daemon) (k : Nat) (a : OpenAnswer) : Except CkRv Mapping → Nat → Nat
  | .error _ => d.applicationId
  | .ok _ => Function.update d.applicationId k a.applicationId

/-- What the daemon does for a request of the client `k`. -/
def serve (d : Daemon) (k : Nat) : Request → Checked Daemon
  | .cOpenSession id flags a => do
      let system ← openSession d.system id (flags ||| ckfGApplicationSession) a
      let slot ← mapSlotUnlocked d.system.layer id
      pure
        { system := system
          applicationId := d.applicationIds k a slot
          owner := fun g => if g ∈ system.given ∧ g ∉ d.system.given then k else d.owner g }
  | .cCloseSession handle => do
      let system ← closeSession d.system handle ckrOk
      pure { d with system := system }
  | .cCloseAllSessions id => do
      let system ← closeAllSessions d.system (id ||| d.applicationId k) fun _ => ckrOk
      pure { d with system := system }
  | .cFinalize info =>
    if d.applicationId k = 0 then .ok d
    else do
      let slots ← finalizeSlots d.system.layer info
      let system ← closeEach (slots.map fun slot => slot ||| d.applicationId k) d.system
      pure { d with system := system }
  | .disconnect =>
    if d.applicationId k = 0 then .ok d
    else do
      let system ← closeAllSessions d.system (d.applicationId k) fun _ => ckrOk
      pure { d with system := system }

/-! ## What closing does -/

/-- The sessions whose keys are in `keys` are closed, above and below, and no others. -/
structure Closes (s s' : System) (keys : List Nat) : Prop where
  wellMapped : WellMapped s'
  array : s'.layer.wrapMappings = s.layer.wrapMappings
  count : s'.layer.nWrapMappings = s.layer.nWrapMappings
  given : s'.given = s.given.filter fun g => toGint g.handle ∉ keys
  table : s'.layer.wrapSessions = s.layer.wrapSessions.map fun sessions =>
    sessions.filter fun sess => sess.wrapSession ∉ keys
  lower : s'.lower ⊆ s.lower
  gone : ∀ g ∈ s.given, toGint g.handle ∈ keys → (g.funcs, g.session) ∉ s'.lower

theorem Closes.refl (h : WellMapped s) : Closes s s [] :=
  ⟨h, rfl, rfl, by simp, by simp, fun _ h => h, by simp⟩

theorem Closes.trans {s s' s'' : System} {keys keys' : List Nat} (h : Closes s s' keys)
    (h' : Closes s' s'' keys') : Closes s s'' (keys ++ keys') := by
  refine ⟨h'.wellMapped, h'.array.trans h.array, h'.count.trans h.count, ?_, ?_,
    fun _ hx => h.lower (h'.lower hx), ?_⟩
  · rw [h'.given, h.given, filter_filter]
    congr 1
    funext g
    simp [mem_append, not_or, Bool.and_comm]
  · rw [h'.table, h.table, Option.map_map]
    congr 1
    funext sessions
    simp [Function.comp, filter_filter, Bool.and_comm]
  · intro g hg hmem
    by_cases hk : toGint g.handle ∈ keys
    · exact fun hx => h.gone g hg hk (h'.lower hx)
    · refine h'.gone g ?_ ((mem_append.1 hmem).resolve_left hk)
      rw [h.given]
      exact mem_filter.2 ⟨hg, by simpa using hk⟩

/-- Handles with the same key stand for the same session. -/
theorem Installed.same_session {mappings : List Mapping} {sessions : List Session}
    (h : Installed s mappings sessions) {g g' : Given} (hg : g ∈ s.given) (hg' : g' ∈ s.given)
    (hkey : toGint g.handle = toGint g'.handle) : (g.funcs, g.session) = (g'.funcs, g'.session) := by
  obtain ⟨sess, hsess, hp⟩ := forall₂_mem_right h.placed hg
  obtain ⟨sess', hsess', hp'⟩ := forall₂_mem_right h.placed hg'
  rw [hp.handle, hp'.handle, toGint_toUlong hp.key, toGint_toUlong hp'.key] at hkey
  obtain rfl : sess = sess' := inj_on_of_nodup_map h.keys hsess hsess' hkey
  obtain ⟨m, hm, hf⟩ := hp.mapping
  obtain ⟨m', hm', hf'⟩ := hp'.mapping
  rw [hm] at hm'
  rw [hp.session, hp'.session, ← hf, ← hf', Option.some.inj hm']

theorem WellMapped.closes_one (h : WellMapped s) (handle : Nat) :
    ∃ s', Wrap.closeSession s handle ckrOk = .ok s' ∧ Closes s s' [toGint handle] := by
  obtain ⟨s', hs', hw⟩ := h.closeSession handle ckrOk
  refine ⟨s', hs', ?_⟩
  rcases h.layer with hun | ⟨mappings, sessions, hin⟩
  · have hsame : Wrap.closeSession s handle ckrOk = .ok s := by
      cases hs : s.layer.wrapSessions with
      | none => simp [Wrap.closeSession, wrapCCloseSession, mapSessionToReal, hs]
      | some sessions =>
        simp [Wrap.closeSession, wrapCCloseSession, mapSessionToReal, hs, hun.table _ hs, lookup]
    rw [hsame] at hs'
    cases hs'
    refine ⟨h, rfl, rfl, by simp [hun.given], ?_, fun _ hx => hx, by simp [hun.given]⟩
    cases hs : s.layer.wrapSessions with
    | none => rfl
    | some sessions => simp [hun.table _ hs]
  · rcases hin.closeSession_cases handle ckrOk with ⟨heq, hnone⟩ | ⟨g, hg, hkey, heq⟩
    · rw [heq] at hs'
      cases hs'
      refine ⟨h, rfl, rfl, ?_, ?_, fun _ hx => hx, ?_⟩
      · rw [filter_eq_self.2]
        intro g hg
        simpa using hnone rfl g hg
      · rw [hin.table, Option.map_some, filter_eq_self.2]
        intro sess hsess
        obtain ⟨g, hg, hp⟩ := forall₂_mem_right hin.placed.flip hsess
        have hne := hnone rfl g hg
        rw [hp.handle, toGint_toUlong hp.key] at hne
        simpa using hne
      · intro g hg hmem
        exact absurd (mem_singleton.1 hmem) (hnone rfl g hg)
    · rw [heq] at hs'
      cases hs'
      refine ⟨hw, rfl, rfl, by simp, by simp [hin.table], fun _ hx => (mem_filter.1 hx).1, ?_⟩
      intro g' hg' hmem
      have hsame := hin.same_session hg' hg ((mem_singleton.1 hmem).trans hkey.symm)
      simp [hsame]

theorem WellMapped.closes (h : WellMapped s) (handles : List Nat) (i : Nat) :
    ∃ s', Wrap.closeSessions (fun _ => ckrOk) handles i s = .ok s' ∧
      Closes s s' (handles.map toGint) := by
  induction handles generalizing s i with
  | nil => exact ⟨s, rfl, Closes.refl h⟩
  | cons handle handles ih =>
    obtain ⟨s', hs', hc⟩ := h.closes_one handle
    obtain ⟨s'', hs'', hc'⟩ := ih hc.wellMapped (i + 1)
    exact ⟨s'', by simp [Wrap.closeSessions, hs', hs''], hc.trans hc'⟩

/-- The sessions that `wrap_C_CloseAllSessions` finds for an id. -/
def matching (w : WrapLayer) (id : Nat) : List Session :=
  (w.wrapSessions.getD []).filter fun sess => sess.appId ||| sess.wrapSlot = id

/-- A session a caller holds that `wrap_C_CloseAllSessions` finds for an id. -/
def Matches (w : WrapLayer) (id : Nat) (g : Given) : Prop :=
  toGint g.handle ∈ (matching w id).map Session.wrapSession

instance (w : WrapLayer) (id : Nat) (g : Given) : Decidable (Matches w id g) :=
  inferInstanceAs (Decidable (_ ∈ _))

theorem WellMapped.key_lt (h : WellMapped s) {sessions : List Session}
    (ht : s.layer.wrapSessions = some sessions) {sess : Session} (hsess : sess ∈ sessions) :
    sess.wrapSession < 2 ^ 32 := by
  rcases h.layer with hun | ⟨mappings, sessions', hin⟩
  · rw [hun.table _ ht] at hsess
    simp at hsess
  · rw [hin.table] at ht
    cases ht
    obtain ⟨g, -, hp⟩ := forall₂_mem_right hin.placed.flip hsess
    exact hp.key

theorem WellMapped.closes_all (h : WellMapped s) (ht : s.layer.wrapSessions ≠ none) (id : Nat) :
    ∃ s', Wrap.closeAllSessions s id (fun _ => ckrOk) = .ok s' ∧
      Closes s s' ((matching s.layer id).map Session.wrapSession) := by
  cases hs : s.layer.wrapSessions with
  | none => exact absurd hs ht
  | some sessions =>
    obtain ⟨s', hs', hc⟩ := h.closes ((matching s.layer id).map fun sess =>
      toUlong sess.wrapSession) 0
    refine ⟨s', ?_, ?_⟩
    · simpa [Wrap.closeAllSessions, toClose, hs, matching] using hs'
    · have hkeys : ((matching s.layer id).map fun sess => toUlong sess.wrapSession).map toGint =
          (matching s.layer id).map Session.wrapSession := by
        rw [map_map]
        apply map_congr_left
        intro sess hsess
        have hmem : sess ∈ sessions := by
          simpa [matching, hs] using (mem_filter.1 hsess).1
        exact toGint_toUlong (h.key_lt hs hmem)
      rwa [hkeys] at hc

/-- Closing for several ids: what is closed matches one of them. -/
theorem WellMapped.closes_each (h : WellMapped s) (ht : s.layer.wrapSessions ≠ none) (ids : List Nat) :
    ∃ s' keys, closeEach ids s = .ok s' ∧ Closes s s' keys ∧
      ∀ key ∈ keys, ∃ id ∈ ids, key ∈ (matching s.layer id).map Session.wrapSession := by
  induction ids generalizing s with
  | nil => exact ⟨s, [], rfl, Closes.refl h, by simp⟩
  | cons id ids ih =>
    obtain ⟨s', hs', hc⟩ := h.closes_all ht id
    obtain ⟨s'', keys, hs'', hc', hkeys⟩ := ih hc.wellMapped (by simpa [hc.table] using ht)
    refine ⟨s'', _, by simp [closeEach, hs', hs''], hc.trans hc', ?_⟩
    intro key hkey
    rcases mem_append.1 hkey with hl | hr
    · exact ⟨id, by simp, hl⟩
    · -- a session found later was there before
      obtain ⟨id', hid', hmem⟩ := hkeys key hr
      obtain ⟨sess, hsess, rfl⟩ := mem_map.1 hmem
      refine ⟨id', by simp [hid'], mem_map_of_mem ?_⟩
      rw [matching, hc.table] at hsess
      cases hs : s.layer.wrapSessions with
      | none => exact absurd hs ht
      | some sessions =>
        simp only [hs, Option.map_some, Option.getD_some, mem_filter] at hsess
        simp only [matching, hs, Option.getD_some, mem_filter]
        exact ⟨hsess.1.1, hsess.2⟩

/-! ## What opening does -/

/-- Opening a session changes nothing, or adds one for the module of the slot. -/
theorem openSession_cases {s s' : System} {id flags : Nat} (h : openSession s id flags a = .ok s') :
    s' = s ∨ ∃ m, mapSlotUnlocked s.layer id = .ok (.ok m) ∧ a.rv = ckrOk ∧ s' =
      { layer := { s.layer with
          wrapSessions := s.layer.wrapSessions.map fun sessions =>
            replace sessions (newSession s.layer flags m a)
          lastHandle := toGint (s.layer.lastHandle + 1) }
        lower := (m.funcs, a.session) :: s.lower
        given := ⟨toUlong (toGint (s.layer.lastHandle + 1)), m.funcs, a.session⟩ :: s.given } := by
  cases hm : mapSlotUnlocked s.layer id with
  | error f => simp [openSession, wrapCOpenSession, hm] at h
  | ok r =>
    cases r with
    | error rv =>
      simp [openSession, wrapCOpenSession, hm] at h
      exact .inl h.symm
    | ok m =>
      by_cases hok : a.rv = ckrOk
      · simp [openSession, wrapCOpenSession, hm, hok] at h
        exact .inr ⟨m, rfl, hok, h.symm⟩
      · simp [openSession, wrapCOpenSession, hm, hok] at h
        exact .inl h.symm

/-! ## Runs of the daemon -/

/-- The modules below keep to their rules: an open session is not given out again, and the client
gets an application id with its first session and keeps it. -/
def LawfulRequest (d : Daemon) (k : Nat) : Request → Prop
  | .cOpenSession id flags a =>
    Lawful d.system (.cOpenSession id (flags ||| ckfGApplicationSession) a) ∧
    ∀ m, mapSlotUnlocked d.system.layer id = .ok (.ok m) → (a.rv = ckrOk → a.applicationId ≠ 0) ∧
      (d.applicationId k ≠ 0 → a.applicationId = d.applicationId k)
  | _ => True

/-- The requests that only touch sessions of the client. At the end of the connection, the sessions
that match the application id are the sessions of the client. -/
def Careful (d : Daemon) (k : Nat) : Request → Prop
  | .cOpenSession id flags a =>
    Guarded d.system (.cOpenSession id (flags ||| ckfGApplicationSession) a)
  | .cCloseSession handle =>
    ∀ g ∈ d.system.given, toGint g.handle = toGint handle → d.owner g = k
  | .cCloseAllSessions id =>
    ∀ g ∈ d.system.given, Matches d.system.layer (id ||| d.applicationId k) g → d.owner g = k
  | .cFinalize info => d.applicationId k ≠ 0 →
      ∀ slots, finalizeSlots d.system.layer info = .ok slots → ∀ slot ∈ slots,
        ∀ g ∈ d.system.given, Matches d.system.layer (slot ||| d.applicationId k) g → d.owner g = k
  | .disconnect => d.applicationId k ≠ 0 →
      ∀ g ∈ d.system.given, (Matches d.system.layer (d.applicationId k) g ↔ d.owner g = k)

/-- The session is in `wrap_sessions`. -/
def InTable (w : WrapLayer) (g : Given) : Prop :=
  ∃ sess ∈ w.wrapSessions.getD [], sess.wrapSession = toGint g.handle ∧ sess.realSession = g.session

/-- What the daemon promises for a request of the client `k`: the sessions of the other clients
stay open, in `wrap_sessions` and below; and when the connection ends no session of the client is
left in either. -/
def CleanupHolds (d : Daemon) (k : Nat) (r : Request) : Prop :=
  ∃ d', serve d k r = .ok d' ∧
    (∀ g ∈ d.system.given, d.owner g ≠ k →
      g ∈ d'.system.given ∧ d'.owner g = d.owner g ∧ InTable d'.system.layer g ∧
        (g.funcs, g.session) ∈ d'.system.lower) ∧
    (r = .disconnect → ∀ g ∈ d.system.given, d.owner g = k →
      ¬ InTable d'.system.layer g ∧ (g.funcs, g.session) ∉ d'.system.lower)

/-- The daemon after some requests, each satisfying `C`; it starts over a wrap layer that was
initialized. -/
inductive Serving (C : Daemon → Nat → Request → Prop) : Daemon → Prop where
  | start {modules : List Funcs} {answer : Nat → InitAnswer} {s : System} {owner : Given → Nat}
      (hstep : step (start modules) (.cInitialize answer) = .ok s)
      (hinit : s.layer.wrapSessions ≠ none) : Serving C ⟨s, fun _ => 0, owner⟩
  | serve {d d' : Daemon} {k : Nat} {r : Request} (hd : Serving C d) (hc : C d k r)
      (h : serve d k r = .ok d') : Serving C d'

/-- The invariant of the daemon. -/
structure Sound (d : Daemon) : Prop where
  wellMapped : WellMapped d.system
  table : d.system.layer.wrapSessions ≠ none
  count : d.system.layer.wrapMappings = none → d.system.layer.nWrapMappings = 0
  hasId : ∀ g ∈ d.system.given, d.applicationId (d.owner g) ≠ 0

theorem WellMapped.inTable (h : WellMapped s) {g : Given} (hg : g ∈ s.given) :
    InTable s.layer g := by
  rcases h.layer with hun | ⟨mappings, sessions, hin⟩
  · simp [hun.given] at hg
  · obtain ⟨sess, hsess, hp⟩ := forall₂_mem_right hin.placed hg
    refine ⟨sess, by simpa [hin.table] using hsess, ?_, hp.session.symm⟩
    rw [hp.handle, toGint_toUlong hp.key]

/-- The sessions of the other clients after a request of the client `k`. -/
def OthersStay (d d' : Daemon) (k : Nat) : Prop :=
  ∀ g ∈ d.system.given, d.owner g ≠ k →
    g ∈ d'.system.given ∧ d'.owner g = d.owner g ∧ InTable d'.system.layer g ∧
      (g.funcs, g.session) ∈ d'.system.lower

theorem othersStay_of_wellMapped {d d' : Daemon} (h : WellMapped d'.system)
    (hstay : ∀ g ∈ d.system.given, d.owner g ≠ k →
      g ∈ d'.system.given ∧ d'.owner g = d.owner g) : OthersStay d d' k := by
  intro g hg hne
  obtain ⟨hmem, howner⟩ := hstay g hg hne
  exact ⟨hmem, howner, h.inTable hmem, h.isOpen g hmem⟩

variable {d : Daemon}

/-- Closing sessions of the client keeps the invariant and the sessions of the others. -/
theorem Closes.sound {s' : System} {keys : List Nat} (hd : Sound d) (hc : Closes d.system s' keys)
    (hown : ∀ g ∈ d.system.given, toGint g.handle ∈ keys → d.owner g = k) :
    Sound { d with system := s' } ∧ OthersStay d { d with system := s' } k := by
  constructor
  · refine ⟨hc.wellMapped, ?_, ?_, ?_⟩
    · simpa [hc.table] using hd.table
    · intro hnone
      rw [hc.array] at hnone
      rw [hc.count]
      exact hd.count hnone
    · intro g hg
      rw [hc.given] at hg
      exact hd.hasId g (mem_filter.1 hg).1
  · apply othersStay_of_wellMapped hc.wellMapped
    intro g hg hne
    refine ⟨?_, rfl⟩
    rw [hc.given]
    refine mem_filter.2 ⟨hg, ?_⟩
    simpa using fun hmem => hne (hown g hg hmem)

/-- The application ids after a session was asked for: a client that had one still has one. -/
theorem applicationId_ne_zero {k id flags : Nat} (hl : LawfulRequest d k (.cOpenSession id flags a))
    {slot : Except CkRv Mapping} (hslot : mapSlotUnlocked d.system.layer id = .ok slot) {j : Nat}
    (hj : d.applicationId j ≠ 0) :
    d.applicationIds k a slot j ≠ 0 := by
  cases slot with
  | error rv => exact hj
  | ok m =>
    rw [Daemon.applicationIds]
    by_cases hjk : j = k
    · subst hjk
      rw [Function.update_self, (hl.2 m hslot).2 hj]
      exact hj
    · rwa [Function.update_of_ne hjk]

theorem Sound.cOpenSession (hd : Sound d) {k id flags : Nat}
    (hl : LawfulRequest d k (.cOpenSession id flags a)) (hg : Careful d k (.cOpenSession id flags a)) :
    ∃ d', serve d k (.cOpenSession id flags a) = .ok d' ∧ Sound d' ∧ OthersStay d d' k := by
  obtain ⟨s', hs', hw⟩ : ∃ s', openSession d.system id (flags ||| ckfGApplicationSession) a =
      .ok s' ∧ WellMapped s' := hd.wellMapped.openSession hg.1 hl.1 hg.2
  obtain ⟨slot, hslot, -⟩ := bind_eq_ok.1 (bind_eq_ok.1 hs').choose_spec.1
  refine ⟨_, by simp only [serve, hs', hslot, ok_bind, pure_eq_ok]; rfl, ?_⟩
  rcases openSession_cases hs' with rfl | ⟨m, hm, hok, rfl⟩
  · refine ⟨⟨hd.wellMapped, hd.table, hd.count, ?_⟩, ?_⟩
    · intro g hmem
      simp only [and_not_self, if_false]
      exact applicationId_ne_zero hl hslot (hd.hasId g hmem)
    · exact othersStay_of_wellMapped hd.wellMapped fun g hmem _ => ⟨hmem, by simp⟩
  · rw [hm] at hslot
    cases hslot
    refine ⟨⟨hw, by simpa using hd.table, hd.count, ?_⟩, ?_⟩
    · intro g hmem
      by_cases hold : g ∈ d.system.given
      · simp only [hold, not_true_eq_false, and_false, if_false]
        exact applicationId_ne_zero hl hm (hd.hasId g hold)
      · simp only [hold, hmem, not_false_eq_true, and_true, if_true, Daemon.applicationIds,
          Function.update_self]
        exact (hl.2 m hm).1 hok
    · apply othersStay_of_wellMapped hw
      intro g hmem _
      exact ⟨mem_cons_of_mem _ hmem, by simp [hmem]⟩

theorem finalizeSlots_ok (hd : Sound d) (info : Nat → CkRv × Bool) :
    ∃ slots, finalizeSlots d.system.layer info = .ok slots := by
  have hlist : ∀ slotList, ∃ r, wrapCGetSlotList d.system.layer true info slotList = .ok r := by
    intro slotList
    obtain ⟨s', hs', -⟩ := hd.wellMapped.step (c := .cGetSlotList true info slotList) trivial
      fun hnone => .inl (hd.count hnone)
    exact (bind_eq_ok.1 hs').imp fun r hr => hr.1
  obtain ⟨⟨rv, slots, count⟩, hfirst⟩ := hlist none
  obtain ⟨⟨rv', slots', count'⟩, hsecond⟩ := hlist (some count)
  by_cases hok : rv = ckrOk
  · exact ⟨_, by simp [finalizeSlots, hfirst, hok, hsecond]; rfl⟩
  · exact ⟨_, by simp [finalizeSlots, hfirst, hok]; rfl⟩

/-- At the end of the connection the sessions of the client are closed. -/
theorem Sound.disconnect (hd : Sound d) (hg : Careful d k .disconnect) :
    ∃ d', serve d k .disconnect = .ok d' ∧ Sound d' ∧ OthersStay d d' k ∧
      ∀ g ∈ d.system.given, d.owner g = k →
        ¬ InTable d'.system.layer g ∧ (g.funcs, g.session) ∉ d'.system.lower := by
  by_cases happ : d.applicationId k = 0
  · refine ⟨d, by simp [serve, happ], hd, ?_, ?_⟩
    · exact othersStay_of_wellMapped hd.wellMapped fun g hmem _ => ⟨hmem, rfl⟩
    · -- a client without application id never opened a session
      intro g hmem howner
      exact absurd (howner ▸ happ) (hd.hasId g hmem)
  · have hmatch := hg happ
    obtain ⟨s', hs', hc⟩ := hd.wellMapped.closes_all hd.table (d.applicationId k)
    obtain ⟨hsound, hothers⟩ := hc.sound (k := k) hd fun g hmem hkey => (hmatch g hmem).1 hkey
    refine ⟨{ d with system := s' }, by simp [serve, happ, hs'], hsound, hothers, ?_⟩
    intro g hmem howner
    have hkey : toGint g.handle ∈ (matching d.system.layer (d.applicationId k)).map
        Session.wrapSession := (hmatch g hmem).2 howner
    refine ⟨?_, hc.gone g hmem hkey⟩
    rintro ⟨sess, hsess, hsame, -⟩
    cases ht : d.system.layer.wrapSessions with
    | none => exact hd.table ht
    | some sessions =>
      simp only [hc.table, ht, Option.map_some, Option.getD_some, mem_filter,
        decide_eq_true_eq] at hsess
      exact hsess.2 (hsame ▸ hkey)

/-- A careful request does not fault, keeps the invariant, and does what the daemon promises. -/
theorem Sound.serve (hd : Sound d) {r : Request} (hl : LawfulRequest d k r) (hg : Careful d k r) :
    ∃ d', Wrap.serve d k r = .ok d' ∧ Sound d' ∧ OthersStay d d' k ∧
      (r = .disconnect → ∀ g ∈ d.system.given, d.owner g = k →
        ¬ InTable d'.system.layer g ∧ (g.funcs, g.session) ∉ d'.system.lower) := by
  cases r with
  | cOpenSession id flags a =>
    obtain ⟨d', hs, hsound, hothers⟩ := hd.cOpenSession hl hg
    exact ⟨d', hs, hsound, hothers, by simp⟩
  | cCloseSession handle =>
    obtain ⟨s', hs', hc⟩ := hd.wellMapped.closes_one handle
    obtain ⟨hsound, hothers⟩ := hc.sound hd (k := k) fun g hmem hkey =>
      hg g hmem (mem_singleton.1 hkey)
    exact ⟨_, by simp [Wrap.serve, hs'], hsound, hothers, by simp⟩
  | cCloseAllSessions id =>
    obtain ⟨s', hs', hc⟩ := hd.wellMapped.closes_all hd.table (id ||| d.applicationId k)
    obtain ⟨hsound, hothers⟩ := hc.sound hd (k := k) fun g hmem hkey => hg g hmem hkey
    exact ⟨_, by simp [Wrap.serve, hs'], hsound, hothers, by simp⟩
  | cFinalize info =>
    by_cases happ : d.applicationId k = 0
    · refine ⟨d, by simp [Wrap.serve, happ], hd, ?_, by simp⟩
      exact othersStay_of_wellMapped hd.wellMapped fun g hmem _ => ⟨hmem, rfl⟩
    · obtain ⟨slots, hslots⟩ := finalizeSlots_ok hd info
      obtain ⟨s', keys, hs', hc, hkeys⟩ := hd.wellMapped.closes_each hd.table
        (slots.map fun slot => slot ||| d.applicationId k)
      obtain ⟨hsound, hothers⟩ := hc.sound hd (k := k) (by
        intro g hmem hkey
        obtain ⟨id, hid, hmatch⟩ := hkeys _ hkey
        obtain ⟨slot, hslot, rfl⟩ := mem_map.1 hid
        exact hg happ slots hslots slot hslot g hmem hmatch)
      exact ⟨_, by simp [Wrap.serve, happ, hslots, hs'], hsound, hothers, by simp⟩
  | disconnect =>
    obtain ⟨d', hs, hsound, hothers, hown⟩ := hd.disconnect hg
    exact ⟨d', hs, hsound, hothers, fun _ => hown⟩

theorem Serving.sound (h : Serving (fun d k r => LawfulRequest d k r ∧ Careful d k r) d) : Sound d := by
  induction h with
  | start hstep hinit =>
    rename_i modules answer s owner
    obtain ⟨s', hs', hw⟩ := (wellMapped_start modules).cInitialize answer
    rw [hstep] at hs'
    cases hs'
    have heq : s = { Wrap.start modules with layer := (wrapCInitialize (Wrap.start modules).layer answer).2.2
        }.finalizeLower (wrapCInitialize (Wrap.start modules).layer answer).2.1 :=
      (Except.ok.inj hstep).symm
    have hgiven : s.given = [] := by
      rw [heq]
      rfl
    refine ⟨hw, hinit, ?_, by simp [hgiven]⟩
    -- the layer was installed, since it has a session table now
    rcases wrapCInitialize_cases (Wrap.start modules).layer answer with
      ⟨hlayer, -⟩ | ⟨-, mappings, -, hlayer⟩
    · rw [heq, System.finalizeLower, hlayer] at hinit
      exact absurd rfl hinit
    · rw [heq, System.finalizeLower, hlayer]
      intro hnone
      have hempty : mappings = [] := by
        by_contra hne
        simp [handOver, hne] at hnone
      simp [hempty]
  | serve _ hc hserve ih =>
    obtain ⟨d', hs, hsound, -⟩ := ih.serve hc.1 hc.2
    rw [hserve] at hs
    cases hs
    exact hsound

/-- In every run of the daemon whose requests are all careful, whatever the order of the clients:
a request leaves the sessions of the other clients open, and after the end of a connection no session
of its client is left, in `wrap_sessions` or in the modules below. -/
theorem cleanup_holds {d : Daemon} {k : Nat} {r : Request}
    (hd : Serving (fun d k r => LawfulRequest d k r ∧ Careful d k r) d)
    (hl : LawfulRequest d k r) (hg : Careful d k r) : CleanupHolds d k r := by
  obtain ⟨d', hs, -, hothers, hown⟩ := hd.sound.serve hl hg
  exact ⟨d', hs, hothers, hown⟩

/-- The daemon over the module with one slot. -/
def sampleStart : Daemon := ⟨sampleSystem, fun _ => 0, fun _ => 0⟩

/-- The client `1` asks for a session on the slot. -/
def sampleRequest : Request := .cOpenSession 0x10 4 ⟨ckrOk, 7, 0x100, 0⟩

/-- The daemon with the session of the client. -/
def sampleDaemon : Daemon :=
  { system := sampleOpened
    applicationId := Function.update (fun _ => 0) 1 0x100
    owner := fun g => if g ∈ [⟨17, 0, 7⟩] ∧ g ∉ [] then 1 else 0 }

theorem sampleRequest_lawful : LawfulRequest sampleStart 1 sampleRequest :=
  ⟨(sample_guarded rfl rfl (by decide) (by decide) _).1, fun _ _ => by decide⟩

theorem sampleDaemon_serving (C : Daemon → Nat → Request → Prop)
    (h : C sampleStart 1 sampleRequest) : Serving C sampleDaemon :=
  .serve (.start sampleSystem_step (by simp [sampleSystem])) h rfl

/-- The daemon after the client `2` opened a session, too. -/
def sampleTwo : Daemon :=
  { system := sampleShared
    applicationId := Function.update sampleDaemon.applicationId 2 0x200
    owner := fun g => if g ∈ sampleShared.given ∧ g ∉ sampleOpened.given then 2 else sampleDaemon.owner g }

/-- The daemon after the client `1` closed its session. -/
def sampleClosed : Daemon :=
  { sampleTwo with
    system := { layer := ⟨[0], some [⟨0x10, 1, 0⟩], 1, some [⟨18, 8, 0x200, 0x10⟩], 18⟩
                lower := [(0, 8)], given := [⟨18, 0, 8⟩] } }

theorem cleanup_holds_sample :
    sampleClosed.applicationId 1 ≠ 0 ∧ CleanupHolds sampleClosed 1 .disconnect := by
  have hone : Serving (fun d k r => LawfulRequest d k r ∧ Careful d k r) sampleDaemon :=
    sampleDaemon_serving _ ⟨sampleRequest_lawful, (sample_guarded rfl rfl (by decide) (by decide) 4).2⟩
  have htwo : Serving _ sampleTwo := hone.serve (k := 2) (r := .cOpenSession 0x10 4 ⟨ckrOk, 8, 0x200, 0⟩)
    ⟨⟨(sample_guarded rfl rfl (by decide) (by decide) _).1, fun _ _ => by decide⟩,
      (sample_guarded rfl rfl (by decide) (by decide) 4).2⟩ rfl
  have hclosed : Serving _ sampleClosed := htwo.serve (k := 1) (r := .cCloseSession 17)
    ⟨trivial, by unfold Careful; decide⟩ rfl
  refine ⟨by decide, cleanup_holds hclosed trivial ?_⟩
  -- the session of the client `2` matches neither the application id nor the owner
  rintro - g hg
  rw [mem_singleton.1 hg]
  decide

/-- A client that disconnects with a session open leaves it behind. -/
theorem session_left_behind : ∃ d k, Serving LawfulRequest d ∧ LawfulRequest d k .disconnect ∧
    ¬ CleanupHolds d k .disconnect := by
  refine ⟨sampleDaemon, 1, sampleDaemon_serving _ sampleRequest_lawful, trivial, ?_⟩
  rintro ⟨d', hserve, -, hown⟩
  obtain rfl : sampleDaemon = d' := Except.ok.inj hserve
  exact (hown rfl ⟨17, 0, 7⟩ (by decide) (by decide)).2 (by decide)

end MateKeyring.Wrap
