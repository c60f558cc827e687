import Mathlib.Data.List.Basic
import Mathlib.Logic.Function.Basic
import MateKeyring.Rpc.Message

/-!
# Apartments and sessions

The sessions of `gkm-module.c`: a module has a table of all open sessions by their handle, and for
every application and slot an apartment with a list of its sessions. The login state is kept in the
apartment and in each of its sessions. A `CK_ULONG` has 64 bits.

In every run in which a new session is not given the handle of an open one, the two tables agree, no
apartment is empty, the copies of the login state are equal and an apartment of the security officer
has no read-only session (`apartments_consistent`).
-/

set_option autoImplicit false

namespace MateKeyring.Gkm

open List
open Function (update update_of_ne update_self)
open Rpc (CkRv ckrOk ckrGeneralError)

variable {a : UInt64} {r : Nat}

/-! ## The module -/

abbrev ckrSlotIdInvalid : CkRv := 0x3
abbrev ckrSessionHandleInvalid : CkRv := 0xb3
abbrev ckrSessionParallelNotSupported : CkRv := 0xb4
abbrev ckrSessionReadOnlyExists : CkRv := 0xb7
abbrev ckrSessionReadWriteSoExists : CkRv := 0xb8
abbrev ckrUserAlreadyLoggedIn : CkRv := 0x100
abbrev ckrUserNotLoggedIn : CkRv := 0x101
abbrev ckrUserTypeInvalid : CkRv := 0x103
abbrev ckrUserAnotherAlreadyLoggedIn : CkRv := 0x104

abbrev ckuSo : UInt64 := 0
abbrev ckuUser : UInt64 := 1
abbrev ckuContextSpecific : UInt64 := 2
abbrev ckuNone : UInt64 := 0xffffffffffffffff

abbrev ckfRwSession : UInt64 := 2
abbrev ckfSerialSession : UInt64 := 4
abbrev ckfGApplicationSession : UInt64 := 0x40000000

/-- `CK_MATE_MAX_SLOT`. -/
abbrev ckMateMaxSlot : UInt64 := 0xff

/-- `CK_MATE_MAX_HANDLE`. -/
abbrev ckMateMaxHandle : UInt64 := 0x3fffffffffffff

/-- `GKM_SLOT_ID`. -/
abbrev gkmSlotId : UInt64 := 1

/-- `APARTMENT_SLOT`. -/
def apartmentSlot (apt : UInt64) : UInt64 := apt &&& ckMateMaxSlot

/-- `APARTMENT_ID`. -/
def apartmentId (slot app : UInt64) : UInt64 :=
  (slot &&& ckMateMaxSlot) ||| (app &&& ~~~ckMateMaxSlot)

/-- A `GkmSession`, as far as the module looks at it. -/
structure Session where
  handle : UInt64
  apartment : UInt64
  readOnly : Bool
  loggedIn : UInt64
  deriving DecidableEq

/-- `Apartment`; the sessions are pointers. -/
structure Apartment where
  aptId : UInt64
  sessions : List Nat
  loggedIn : UInt64
  deriving DecidableEq

/-- What a derived class does before it goes on to the functions of `GkmModule`: with its own state
`γ` it may refuse. -/
structure GkmModuleClass (γ : Type) where
  loginUser : γ → UInt64 → Bytes → γ × Option CkRv
  loginSo : γ → UInt64 → Bytes → γ × Option CkRv
  logoutUser : γ → UInt64 → γ × Option CkRv
  logoutSo : γ → UInt64 → γ × Option CkRv
  loginContextSpecific : γ → UInt64 → Bytes → CkRv

/-- `GkmModule`: the memory of the sessions with the next free pointer, the two tables, the counter
of handles and the state of the derived class. -/
structure GkmModule (γ : Type) where
  memory : Nat → Session
  free : Nat
  sessionsByHandle : UInt64 → Option Nat
  apartmentsById : UInt64 → Option Apartment
  handleCounter : UInt64
  derived : γ

variable {γ : Type}

/-- `gkm_module_init`. -/
def gkmModuleInit (derived : γ) : GkmModule γ where
  memory _ := { handle := 0, apartment := 0, readOnly := true, loggedIn := ckuNone }
  free := 0
  sessionsByHandle _ := none
  apartmentsById _ := none
  handleCounter := 1
  derived := derived

/-- `gkm_module_next_handle`: the handle, and the counter after it. -/
def gkmModuleNextHandle (self : GkmModule γ) : UInt64 × UInt64 :=
  let counter := if self.handleCounter = ckMateMaxHandle then 0 else self.handleCounter
  (counter, counter + 1)

/-- `apartment_new`, for an application identifier that is not zero or none. -/
def apartmentNew (slotId appId : UInt64) : Apartment :=
  { aptId := apartmentId slotId appId, sessions := [], loggedIn := ckuNone }

/-- `mark_login_apartment`. -/
def markLoginApartment (self : GkmModule γ) (apt : Apartment) (user : UInt64) : GkmModule γ :=
  { self with
    memory := fun r =>
      if r ∈ apt.sessions then { self.memory r with loggedIn := user } else self.memory r
    apartmentsById := update self.apartmentsById apt.aptId (some { apt with loggedIn := user }) }

/-- `gkm_module_real_login_user`, `gkm_module_real_login_so` and `gkm_module_real_logout_any`. -/
def realLogin (self : GkmModule γ) (apartment user : UInt64) : CkRv × GkmModule γ :=
  match self.apartmentsById apartment with
  | none => (ckrGeneralError, self)
  | some apt => (ckrOk, markLoginApartment self apt user)

/-- A method of the class: the derived class first, then the one of `GkmModule`. -/
def chain (self : GkmModule γ) (answer : γ × Option CkRv) (apartment user : UInt64) :
    CkRv × GkmModule γ :=
  match answer with
  | (derived, some rv) => (rv, { self with derived })
  | (derived, none) => realLogin { self with derived } apartment user

/-- The end of `gkm_module_C_OpenSession`: the session is made and registered. -/
def registerSession (self : GkmModule γ) (apt : Apartment) (readOnly : Bool) : CkRv × GkmModule γ :=
  let (handle, handleCounter) := gkmModuleNextHandle self
  let session := { handle, apartment := apt.aptId, readOnly, loggedIn := apt.loggedIn }
  (ckrOk,
    { self with
      memory := update self.memory self.free session
      free := self.free + 1
      sessionsByHandle := update self.sessionsByHandle handle (some self.free)
      apartmentsById := update self.apartmentsById apt.aptId
        (some { apt with sessions := self.free :: apt.sessions })
      handleCounter })

/-- The apartment of `gkm_module_C_OpenSession`: the one that is there, or a new one, which is
registered. `appId` is zero for an application without an identifier; it is given `next`, what
`gkm_util_next_handle` returns, shifted. -/
def openApartment (self : GkmModule γ) (id : UInt64) (app : Option UInt64) (next : UInt64) :
    Checked Apartment :=
  match app with
  | some 0 =>
    let apt := apartmentNew id (next <<< 8)
    if (self.apartmentsById apt.aptId).isSome then .error .assertion else .ok apt
  | app =>
    let appId := app.getD 0
    .ok ((self.apartmentsById (apartmentId id appId)).getD (apartmentNew id appId))

/-- `gkm_module_C_OpenSession`. `userData` is null or an application with its identifier, `result` is
whether the pointer for the handle is not null. -/
def gkmModuleCOpenSession (self : GkmModule γ) (id flags : UInt64) (userData : Option UInt64)
    (result : Bool) (next : UInt64) : Checked (CkRv × GkmModule γ) := do
  if apartmentSlot id ≠ gkmSlotId then pure (ckrSlotIdInvalid, self)
  else if result = false then pure (Rpc.ckrArgumentsBad, self)
  else if flags &&& ckfSerialSession = 0 then pure (ckrSessionParallelNotSupported, self)
  else if flags &&& ckfGApplicationSession ≠ 0 ∧ userData = none then pure (Rpc.ckrArgumentsBad, self)
  else
    let app := if flags &&& ckfGApplicationSession ≠ 0 then userData else none
    let apt ← openApartment self id app next
    if apt.loggedIn = ckuSo ∧ flags &&& ckfRwSession = 0 then
      pure (ckrSessionReadWriteSoExists, self)
    else pure (registerSession self apt (flags &&& ckfRwSession = 0))

/-- `gkm_module_C_CloseSession`. -/
def gkmModuleCCloseSession (self : GkmModule γ) (handle : UInt64) : CkRv × GkmModule γ :=
  match self.sessionsByHandle handle with
  | none => (ckrSessionHandleInvalid, self)
  | some session =>
    match self.apartmentsById (self.memory session).apartment with
    | none => (ckrGeneralError, self)
    | some apt =>
      if session ∈ apt.sessions then
        let sessions := apt.sessions.erase session
        (ckrOk,
          { self with
            sessionsByHandle := update self.sessionsByHandle handle none
            apartmentsById := update self.apartmentsById apt.aptId
              (if sessions = [] then none else some { apt with sessions }) })
      else (ckrGeneralError, self)

/-- The loop of `gkm_module_C_CloseAllSessions`. -/
def unregisterSessions (memory : Nat → Session) :
    List Nat → (UInt64 → Option Nat) → Checked (UInt64 → Option Nat)
  | [], byHandle => .ok byHandle
  | session :: sessions, byHandle =>
    if (byHandle (memory session).handle).isSome then
      unregisterSessions memory sessions (update byHandle (memory session).handle none)
    else .error .assertion

/-- `gkm_module_C_CloseAllSessions`. -/
def gkmModuleCCloseAllSessions (self : GkmModule γ) (id : UInt64) :
    Checked (CkRv × GkmModule γ) := do
  if apartmentSlot id ≠ gkmSlotId then pure (ckrSlotIdInvalid, self)
  else
    match self.apartmentsById id with
    | none => pure (ckrOk, self)
    | some apt =>
      let sessionsByHandle ← unregisterSessions self.memory apt.sessions self.sessionsByHandle
      pure (ckrOk, { self with sessionsByHandle := sessionsByHandle,
                               apartmentsById := update self.apartmentsById apt.aptId none })

/-- `gkm_module_C_Login`. -/
def gkmModuleCLogin (c : GkmModuleClass γ) (self : GkmModule γ) (handle userType : UInt64)
    (pin : Bytes) : CkRv × GkmModule γ :=
  match self.sessionsByHandle handle with
  | none => (ckrSessionHandleInvalid, self)
  | some session =>
    if userType = ckuContextSpecific then (c.loginContextSpecific self.derived handle pin, self)
    else if userType ≠ ckuUser ∧ userType ≠ ckuSo then (ckrUserTypeInvalid, self)
    else
      match self.apartmentsById (self.memory session).apartment with
      | none => (ckrGeneralError, self)
      | some apt =>
        if apt.loggedIn = userType then (ckrUserAlreadyLoggedIn, self)
        else if apt.loggedIn ≠ ckuNone then (ckrUserAnotherAlreadyLoggedIn, self)
        else if userType = ckuSo then
          if apt.sessions.any fun r => (self.memory r).readOnly then
            (ckrSessionReadOnlyExists, self)
          else
            chain self (c.loginSo self.derived (self.memory session).apartment pin)
              (self.memory session).apartment ckuSo
        else
          chain self (c.loginUser self.derived (self.memory session).apartment pin)
            (self.memory session).apartment ckuUser

/-- `gkm_module_C_Logout`. -/
def gkmModuleCLogout (c : GkmModuleClass γ) (self : GkmModule γ) (handle : UInt64) :
    CkRv × GkmModule γ :=
  match self.sessionsByHandle handle with
  | none => (ckrSessionHandleInvalid, self)
  | some session =>
    match self.apartmentsById (self.memory session).apartment with
    | none => (ckrGeneralError, self)
    | some apt =>
      if apt.loggedIn = ckuNone then (ckrUserNotLoggedIn, self)
      else if apt.loggedIn = ckuUser then
        chain self (c.logoutUser self.derived (self.memory session).apartment)
          (self.memory session).apartment ckuNone
      else if apt.loggedIn = ckuSo then
        chain self (c.logoutSo self.derived (self.memory session).apartment)
          (self.memory session).apartment ckuNone
      else (ckrGeneralError, self)

/-! ## The invariant -/

/-- The tables agree, no apartment is empty, and the login state is that of the apartment. -/
structure Consistent (m : GkmModule γ) : Prop where
  table : ∀ h r, m.sessionsByHandle h = some r ↔
    (m.memory r).handle = h ∧ ∃ a apt, m.apartmentsById a = some apt ∧ r ∈ apt.sessions
  home : ∀ a apt, m.apartmentsById a = some apt → ∀ r ∈ apt.sessions, (m.memory r).apartment = a
  nodup : ∀ a apt, m.apartmentsById a = some apt → apt.sessions.Nodup
  nonempty : ∀ a apt, m.apartmentsById a = some apt → apt.sessions ≠ []
  loggedIn : ∀ a apt, m.apartmentsById a = some apt → ∀ r ∈ apt.sessions,
    (m.memory r).loggedIn = apt.loggedIn
  officer : ∀ a apt, m.apartmentsById a = some apt → apt.loggedIn = ckuSo → ∀ r ∈ apt.sessions,
    (m.memory r).readOnly = false
  aptId : ∀ a apt, m.apartmentsById a = some apt → apt.aptId = a
  used : ∀ a apt, m.apartmentsById a = some apt → ∀ r ∈ apt.sessions, r < m.free

theorem consistent_init (derived : γ) : Consistent (gkmModuleInit derived) where
  table h r := by simp [gkmModuleInit]
  home a apt h := by cases h
  nodup a apt h := by cases h
  nonempty a apt h := by cases h
  loggedIn a apt h := by cases h
  officer a apt h := by cases h
  aptId a apt h := by cases h
  used a apt h := by cases h

variable {m : GkmModule γ}

theorem Consistent.disjoint (hm : Consistent m) {a b : UInt64} {apt apt' : Apartment}
    (ha : m.apartmentsById a = some apt) (hb : m.apartmentsById b = some apt') (hr : r ∈ apt.sessions)
    (hr' : r ∈ apt'.sessions) : a = b :=
  (hm.home a apt ha r hr).symm.trans (hm.home b apt' hb r hr')

/-- The session of a handle is in the list of its apartment. -/
theorem Consistent.lookup (hm : Consistent m) {h : UInt64} (hr : m.sessionsByHandle h = some r) :
    ∃ apt, m.apartmentsById (m.memory r).apartment = some apt ∧ r ∈ apt.sessions := by
  obtain ⟨-, a, apt, ha, hmem⟩ := (hm.table h r).1 hr
  rw [hm.home a apt ha r hmem]
  exact ⟨apt, ha, hmem⟩

/-- Only the state of the derived class is changed. -/
theorem Consistent.setDerived (hm : Consistent m) (derived : γ) : Consistent { m with derived } :=
  ⟨hm.table, hm.home, hm.nodup, hm.nonempty, hm.loggedIn, hm.officer, hm.aptId, hm.used⟩

variable {apt : Apartment}

theorem Consistent.ne_free (hm : Consistent m) (ha : m.apartmentsById a = some apt) (hr : r ∈ apt.sessions) :
    r ≠ m.free :=
  (hm.used a apt ha r hr).ne

/-- What `Consistent` says about one apartment. -/
structure Kept (memory : Nat → Session) (free : Nat) (a : UInt64) (apt : Apartment) : Prop where
  home : ∀ r ∈ apt.sessions, (memory r).apartment = a
  nodup : apt.sessions.Nodup
  nonempty : apt.sessions ≠ []
  loggedIn : ∀ r ∈ apt.sessions, (memory r).loggedIn = apt.loggedIn
  officer : apt.loggedIn = ckuSo → ∀ r ∈ apt.sessions, (memory r).readOnly = false
  aptId : apt.aptId = a
  used : ∀ r ∈ apt.sessions, r < free

theorem Consistent.kept (hm : Consistent m) (ha : m.apartmentsById a = some apt) :
    Kept m.memory m.free a apt :=
  ⟨hm.home a apt ha, hm.nodup a apt ha, hm.nonempty a apt ha, hm.loggedIn a apt ha, hm.officer a apt ha,
    hm.aptId a apt ha, hm.used a apt ha⟩

/-- An apartment whose sessions stay as they are. -/
theorem Kept.congr {memory memory' : Nat → Session} {free free' : Nat} (h : Kept memory free a apt)
    (hmemory : ∀ r ∈ apt.sessions, memory' r = memory r) (hfree : free ≤ free') : Kept memory' free' a apt where
  home r hr := (hmemory r hr).symm ▸ h.home r hr
  nodup := h.nodup
  nonempty := h.nonempty
  loggedIn r hr := (hmemory r hr).symm ▸ h.loggedIn r hr
  officer ho r hr := (hmemory r hr).symm ▸ h.officer ho r hr
  aptId := h.aptId
  used r hr := (h.used r hr).trans_le hfree

theorem update_eq_some {new : Option Apartment} {apt' : Apartment} {b : UInt64} :
    update m.apartmentsById a new b = some apt' ↔
      (b = a ∧ new = some apt') ∨ (b ≠ a ∧ m.apartmentsById b = some apt') := by
  by_cases hba : b = a
  · rw [hba, update_self]
    simp
  · rw [update_of_ne hba]
    simp [hba]

/-- One apartment is changed, and the sessions of the others stay as they are. -/
theorem Consistent.update (hm : Consistent m) {m' : GkmModule γ} {new : Option Apartment}
    (hapts : m'.apartmentsById = update m.apartmentsById a new)
    (htable : ∀ h r, m'.sessionsByHandle h = some r ↔ (m'.memory r).handle = h ∧
      ((∃ apt', new = some apt' ∧ r ∈ apt'.sessions) ∨
        ∃ b apt', b ≠ a ∧ m.apartmentsById b = some apt' ∧ r ∈ apt'.sessions))
    (hnew : ∀ apt', new = some apt' → Kept m'.memory m'.free a apt')
    (hothers : ∀ b apt', b ≠ a → m.apartmentsById b = some apt' →
      ∀ r ∈ apt'.sessions, m'.memory r = m.memory r) (hfree : m.free ≤ m'.free) : Consistent m' := by
  have hkept : ∀ b apt', m'.apartmentsById b = some apt' → Kept m'.memory m'.free b apt' := by
    intro b apt' hb
    rw [hapts, update_eq_some] at hb
    rcases hb with ⟨rfl, hb⟩ | ⟨hne, hb⟩
    · exact hnew apt' hb
    · exact (hm.kept hb).congr (hothers b apt' hne hb) hfree
  refine ⟨fun h r => ?_, fun b apt' hb => (hkept b apt' hb).home, fun b apt' hb => (hkept b apt' hb).nodup,
    fun b apt' hb => (hkept b apt' hb).nonempty, fun b apt' hb => (hkept b apt' hb).loggedIn,
    fun b apt' hb => (hkept b apt' hb).officer, fun b apt' hb => (hkept b apt' hb).aptId,
    fun b apt' hb => (hkept b apt' hb).used⟩
  rw [htable]
  refine and_congr_right fun _ => ⟨?_, ?_⟩
  · rintro (⟨apt', hnew, hr⟩ | ⟨b, apt', hne, hb, hr⟩)
    · exact ⟨a, apt', by rw [hapts, update_self, hnew], hr⟩
    · exact ⟨b, apt', by rw [hapts, update_of_ne hne, hb], hr⟩
  · rintro ⟨b, apt', hb, hr⟩
    rw [hapts, update_eq_some] at hb
    rcases hb with ⟨-, hb⟩ | ⟨hne, hb⟩
    · exact .inl ⟨apt', hb, hr⟩
    · exact .inr ⟨b, apt', hne, hb, hr⟩

/-- The sessions that are listed, those of one apartment apart. -/
theorem Consistent.table_iff (hm : Consistent m) (ha : ∀ r ∈ apt.sessions, m.apartmentsById a = some apt)
    (hnone : ∀ apt', m.apartmentsById a = some apt' → apt' = apt) (h : UInt64) (r : Nat) :
    m.sessionsByHandle h = some r ↔ (m.memory r).handle = h ∧
      (r ∈ apt.sessions ∨ ∃ b apt', b ≠ a ∧ m.apartmentsById b = some apt' ∧ r ∈ apt'.sessions) := by
  rw [hm.table]
  refine and_congr_right fun _ => ⟨?_, ?_⟩
  · rintro ⟨b, apt', hb, hr⟩
    by_cases hba : b = a
    · rw [hba] at hb
      exact .inl (hnone apt' hb ▸ hr)
    · exact .inr ⟨b, apt', hba, hb, hr⟩
  · rintro (hr | ⟨b, apt', -, hb, hr⟩)
    · exact ⟨a, apt, ha r hr, hr⟩
    · exact ⟨b, apt', hb, hr⟩

theorem markLogin_consistent (hm : Consistent m) (ha : m.apartmentsById a = some apt) {user : UInt64}
    (hso : user = ckuSo → ∀ r ∈ apt.sessions, (m.memory r).readOnly = false) :
    Consistent (markLoginApartment m apt user) := by
  obtain rfl := hm.aptId a apt ha
  have hin : ∀ r ∈ apt.sessions,
      (markLoginApartment m apt user).memory r = { m.memory r with loggedIn := user } := fun r hr => if_pos hr
  have hout : ∀ r, r ∉ apt.sessions → (markLoginApartment m apt user).memory r = m.memory r :=
    fun r hr => if_neg hr
  refine hm.update rfl (fun h r => ?_) (fun apt' hnew => ?_) (fun b apt' hne hb r hr => ?_) (Nat.le_refl _)
  · have hhandle : ((markLoginApartment m apt user).memory r).handle = (m.memory r).handle := by
      by_cases hr : r ∈ apt.sessions
      · rw [hin r hr]
      · rw [hout r hr]
    rw [hhandle]
    change m.sessionsByHandle h = some r ↔ _
    simpa using hm.table_iff (fun _ _ => ha) (fun apt' ha' => Option.some.inj (ha'.symm.trans ha)) h r
  · cases hnew
    have hkept := hm.kept ha
    refine ⟨fun r hr => ?_, hkept.nodup, hkept.nonempty, fun r hr => ?_, fun ho r hr => ?_, rfl, hkept.used⟩
    · rw [hin r hr]
      exact hkept.home r hr
    · rw [hin r hr]
    · rw [hin r hr]
      exact hso ho r hr
  · exact hout r fun hmem => hne (hm.disjoint hb ha hr hmem)

theorem register_consistent (hm : Consistent m) (hapt : m.apartmentsById apt.aptId = some apt ∨
      (m.apartmentsById apt.aptId = none ∧ apt.sessions = [])) {readOnly : Bool}
    (hso : apt.loggedIn = ckuSo → readOnly = false)
    (hfresh : m.sessionsByHandle (gkmModuleNextHandle m).1 = none) :
    Consistent (registerSession m apt readOnly).2 := by
  have hthere : ∀ r ∈ apt.sessions, m.apartmentsById apt.aptId = some apt := by
    intro r hr
    rcases hapt with h | ⟨-, h⟩
    · exact h
    · rw [h] at hr
      cases hr
  have hold : ∀ apt', m.apartmentsById apt.aptId = some apt' → apt' = apt := by
    intro apt' ha
    rcases hapt with h | ⟨h, -⟩
    · exact Option.some.inj (ha.symm.trans h)
    · cases h.symm.trans ha
  have hnew : (registerSession m apt readOnly).2.memory m.free =
      ⟨(gkmModuleNextHandle m).1, apt.aptId, readOnly, apt.loggedIn⟩ := update_self ..
  have hmemory : ∀ r, r ≠ m.free →
      (registerSession m apt readOnly).2.memory r = m.memory r := fun r hr =>
    update_of_ne hr _ _
  have hne : ∀ r ∈ apt.sessions, r ≠ m.free := fun r hr => hm.ne_free (hthere r hr) hr
  refine hm.update rfl (fun h r => ?_) (fun apt' hsome => ?_) (fun b apt' _ hb r hr => ?_) (Nat.le_succ _)
  · change update m.sessionsByHandle (gkmModuleNextHandle m).1 (some m.free) h = some r ↔ _
    by_cases hr : r = m.free
    · subst hr
      rw [hnew]
      constructor
      · intro hh
        by_cases hn : h = (gkmModuleNextHandle m).1
        · exact ⟨hn.symm, .inl ⟨_, rfl, mem_cons_self⟩⟩
        · rw [update_of_ne hn] at hh
          obtain ⟨-, b, apt', hb, hmem⟩ := (hm.table h m.free).1 hh
          exact absurd rfl (hm.ne_free hb hmem)
      · rintro ⟨hh, -⟩
        rw [← hh, update_self]
    · rw [hmemory r hr]
      have hlisted := hm.table_iff hthere hold h r
      by_cases hn : h = (gkmModuleNextHandle m).1
      · rw [hn, update_self]
        rw [hn, hfresh] at hlisted
        simp [hr, Ne.symm hr] at hlisted ⊢
        exact hlisted
      · rw [update_of_ne hn, hlisted]
        simp [hr]
  · cases hsome
    refine ⟨forall_mem_cons.2 ⟨?_, fun r hr => ?_⟩, nodup_cons.2 ⟨fun hmem => hne _ hmem rfl, ?_⟩,
      cons_ne_nil _ _, forall_mem_cons.2 ⟨?_, fun r hr => ?_⟩,
      fun ho => forall_mem_cons.2 ⟨?_, fun r hr => ?_⟩, rfl,
      forall_mem_cons.2 ⟨Nat.lt_succ_self _, fun r hr => ?_⟩⟩
    · rw [hnew]
    · rw [hmemory r (hne r hr)]
      exact hm.home _ apt (hthere r hr) r hr
    · rcases hapt with h | ⟨-, h⟩
      · exact hm.nodup _ apt h
      · rw [h]
        exact nodup_nil
    · rw [hnew]
    · rw [hmemory r (hne r hr)]
      exact hm.loggedIn _ apt (hthere r hr) r hr
    · rw [hnew]
      exact hso ho
    · rw [hmemory r (hne r hr)]
      exact hm.officer _ apt (hthere r hr) ho r hr
    · exact Nat.lt_succ_of_lt (hm.used _ apt (hthere r hr) r hr)
  · exact hmemory r (hm.ne_free hb hr)

/-- Some sessions of one apartment are taken out of both tables. -/
theorem remove_consistent (hm : Consistent m) (ha : m.apartmentsById a = some apt) {m' : GkmModule γ}
    {left : List Nat} (hsub : left.Sublist apt.sessions) (hmemory : m'.memory = m.memory)
    (hfree : m'.free = m.free) (htable : ∀ h r, m'.sessionsByHandle h = some r ↔
      m.sessionsByHandle h = some r ∧ (r ∈ apt.sessions → r ∈ left))
    (hapts : m'.apartmentsById = update m.apartmentsById a
      (if left = [] then none else some { apt with sessions := left })) : Consistent m' := by
  have hnew : ∀ apt', (if left = [] then none else some { apt with sessions := left }) = some apt' ↔
      left ≠ [] ∧ { apt with sessions := left } = apt' := by
    intro apt'
    split <;> simp [*]
  refine hm.update hapts (fun h r => ?_) (fun apt' hsome => ?_) (fun b apt' _ _ r _ => by rw [hmemory])
    hfree.ge
  · rw [htable, hm.table_iff (fun _ _ => ha) (fun apt' ha' => Option.some.inj (ha'.symm.trans ha)), hmemory,
      and_assoc]
    refine and_congr_right fun _ => ⟨?_, ?_⟩
    · rintro ⟨hr | hothers, hleft⟩
      · exact .inl ⟨_, (hnew _).2 ⟨ne_nil_of_mem (hleft hr), rfl⟩, hleft hr⟩
      · exact .inr hothers
    · rintro (⟨apt', hsome, hr⟩ | ⟨b, apt', hne, hb, hr⟩)
      · obtain ⟨-, rfl⟩ := (hnew _).1 hsome
        exact ⟨.inl (hsub.subset hr), fun _ => hr⟩
      · exact ⟨.inr ⟨b, apt', hne, hb, hr⟩, fun hmem => absurd (hm.disjoint hb ha hr hmem) hne⟩
  · obtain ⟨hleft, rfl⟩ := (hnew _).1 hsome
    rw [hmemory, hfree]
    have hkept := hm.kept ha
    exact ⟨fun r hr => hkept.home r (hsub.subset hr), hkept.nodup.sublist hsub, hleft,
      fun r hr => hkept.loggedIn r (hsub.subset hr), fun ho r hr => hkept.officer ho r (hsub.subset hr),
      hkept.aptId, fun r hr => hkept.used r (hsub.subset hr)⟩

/-! ## Calls -/

theorem openApartment_cases {id next : UInt64} {app : Option UInt64} (hm : Consistent m)
    (h : openApartment m id app next = .ok apt) :
    m.apartmentsById apt.aptId = some apt ∨
      (m.apartmentsById apt.aptId = none ∧ apt.sessions = []) := by
  have hgiven : ∀ appId, m.apartmentsById (((m.apartmentsById (apartmentId id appId)).getD
        (apartmentNew id appId)).aptId) =
          some ((m.apartmentsById (apartmentId id appId)).getD (apartmentNew id appId)) ∨
      (m.apartmentsById (((m.apartmentsById (apartmentId id appId)).getD
        (apartmentNew id appId)).aptId) = none ∧
          ((m.apartmentsById (apartmentId id appId)).getD (apartmentNew id appId)).sessions = []) := by
    intro appId
    cases ha : m.apartmentsById (apartmentId id appId) with
    | none => exact .inr ⟨ha, rfl⟩
    | some apt' =>
      refine .inl ?_
      rw [Option.getD_some, hm.aptId _ _ ha]
      exact ha
  unfold openApartment at h
  split at h
  · dsimp only at h
    split at h
    · cases h
    · rename_i hnone
      cases h
      exact .inr ⟨by simpa using hnone, rfl⟩
  · cases h
    exact hgiven _

/-- A handle that is given to a new session is not that of an open one. -/
def FreshHandle (m : GkmModule γ) : Prop := m.sessionsByHandle (gkmModuleNextHandle m).1 = none

theorem openSession_consistent (hm : Consistent m) {id flags next : UInt64}
    {userData : Option UInt64} {result : Bool} {r : CkRv × GkmModule γ} (hfresh : FreshHandle m)
    (h : gkmModuleCOpenSession m id flags userData result next = .ok r) : Consistent r.2 := by
  unfold gkmModuleCOpenSession at h
  split at h
  · cases h
    exact hm
  · split at h
    · cases h
      exact hm
    · split at h
      · cases h
        exact hm
      · split at h
        · cases h
          exact hm
        · obtain ⟨apt, hapt, h⟩ := bind_eq_ok.1 h
          split at h
          · cases h
            exact hm
          · rename_i hso
            cases h
            refine register_consistent hm (openApartment_cases hm hapt) (fun ho => ?_) hfresh
            rw [decide_eq_false_iff_not]
            exact fun hro => hso ⟨ho, hro⟩

theorem closeSession_consistent (hm : Consistent m) (handle : UInt64) :
    Consistent (gkmModuleCCloseSession m handle).2 := by
  unfold gkmModuleCCloseSession
  cases hs : m.sessionsByHandle handle with
  | none => exact hm
  | some session =>
    obtain ⟨apt, ha, hmem⟩ := hm.lookup hs
    simp only [ha, hmem, if_true]
    have hhandle := ((hm.table _ _).1 hs).1
    refine remove_consistent hm ha (erase_sublist (a := session)) rfl rfl (fun h r => ?_) ?_
    · change update m.sessionsByHandle handle none h = some r ↔ _
      by_cases hh : h = handle
      · rw [hh, update_self, hs]
        constructor
        · intro hr
          cases hr
        · rintro ⟨hr, hleft⟩
          cases hr
          exact absurd (hleft hmem) (hm.nodup _ apt ha).not_mem_erase
      · rw [update_of_ne hh]
        constructor
        · intro hr
          refine ⟨hr, fun hin => ((hm.nodup _ apt ha).mem_erase_iff).2 ⟨?_, hin⟩⟩
          rintro rfl
          exact hh ((((hm.table _ _).1 hr).1).symm.trans hhandle)
        · exact fun hr => hr.1
    · rw [hm.aptId _ _ ha]

theorem unregisterSessions_eq {memory : Nat → Session} {sessions : List Nat}
    {byHandle byHandle' : UInt64 → Option Nat}
    (h : unregisterSessions memory sessions byHandle = .ok byHandle') (k : UInt64) :
    byHandle' k = if ∃ r ∈ sessions, (memory r).handle = k then none else byHandle k := by
  induction sessions generalizing byHandle with
  | nil =>
    cases h
    simp
  | cons session sessions ih =>
    rw [unregisterSessions] at h
    split at h
    · rw [ih h]
      by_cases hk : k = (memory session).handle
      · simp [hk]
      · simp [update_of_ne hk, Ne.symm hk]
    · cases h

theorem closeAllSessions_consistent (hm : Consistent m) {id : UInt64} {r : CkRv × GkmModule γ}
    (h : gkmModuleCCloseAllSessions m id = .ok r) : Consistent r.2 := by
  unfold gkmModuleCCloseAllSessions at h
  split at h
  · cases h
    exact hm
  · cases ha : m.apartmentsById id with
    | none =>
      rw [ha] at h
      cases h
      exact hm
    | some apt =>
      simp only [ha] at h
      obtain ⟨byHandle, hby, h⟩ := bind_eq_ok.1 h
      cases h
      refine remove_consistent hm ha (nil_sublist _) rfl rfl (fun k r => ?_) ?_
      · change byHandle k = some r ↔ _
        rw [unregisterSessions_eq hby]
        split
        · rename_i hex
          obtain ⟨s, hs, hk⟩ := hex
          constructor
          · intro hr
            cases hr
          · rintro ⟨hr, hleft⟩
            have hin : m.sessionsByHandle k = some s := (hm.table k s).2 ⟨hk, id, apt, ha, hs⟩
            rw [hr] at hin
            cases hin
            cases hleft hs
        · rename_i hnone
          constructor
          · exact fun hr => ⟨hr, fun hin => absurd ⟨r, hin, ((hm.table k r).1 hr).1⟩ hnone⟩
          · exact fun hr => hr.1
      · rw [hm.aptId _ _ ha]
        rfl

theorem chain_consistent (hm : Consistent m) {answer : γ × Option CkRv} {apartment user : UInt64}
    (hso : user = ckuSo → ∀ apt, m.apartmentsById apartment = some apt →
      ∀ r ∈ apt.sessions, (m.memory r).readOnly = false) :
    Consistent (chain m answer apartment user).2 := by
  obtain ⟨derived, rv⟩ := answer
  cases rv with
  | some rv => exact hm.setDerived derived
  | none =>
    unfold chain realLogin
    cases ha : m.apartmentsById apartment with
    | none =>
      simp only [ha]
      exact hm.setDerived derived
    | some apt =>
      simp only [ha]
      exact markLogin_consistent (hm.setDerived derived) ha fun ho => hso ho apt ha

theorem login_consistent (hm : Consistent m) (c : GkmModuleClass γ) (handle userType : UInt64)
    (pin : Bytes) : Consistent (gkmModuleCLogin c m handle userType pin).2 := by
  unfold gkmModuleCLogin
  split
  · exact hm
  · split
    · exact hm
    · split
      · exact hm
      · split
        · exact hm
        · rename_i apt ha
          split
          · exact hm
          · split
            · exact hm
            · split
              · split
                · exact hm
                · rename_i hany
                  refine chain_consistent hm fun _ apt' ha' r hr => ?_
                  rw [ha] at ha'
                  cases ha'
                  simpa using fun hro => hany (any_eq_true.2 ⟨r, hr, hro⟩)
              · exact chain_consistent hm fun ho => absurd ho (by decide)

theorem logout_consistent (hm : Consistent m) (c : GkmModuleClass γ) (handle : UInt64) :
    Consistent (gkmModuleCLogout c m handle).2 := by
  unfold gkmModuleCLogout
  split
  · exact hm
  · split
    · exact hm
    · split
      · exact hm
      · split
        · exact chain_consistent hm fun ho => absurd ho (by decide)
        · split
          · exact chain_consistent hm fun ho => absurd ho (by decide)
          · exact hm

/-! ## Runs -/

/-- A call of an application. -/
inductive ModuleCall where
  | openSession (id flags : UInt64) (userData : Option UInt64) (result : Bool) (next : UInt64)
  | closeSession (handle : UInt64)
  | closeAllSessions (id : UInt64)
  | login (handle userType : UInt64) (pin : Bytes)
  | logout (handle : UInt64)

/-- The result of a call, and the module after it. -/
def ModuleCall.run (c : GkmModuleClass γ) (m : GkmModule γ) :
    ModuleCall → Checked (CkRv × GkmModule γ)
  | .openSession id flags userData result next =>
    gkmModuleCOpenSession m id flags userData result next
  | .closeSession handle => .ok (gkmModuleCCloseSession m handle)
  | .closeAllSessions id => gkmModuleCCloseAllSessions m id
  | .login handle userType pin => .ok (gkmModuleCLogin c m handle userType pin)
  | .logout handle => .ok (gkmModuleCLogout c m handle)

/-- The module after a sequence of calls. -/
def runModuleCalls (c : GkmModuleClass γ) : List ModuleCall → GkmModule γ → Checked (GkmModule γ)
  | [], m => .ok m
  | call :: calls, m => do
      let (_, m) ← call.run c m
      runModuleCalls c calls m

/-- Every session that is opened in a run is given a handle that no open session has. -/
def FreshRun (c : GkmModuleClass γ) : List ModuleCall → GkmModule γ → Prop
  | [], _ => True
  | call :: calls, m =>
    (∀ id flags userData result next, call = .openSession id flags userData result next →
      FreshHandle m) ∧
    ∀ r, call.run c m = .ok r → FreshRun c calls r.2

theorem ModuleCall.run_consistent (hm : Consistent m) {c : GkmModuleClass γ} {call : ModuleCall}
    {r : CkRv × GkmModule γ}
    (hfresh : ∀ id flags userData result next, call = .openSession id flags userData result next →
      FreshHandle m) (h : call.run c m = .ok r) : Consistent r.2 := by
  cases call with
  | openSession id flags userData result next =>
    exact openSession_consistent hm (hfresh _ _ _ _ _ rfl) h
  | closeSession handle =>
    cases h
    exact closeSession_consistent hm handle
  | closeAllSessions id => exact closeAllSessions_consistent hm h
  | login handle userType pin =>
    cases h
    exact login_consistent hm c handle userType pin
  | logout handle =>
    cases h
    exact logout_consistent hm c handle

/-- In every run in which no session is given the handle of an open one, the tables agree, every
apartment has sessions, and the login states are as they should be. -/
theorem apartments_consistent (c : GkmModuleClass γ) (derived : γ) {calls : List ModuleCall}
    (hfresh : FreshRun c calls (gkmModuleInit derived)) {m : GkmModule γ}
    (h : runModuleCalls c calls (gkmModuleInit derived) = .ok m) :
    Consistent m ∧ ∀ a b apt apt', m.apartmentsById a = some apt → m.apartmentsById b = some apt' →
      a ≠ b → ∀ r ∈ apt.sessions, r ∉ apt'.sessions := by
  have hrun : ∀ (calls : List ModuleCall) (m₀ : GkmModule γ), Consistent m₀ →
      FreshRun c calls m₀ → runModuleCalls c calls m₀ = .ok m → Consistent m := by
    intro calls
    induction calls with
    | nil =>
      intro m₀ hm₀ _ h
      cases h
      exact hm₀
    | cons call calls ih =>
      intro m₀ hm₀ hfresh h
      obtain ⟨r, hr, h⟩ := bind_eq_ok.1 h
      exact ih r.2 (ModuleCall.run_consistent hm₀ hfresh.1 hr) (hfresh.2 r hr) h
  have hm := hrun calls _ (consistent_init derived) hfresh h
  exact ⟨hm, fun a b apt apt' ha hb hne r hr hr' => hne (hm.disjoint ha hb hr hr')⟩

/-- A class that refuses nothing. -/
def plainClass : GkmModuleClass Unit where
  loginUser _ _ _ := ((), none)
  loginSo _ _ _ := ((), none)
  logoutUser _ _ := ((), none)
  logoutSo _ _ := ((), none)
  loginContextSpecific _ _ _ := ckrOk

/-- `C_OpenSession` of a read-only session, without an application. -/
def openCall : ModuleCall := .openSession gkmSlotId ckfSerialSession none true 0

/-- A session is opened, logged in, and closed after a second one was opened. -/
def sampleCalls : List ModuleCall :=
  [openCall, .login 1 ckuUser [], openCall, .closeSession 1]

theorem sampleCalls_fresh : FreshRun plainClass sampleCalls (gkmModuleInit ()) := by
  refine ⟨fun _ _ _ _ _ _ => rfl, fun r hr => ?_⟩
  cases hr
  refine ⟨(fun _ _ _ _ _ h => by cases h), fun r hr => ?_⟩
  cases hr
  refine ⟨fun _ _ _ _ _ _ => rfl, fun r hr => ?_⟩
  cases hr
  exact ⟨(fun _ _ _ _ _ h => by cases h), fun _ _ => trivial⟩

theorem apartments_consistent_sample :
    ∃ m, runModuleCalls plainClass sampleCalls (gkmModuleInit ()) = .ok m ∧ Consistent m ∧
      m.sessionsByHandle 2 = some 1 :=
  ⟨_, rfl, (apartments_consistent plainClass () sampleCalls_fresh rfl).1, rfl⟩

/-! ### The counter of handles wraps -/

/-- The apartment of the one session. -/
abbrev soloApartment : Apartment := { aptId := 1, sessions := [0], loggedIn := ckuNone }

/-- One session, with the handle 1, is open. -/
structure Solo (m : GkmModule Unit) (counter : UInt64) : Prop where
  table : m.sessionsByHandle = update (fun _ => none) 1 (some 0)
  apartments : m.apartmentsById = update (fun _ => none) 1 (some soloApartment)
  session : m.memory 0 = { handle := 1, apartment := 1, readOnly := true, loggedIn := ckuNone }
  used : m.free ≠ 0
  counter : m.handleCounter = counter

/-- Another session is opened. -/
theorem Solo.openCall {m : GkmModule Unit} {counter : UInt64} (hm : Solo m counter) :
    Gkm.openCall.run plainClass m = .ok (registerSession m soloApartment true) := by
  have happ : openApartment m gkmSlotId none 0 = .ok soloApartment := by
    have hid : apartmentId gkmSlotId 0 = 1 := by decide
    simp only [openApartment, Option.getD_none, hid, hm.apartments, update_self, Option.getD_some]
  change gkmModuleCOpenSession m gkmSlotId ckfSerialSession none true 0 = _
  unfold gkmModuleCOpenSession
  rw [if_neg (by decide), if_neg (by decide), if_neg (by decide), if_neg (by decide)]
  change (openApartment m gkmSlotId none 0 >>= _) = _
  rw [happ]
  rfl

/-- Another session is opened and closed again. -/
theorem Solo.pair {m : GkmModule Unit} {counter handle : UInt64} (hm : Solo m counter)
    (hhandle : (gkmModuleNextHandle m).1 = handle) (hne : handle ≠ 1) :
    ∃ m', runModuleCalls plainClass [Gkm.openCall, .closeSession handle] m = .ok m' ∧
      Solo m' (handle + 1) := by
  have hclose : runModuleCalls plainClass [Gkm.openCall, .closeSession handle] m =
      .ok (gkmModuleCCloseSession
        (registerSession m soloApartment true).2 handle).2 := by
    rw [runModuleCalls, hm.openCall]
    rfl
  refine ⟨_, hclose, ?_⟩
  have hby : (registerSession m soloApartment true).2.sessionsByHandle handle = some m.free := by
    rw [← hhandle]
    exact update_self ..
  have hmemory : (registerSession m soloApartment true).2.memory m.free = ⟨handle, 1, true, ckuNone⟩ := by
    rw [← hhandle]
    exact update_self ..
  have hapt : (registerSession m soloApartment true).2.apartmentsById 1 =
        some { aptId := 1, sessions := [m.free, 0], loggedIn := ckuNone } := by
    change update m.apartmentsById 1 (some ⟨1, [m.free, 0], ckuNone⟩) 1 = _
    exact update_self ..
  unfold gkmModuleCCloseSession
  simp only [hby, hmemory, hapt, mem_cons, true_or, if_true, erase_cons_head]
  refine ⟨?_, ?_, ?_, Nat.succ_ne_zero _, ?_⟩
  · funext h
    by_cases hh : h = handle
    · dsimp only
      rw [hh, update_self, update_of_ne hne]
    · dsimp only
      rw [update_of_ne hh]
      change update m.sessionsByHandle (gkmModuleNextHandle m).1 _ h = _
      rw [hhandle, update_of_ne hh, hm.table]
  · funext a
    dsimp only
    by_cases ha : a = 1
    · rw [ha, update_self, update_self]
      rfl
    · rw [update_of_ne ha, update_of_ne ha]
      change update m.apartmentsById 1 _ a = _
      rw [update_of_ne ha, hm.apartments, update_of_ne ha]
  · change update m.memory m.free _ 0 = _
    rw [update_of_ne hm.used.symm, hm.session]
  · rw [← hhandle]
    rfl

/-- `n` sessions are opened and closed again, with the handles from 2 on. -/
def wrapPairs : Nat → List ModuleCall
  | 0 => []
  | n + 1 => wrapPairs n ++ [openCall, .closeSession (UInt64.ofNat (n + 2))]

theorem runModuleCalls_append (c : GkmModuleClass γ) (calls calls' : List ModuleCall)
    (m : GkmModule γ) :
    runModuleCalls c (calls ++ calls') m = runModuleCalls c calls m >>= runModuleCalls c calls' := by
  induction calls generalizing m with
  | nil => rfl
  | cons call calls ih =>
    rw [cons_append, runModuleCalls, runModuleCalls]
    cases call.run c m with
    | error e => rfl
    | ok r => exact ih r.2

theorem Solo.pairs {m : GkmModule Unit} (hm : Solo m 2) {n : Nat} (hn : n + 2 ≤ ckMateMaxHandle.toNat) :
    ∃ m', runModuleCalls plainClass (wrapPairs n) m = .ok m' ∧ Solo m' (UInt64.ofNat (n + 2)) := by
  have hmax : ckMateMaxHandle.toNat = 2 ^ 54 - 1 := rfl
  induction n with
  | zero => exact ⟨m, rfl, hm⟩
  | succ n ih =>
    obtain ⟨m₁, h₁, hm₁⟩ := ih (by omega)
    have hlt : n + 2 < 2 ^ 64 := by omega
    have htoNat : (UInt64.ofNat (n + 2)).toNat = n + 2 := UInt64.toNat_ofNat_of_lt' hlt
    have hcounter : (gkmModuleNextHandle m₁).1 = UInt64.ofNat (n + 2) := by
      unfold gkmModuleNextHandle
      rw [hm₁.counter]
      dsimp only
      rw [if_neg]
      intro heq
      have := congrArg UInt64.toNat heq
      omega
    have hone : UInt64.ofNat (n + 2) ≠ 1 := by
      intro heq
      have := congrArg UInt64.toNat heq
      rw [htoNat] at this
      have h1 : (1 : UInt64).toNat = 1 := rfl
      omega
    obtain ⟨m', h', hm'⟩ := hm₁.pair hcounter hone
    refine ⟨m', ?_, ?_⟩
    · rw [wrapPairs, runModuleCalls_append, h₁]
      exact h'
    · have hadd : UInt64.ofNat (n + 1 + 2) = UInt64.ofNat (n + 2) + 1 := by
        rw [show n + 1 + 2 = n + 2 + 1 from rfl, UInt64.ofNat_add]
        rfl
      rw [hadd]
      exact hm'

/-- A session with the handle 1 is open when the counter is there again: the table has the new
session only, and the old one is still listed. -/
theorem Solo.not_consistent {m : GkmModule Unit} (hm : Solo m 1) :
    ¬ Consistent (registerSession m soloApartment true).2 := by
  intro hc
  have hapt : (registerSession m soloApartment true).2.apartmentsById 1 =
      some { aptId := 1, sessions := [m.free, 0], loggedIn := ckuNone } :=
    (rfl : _ = update m.apartmentsById 1 (some ⟨1, [m.free, 0], ckuNone⟩) 1).trans
      (update_self ..)
  have hmemory : (registerSession m soloApartment true).2.memory 0 = m.memory 0 :=
    update_of_ne hm.used.symm ..
  have hhandle : (gkmModuleNextHandle m).1 = 1 := by
    unfold gkmModuleNextHandle
    rw [hm.counter]
    rfl
  have hnew : (registerSession m soloApartment true).2.sessionsByHandle 1 = some m.free := by
    rw [← hhandle]
    exact update_self ..
  -- the invariant gives the pointer of the old session for its handle
  have hold : (registerSession m soloApartment true).2.sessionsByHandle 1 = some 0 :=
    (hc.table 1 0).2 ⟨by rw [hmemory, hm.session], 1, _, hapt, by simp⟩
  exact hm.used (Option.some.inj (hnew.symm.trans hold))

theorem solo_of_openCall :
    ∃ m, runModuleCalls plainClass [openCall] (gkmModuleInit ()) = .ok m ∧ Solo m 2 :=
  ⟨_, rfl, rfl, rfl, rfl, by decide, rfl⟩

theorem wrapped_not_consistent {n : Nat} (hn : n + 2 = ckMateMaxHandle.toNat) :
    ∃ m, runModuleCalls plainClass
        ([openCall] ++ (wrapPairs n ++ ([openCall, .closeSession 0] ++ [openCall])))
        (gkmModuleInit ()) = .ok m ∧ ¬ Consistent m := by
  obtain ⟨m₁, h₁, hm₁⟩ := solo_of_openCall
  obtain ⟨m₂, h₂, hm₂⟩ := hm₁.pairs hn.le
  rw [hn, UInt64.ofNat_toNat] at hm₂
  have hwrap : (gkmModuleNextHandle m₂).1 = 0 := by
    unfold gkmModuleNextHandle
    rw [hm₂.counter]
    rfl
  obtain ⟨m₃, h₃, hm₃⟩ := hm₂.pair hwrap (by decide)
  have h₄ : runModuleCalls plainClass [openCall] m₃ =
      .ok (registerSession m₃ soloApartment true).2 := by
    rw [runModuleCalls, hm₃.openCall]
    rfl
  refine ⟨_, ?_, hm₃.not_consistent⟩
  rw [runModuleCalls_append, h₁, ok_bind, runModuleCalls_append, h₂, ok_bind,
    runModuleCalls_append, h₃, ok_bind, h₄]

/-- After `2 ^ 54 - 1` sessions the counter starts again, and the next session but one takes the place
of the first in the table. -/
theorem handle_counter_wraps :
    ∃ m, runModuleCalls plainClass
        ([openCall] ++ (wrapPairs (ckMateMaxHandle.toNat - 2) ++
          ([openCall, .closeSession 0] ++ [openCall])))
        (gkmModuleInit ()) = .ok m ∧ ¬ Consistent m :=
  wrapped_not_consistent (Nat.sub_add_cancel (by decide))

end MateKeyring.Gkm
