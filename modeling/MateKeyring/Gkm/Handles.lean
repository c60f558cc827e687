import MateKeyring.Gkm.Apartments
import Mathlib.Algebra.Group.Nat.Defs

/-!
# Handles

The numbers of `gkm_module_next_handle` and `gkm_util_next_handle`. A session is given the first when
it is opened, and an object the second when a manager is given it for the first time; an object keeps
its handle as long as it lives. The second is also the identifier of an application.

The numbers of a run are new and none of them is 0 as long as neither counter has gone round and the
two have not met (`handles_unique_iff`).
-/

set_option autoImplicit false

namespace MateKeyring.Gkm.Handles

open Function (update update_of_ne update_self)
open Rpc (CkRv ckrOk)

/-! ## The counters -/

/-- The cast of a `gint` to a `CK_ULONG`. -/
def widen (n : UInt32) : UInt64 :=
  if n < 0x80000000 then n.toUInt64 else n.toUInt64 + 0xffffffff00000000

/-- `gkm_util_next_handle`: the handle, and `next_handle` after it. -/
def gkmUtilNextHandle (nextHandle : UInt32) : UInt64 × UInt32 := (widen nextHandle, nextHandle + 1)

/-- `gkm_object_set_handle`, for an object with the handle `old`: the handle after it. -/
def gkmObjectSetHandle (old handle : UInt64) : UInt64 :=
  if handle = 0 then old else if old ≠ 0 then old else handle

/-- The module, `next_handle` of `gkm-util.c`, and the handles of the objects that live, by their
addresses. An object without a handle has 0. -/
structure System (γ : Type) where
  module : GkmModule γ
  nextHandle : UInt32
  objects : Nat → Option UInt64

variable {γ : Type}

def systemInit (derived : γ) : System γ where
  module := gkmModuleInit derived
  nextHandle := 0x10
  objects _ := none

/-! ## Steps -/

/-- What happens: a call of an application, or an object is made, given to a manager or finalized. -/
inductive Action where
  | call (call : ModuleCall)
  | newObject (o : Nat)
  | addObject (o : Nat)
  | finalizeObject (o : Nat)

/-- The number for a new application is that of `gkm_util_next_handle`. -/
def withNext (next : UInt64) : ModuleCall → ModuleCall
  | .openSession id flags userData result _ => .openSession id flags userData result next
  | call => call

/-- The call comes to `apartment_new` with an application that has no identifier. -/
def newApplication : ModuleCall → Bool
  | .openSession id flags userData result _ =>
    apartmentSlot id = gkmSlotId ∧ result = true ∧ flags &&& ckfSerialSession ≠ 0 ∧
      flags &&& ckfGApplicationSession ≠ 0 ∧ userData = some 0
  | _ => false

/-- The result of a call in the system. -/
def called (c : GkmModuleClass γ) (s : System γ) (call : ModuleCall) :
    Checked (CkRv × GkmModule γ) :=
  (withNext (gkmUtilNextHandle s.nextHandle).1 call).run c s.module

/-- The call opens a session. -/
def opensSession (c : GkmModuleClass γ) (s : System γ) (call : ModuleCall) : Bool :=
  match call, called c s call with
  | .openSession .., .ok (rv, _) => rv = ckrOk
  | _, _ => false

/-- `next_handle` is used for a new application. -/
def afterCall (s : System γ) (call : ModuleCall) (module : GkmModule γ) : System γ :=
  { s with
    module
    nextHandle :=
      if newApplication call then (gkmUtilNextHandle s.nextHandle).2 else s.nextHandle }

/-- `add_object` of `gkm-manager.c`. -/
def addObject (s : System γ) (o : Nat) : System γ :=
  if s.objects o = some 0 then
    { s with
      nextHandle := (gkmUtilNextHandle s.nextHandle).2
      objects := update s.objects o
        (some (gkmObjectSetHandle 0 (gkmUtilNextHandle s.nextHandle).1)) }
  else s

/-- A step. A new object has an address that no other has. -/
def step (c : GkmModuleClass γ) (s : System γ) : Action → Checked (System γ)
  | .call call => do
      let (_, module) ← called c s call
      pure (afterCall s call module)
  | .newObject o =>
    .ok (if s.objects o = none then { s with objects := update s.objects o (some 0) }
      else s)
  | .addObject o => .ok (addObject s o)
  | .finalizeObject o => .ok { s with objects := update s.objects o none }

/-- The step asks `gkm_util_next_handle` for a number. -/
def asksUtil (s : System γ) : Action → Bool
  | .call call => newApplication call
  | .addObject o => s.objects o = some 0
  | _ => false

/-- The step asks `gkm_module_next_handle` for a number. -/
def asksModule (c : GkmModuleClass γ) (s : System γ) : Action → Bool
  | .call call => opensSession c s call
  | _ => false

/-! ## Runs -/

/-- A handle is not 0, and no session and no object that lives has it. -/
structure Unique (s : System γ) (h : UInt64) : Prop where
  nonzero : h ≠ 0
  sessions : s.module.sessionsByHandle h = none
  objects : ∀ o, s.objects o ≠ some h

/-- Each number that is returned in a run is unique then. -/
def UniqueRun (c : GkmModuleClass γ) : List Action → System γ → Prop
  | [], _ => True
  | a :: as, s =>
    (asksUtil s a = true → Unique s (gkmUtilNextHandle s.nextHandle).1) ∧
    (asksModule c s a = true → Unique s (gkmModuleNextHandle s.module).1) ∧
    ∀ s', step c s a = .ok s' → UniqueRun c as s'

/-- How many sessions were opened, and how often `gkm_util_next_handle` was asked. -/
structure Tally where
  sessions : Nat
  numbers : Nat

/-- The tally after a step. -/
def Tally.after (c : GkmModuleClass γ) (t : Tally) (s : System γ) (a : Action) : Tally where
  sessions := if asksModule c s a then t.sessions + 1 else t.sessions
  numbers := if asksUtil s a then t.numbers + 1 else t.numbers

/-- The number that `gkm_util_next_handle` returns after `n` others. -/
def numbered (n : Nat) : UInt64 := widen (UInt32.ofNat (n + 16))

/-- There are fewer than `2 ^ 32 - 16` numbers before, and no session was given this one. -/
structure NumberRoom (s : System γ) (t : Tally) : Prop where
  below : t.numbers + 16 < 2 ^ 32
  apart : s.module.sessionsByHandle (numbered t.numbers) = none

/-- There are fewer than `2 ^ 54 - 2` sessions before, and no object was given this number. -/
structure SessionRoom (s : System γ) (t : Tally) : Prop where
  below : t.sessions + 1 < ckMateMaxHandle.toNat
  apart : ∀ o, s.objects o ≠ some (UInt64.ofNat (t.sessions + 1))

/-- Whenever a number is asked for in a run, there is room for it. -/
def Within (c : GkmModuleClass γ) : List Action → System γ → Tally → Prop
  | [], _, _ => True
  | a :: as, s, t =>
    (asksUtil s a = true → NumberRoom s t) ∧
    (asksModule c s a = true → SessionRoom s t) ∧
    ∀ s', step c s a = .ok s' → Within c as s' (t.after c s a)

/-! ## Arithmetic of the counters -/

theorem toNat_widen (n : UInt32) :
    (widen n).toNat = if n.toNat < 2 ^ 31 then n.toNat else n.toNat + (2 ^ 64 - 2 ^ 32) := by
  have hn := n.toNat_lt
  unfold widen
  by_cases h : n < 0x80000000
  · have h' : n.toNat < 2 ^ 31 := h
    rw [if_pos h, if_pos h', UInt32.toNat_toUInt64]
  · have h' : ¬ n.toNat < 2 ^ 31 := h
    have hmask : (0xffffffff00000000 : UInt64).toNat = 2 ^ 64 - 2 ^ 32 := rfl
    rw [if_neg h, if_neg h', UInt64.toNat_add, UInt32.toNat_toUInt64, hmask]
    omega

theorem widen_inj {m n : UInt32} (h : widen m = widen n) : m = n := by
  have hm := m.toNat_lt
  have hn := n.toNat_lt
  have heq := congrArg UInt64.toNat h
  rw [toNat_widen, toNat_widen] at heq
  apply UInt32.toNat_inj.1
  split at heq <;> split at heq <;> omega

theorem widen_eq_zero {n : UInt32} : widen n = 0 ↔ n = 0 := by
  constructor
  · exact fun h => widen_inj (h.trans (by decide))
  · rintro rfl
    decide

variable {n : Nat}

/-- Two of the numbers before the counter goes round are different. -/
theorem numbered_inj {m : Nat} (hm : m + 16 < 2 ^ 32) (hn : n + 16 < 2 ^ 32)
    (h : numbered m = numbered n) : m = n := by
  have heq := congrArg UInt32.toNat (widen_inj h)
  rw [UInt32.toNat_ofNat_of_lt' hm, UInt32.toNat_ofNat_of_lt' hn] at heq
  omega

theorem numbered_ne_zero (hn : n + 16 < 2 ^ 32) : numbered n ≠ 0 := by
  intro h
  have heq := congrArg UInt32.toNat (widen_eq_zero.1 h)
  rw [UInt32.toNat_ofNat_of_lt' hn] at heq
  have h0 : (0 : UInt32).toNat = 0 := rfl
  omega

/-! ## What a call does to the sessions -/

variable {m : GkmModule γ} {r : CkRv × GkmModule γ}

theorem openSession_cases {id flags next : UInt64} {userData : Option UInt64}
    {result : Bool}
    (h : gkmModuleCOpenSession m id flags userData result next = .ok r) :
    (r.1 ≠ ckrOk ∧ r.2 = m) ∨ ∃ apt readOnly, r = registerSession m apt readOnly := by
  unfold gkmModuleCOpenSession at h
  split at h
  · cases h
    exact .inl ⟨(by decide : ckrSlotIdInvalid ≠ ckrOk), rfl⟩
  · split at h
    · cases h
      exact .inl ⟨(by decide : Rpc.ckrArgumentsBad ≠ ckrOk), rfl⟩
    · split at h
      · cases h
        exact .inl ⟨(by decide : ckrSessionParallelNotSupported ≠ ckrOk), rfl⟩
      · split at h
        · cases h
          exact .inl ⟨(by decide : Rpc.ckrArgumentsBad ≠ ckrOk), rfl⟩
        · obtain ⟨apt, -, h⟩ := bind_eq_ok.1 h
          split at h
          · cases h
            exact .inl ⟨(by decide : ckrSessionReadWriteSoExists ≠ ckrOk), rfl⟩
          · cases h
            exact .inr ⟨apt, _, rfl⟩

/-- The table of sessions has nothing new, and the counter stays. -/
structure Fewer (m m' : GkmModule γ) : Prop where
  sessions : ∀ h r, m'.sessionsByHandle h = some r → m.sessionsByHandle h = some r
  counter : m'.handleCounter = m.handleCounter

theorem Fewer.refl (m : GkmModule γ) : Fewer m m := ⟨fun _ _ h => h, rfl⟩

theorem closeSession_fewer (m : GkmModule γ) (handle : UInt64) :
    Fewer m (gkmModuleCCloseSession m handle).2 := by
  unfold gkmModuleCCloseSession
  split
  · exact .refl m
  · split
    · exact .refl m
    · split
      · refine ⟨fun h r hr => ?_, rfl⟩
        change update m.sessionsByHandle handle none h = some r at hr
        by_cases hh : h = handle
        · rw [hh, update_self] at hr
          cases hr
        · rwa [update_of_ne hh] at hr
      · exact .refl m

theorem closeAllSessions_fewer {id : UInt64}
    (h : gkmModuleCCloseAllSessions m id = .ok r) : Fewer m r.2 := by
  unfold gkmModuleCCloseAllSessions at h
  split at h
  · cases h
    exact .refl m
  · split at h
    · cases h
      exact .refl m
    · obtain ⟨byHandle, hby, h⟩ := bind_eq_ok.1 h
      cases h
      refine ⟨fun k s hs => ?_, rfl⟩
      change byHandle k = some s at hs
      rw [unregisterSessions_eq hby] at hs
      split at hs
      · cases hs
      · exact hs

theorem chain_fewer (m : GkmModule γ) (answer : γ × Option CkRv) (apartment user : UInt64) :
    Fewer m (chain m answer apartment user).2 := by
  obtain ⟨derived, rv⟩ := answer
  cases rv with
  | some rv => exact ⟨fun _ _ h => h, rfl⟩
  | none =>
    unfold chain realLogin
    cases ha : m.apartmentsById apartment with
    | none =>
      simp only [ha]
      exact ⟨fun _ _ h => h, rfl⟩
    | some apt =>
      simp only [ha]
      exact ⟨fun _ _ h => h, rfl⟩

theorem login_fewer (c : GkmModuleClass γ) (m : GkmModule γ) (handle userType : UInt64)
    (pin : Bytes) : Fewer m (gkmModuleCLogin c m handle userType pin).2 := by
  unfold gkmModuleCLogin
  repeat' split
  all_goals first
    | exact .refl m
    | exact chain_fewer m _ _ _

theorem logout_fewer (c : GkmModuleClass γ) (m : GkmModule γ) (handle : UInt64) :
    Fewer m (gkmModuleCLogout c m handle).2 := by
  unfold gkmModuleCLogout
  repeat' split
  all_goals first
    | exact .refl m
    | exact chain_fewer m _ _ _

/-- A call opens a session, or there are no more of them than before. -/
theorem called_cases {c : GkmModuleClass γ} {s : System γ} {call : ModuleCall}
    (h : called c s call = .ok r) :
    (opensSession c s call = true ∧ ∃ apt readOnly, r = registerSession s.module apt readOnly) ∨
      (opensSession c s call = false ∧ Fewer s.module r.2) := by
  unfold opensSession
  rw [h]
  cases call with
  | openSession id flags userData result next =>
    rcases openSession_cases h with ⟨hrv, hm⟩ | ⟨apt, readOnly, rfl⟩
    · right
      rw [hm]
      exact ⟨decide_eq_false hrv, .refl _⟩
    · exact .inl ⟨rfl, apt, readOnly, rfl⟩
  | closeSession handle =>
    cases h
    exact .inr ⟨rfl, closeSession_fewer _ handle⟩
  | closeAllSessions id => exact .inr ⟨rfl, closeAllSessions_fewer h⟩
  | login handle userType pin =>
    cases h
    exact .inr ⟨rfl, login_fewer c _ handle userType pin⟩
  | logout handle =>
    cases h
    exact .inr ⟨rfl, logout_fewer c _ handle⟩

/-! ## The invariant -/

/-- The counters are those of the tally, and every handle was given before. -/
structure Numbered (s : System γ) (t : Tally) : Prop where
  counter : s.module.handleCounter = UInt64.ofNat (t.sessions + 1)
  counter_le : t.sessions + 1 ≤ ckMateMaxHandle.toNat
  next : s.nextHandle = UInt32.ofNat (t.numbers + 16)
  next_le : t.numbers + 16 ≤ 2 ^ 32
  sessions : ∀ h r, s.module.sessionsByHandle h = some r → h.toNat ≤ t.sessions
  objects : ∀ o h, s.objects o = some h → h = 0 ∨ ∃ j < t.numbers, h = numbered j

theorem numbered_init (derived : γ) : Numbered (systemInit derived) ⟨0, 0⟩ where
  counter := rfl
  counter_le := by decide
  next := rfl
  next_le := by decide
  sessions h r hr := by cases hr
  objects o h ho := by cases ho

variable {c : GkmModuleClass γ} {s s' : System γ} {t : Tally}

/-- The number of `gkm_util_next_handle` is unique if there is room for it, and only then. -/
theorem Numbered.util_iff (hs : Numbered s t) :
    Unique s (gkmUtilNextHandle s.nextHandle).1 ↔ NumberRoom s t := by
  have hhandle : (gkmUtilNextHandle s.nextHandle).1 = numbered t.numbers := by
    rw [gkmUtilNextHandle, hs.next]
    rfl
  rw [hhandle]
  constructor
  · intro hu
    refine ⟨lt_of_le_of_ne hs.next_le fun hround => hu.nonzero ?_, hu.sessions⟩
    rw [numbered, hround]
    decide
  · intro hr
    refine ⟨numbered_ne_zero hr.below, hr.apart, fun o ho => ?_⟩
    rcases hs.objects o _ ho with h0 | ⟨j, hj, heq⟩
    · exact numbered_ne_zero hr.below h0
    · have := numbered_inj hr.below (by have := hr.below; omega) heq
      omega

theorem ofNat_toNat (hn : n + 1 ≤ ckMateMaxHandle.toNat) :
    (UInt64.ofNat (n + 1)).toNat = n + 1 := by
  have hmax : ckMateMaxHandle.toNat = 2 ^ 54 - 1 := rfl
  have hsize : UInt64.size = 2 ^ 64 := rfl
  exact UInt64.toNat_ofNat_of_lt' (by omega)

/-- Before the counter is at its end, the number of a new session is the next one. -/
theorem Numbered.moduleNext (hs : Numbered s t) (hlt : t.sessions + 1 < ckMateMaxHandle.toNat) :
    (gkmModuleNextHandle s.module).1 = UInt64.ofNat (t.sessions + 1) := by
  unfold gkmModuleNextHandle
  rw [hs.counter]
  dsimp only
  rw [if_neg]
  intro heq
  have := congrArg UInt64.toNat heq
  rw [ofNat_toNat hs.counter_le] at this
  omega

/-- The number of `gkm_module_next_handle` is unique if there is room for it, and only then. -/
theorem Numbered.module_iff (hs : Numbered s t) :
    Unique s (gkmModuleNextHandle s.module).1 ↔ SessionRoom s t := by
  constructor
  · intro hu
    have hlt : t.sessions + 1 < ckMateMaxHandle.toNat := by
      refine lt_of_le_of_ne hs.counter_le fun hround => hu.nonzero ?_
      unfold gkmModuleNextHandle
      rw [hs.counter, hround, UInt64.ofNat_toNat]
      dsimp only
      rw [if_pos rfl]
    refine ⟨hlt, ?_⟩
    rw [← hs.moduleNext hlt]
    exact hu.objects
  · intro hr
    rw [hs.moduleNext hr.below]
    refine ⟨?_, ?_, hr.apart⟩
    · intro h0
      have := congrArg UInt64.toNat h0
      rw [ofNat_toNat hs.counter_le] at this
      have h0 : (0 : UInt64).toNat = 0 := rfl
      omega
    · cases hsome : s.module.sessionsByHandle (UInt64.ofNat (t.sessions + 1)) with
      | none => rfl
      | some r =>
        have := hs.sessions _ r hsome
        rw [ofNat_toNat hs.counter_le] at this
        omega

theorem Numbered.next_succ (hs : Numbered s t) :
    (gkmUtilNextHandle s.nextHandle).2 = UInt32.ofNat (t.numbers + 1 + 16) := by
  have hsucc : t.numbers + 1 + 16 = t.numbers + 16 + 1 := by omega
  rw [hsucc, UInt32.ofNat_add (t.numbers + 16) 1, ← hs.next]
  rfl

/-- What a table has after an update is new or was there. -/
theorem some_of_update {f : Nat → Option UInt64} {o p : Nat} {v : Option UInt64} {h : UInt64}
    (hp : update f o v p = some h) : v = some h ∨ f p = some h := by
  by_cases hpo : p = o
  · rw [hpo, update_self] at hp
    exact .inl hp
  · rw [update_of_ne hpo] at hp
    exact .inr hp

theorem Numbered.addObject (hs : Numbered s t) {o : Nat}
    (hutil : asksUtil s (.addObject o) = true → NumberRoom s t) :
    Numbered (Handles.addObject s o) (t.after c s (.addObject o)) := by
  by_cases ho : s.objects o = some 0
  · have hr := hutil (decide_eq_true ho)
    have hafter : t.after c s (.addObject o) = ⟨t.sessions, t.numbers + 1⟩ := by
      simp only [Tally.after, asksModule, asksUtil, ho, decide_true, if_true, if_false,
        Bool.false_eq_true]
    rw [Handles.addObject, if_pos ho, hafter]
    refine ⟨hs.counter, hs.counter_le, hs.next_succ, hr.below, hs.sessions, fun p h hp => ?_⟩
    rcases some_of_update hp with hnew | hp
    · cases hnew
      right
      refine ⟨t.numbers, t.numbers.lt_succ_self, ?_⟩
      rw [gkmUtilNextHandle, hs.next]
      exact (if_neg (numbered_ne_zero hr.below)).trans (if_neg (not_not_intro rfl))
    · exact (hs.objects p h hp).imp_right fun ⟨j, hj, heq⟩ => ⟨j, Nat.lt_succ_of_lt hj, heq⟩
  · have hafter : t.after c s (.addObject o) = t := by
      simp only [Tally.after, asksModule, asksUtil, ho, decide_false, if_false, Bool.false_eq_true]
    rw [Handles.addObject, if_neg ho, hafter]
    exact hs

/-- An open session has a number that was given, the new one too. -/
theorem Numbered.sessions_register (hs : Numbered s t) (hr : SessionRoom s t) {apt : Apartment}
    {readOnly : Bool} {h : UInt64} {r : Nat}
    (hh : (registerSession s.module apt readOnly).2.sessionsByHandle h = some r) :
    h.toNat ≤ t.sessions + 1 := by
  change update s.module.sessionsByHandle (gkmModuleNextHandle s.module).1 _ h = _ at hh
  by_cases heq : h = (gkmModuleNextHandle s.module).1
  · rw [heq, hs.moduleNext hr.below, ofNat_toNat hs.counter_le]
  · rw [update_of_ne heq] at hh
    exact Nat.le_succ_of_le (hs.sessions h r hh)

theorem Numbered.call (hs : Numbered s t) {call : ModuleCall}
    (hutil : asksUtil s (.call call) = true → NumberRoom s t)
    (hmodule : asksModule c s (.call call) = true → SessionRoom s t)
    (h : called c s call = .ok r) :
    Numbered (afterCall s call r.2) (t.after c s (.call call)) := by
  have hnumbers : (afterCall s call r.2).nextHandle =
        UInt32.ofNat ((t.after c s (.call call)).numbers + 16) ∧
      (t.after c s (.call call)).numbers + 16 ≤ 2 ^ 32 ∧
      t.numbers ≤ (t.after c s (.call call)).numbers := by
    by_cases happ : newApplication call = true
    · have hr := hutil happ
      simp only [Tally.after, asksUtil, afterCall, happ, if_true]
      exact ⟨hs.next_succ, hr.below, t.numbers.le_succ⟩
    · simp only [Tally.after, asksUtil, afterCall, happ, if_false, Bool.false_eq_true]
      exact ⟨hs.next, hs.next_le, le_rfl⟩
  obtain ⟨hnext, hle, hmono⟩ := hnumbers
  have hobjects : ∀ o h, (afterCall s call r.2).objects o = some h →
      h = 0 ∨ ∃ j < (t.after c s (.call call)).numbers, h = numbered j := fun o h ho =>
    (hs.objects o h ho).imp_right fun ⟨j, hj, heq⟩ => ⟨j, lt_of_lt_of_le hj hmono, heq⟩
  rcases called_cases h with ⟨hopens, apt, readOnly, rfl⟩ | ⟨hopens, hfewer⟩
  · have hr := hmodule hopens
    have hsessions : (t.after c s (.call call)).sessions = t.sessions + 1 := by
      simp only [Tally.after, asksModule, hopens, if_true]
    refine ⟨?_, ?_, hnext, hle, fun h r hh => ?_, hobjects⟩
    · rw [hsessions, UInt64.ofNat_add, ← hs.moduleNext hr.below]
      rfl
    · rw [hsessions]
      exact hr.below
    · rw [hsessions]
      exact hs.sessions_register hr hh
  · have hsessions : (t.after c s (.call call)).sessions = t.sessions := by
      simp only [Tally.after, asksModule, hopens, if_false, Bool.false_eq_true]
    refine ⟨?_, ?_, hnext, hle, fun h r hh => ?_, hobjects⟩
    · rw [hsessions, ← hs.counter]
      exact hfewer.counter
    · rw [hsessions]
      exact hs.counter_le
    · rw [hsessions]
      exact hs.sessions h r (hfewer.sessions h r hh)

/-- What a step leaves of the invariant, when there is room for what it asks. -/
theorem Numbered.step (hs : Numbered s t) {a : Action}
    (hutil : asksUtil s a = true → NumberRoom s t)
    (hmodule : asksModule c s a = true → SessionRoom s t)
    (h : Handles.step c s a = .ok s') : Numbered s' (t.after c s a) := by
  cases a with
  | newObject o =>
    cases h
    split
    · refine ⟨hs.counter, hs.counter_le, hs.next, hs.next_le, hs.sessions, fun p h hp => ?_⟩
      rcases some_of_update hp with hnew | hp
      · cases hnew
        exact .inl rfl
      · exact hs.objects p h hp
    · exact hs
  | finalizeObject o =>
    cases h
    refine ⟨hs.counter, hs.counter_le, hs.next, hs.next_le, hs.sessions, fun p h hp => ?_⟩
    rcases some_of_update hp with hnew | hp
    · cases hnew
    · exact hs.objects p h hp
  | addObject o =>
    cases h
    exact hs.addObject hutil
  | call call =>
    obtain ⟨r, hr, h⟩ := bind_eq_ok.1 h
    cases h
    exact hs.call hutil hmodule hr

/-- From any state that is numbered, the numbers of a run are unique if there is room for them, and
only then. -/
theorem Numbered.run_iff {as : List Action} (hs : Numbered s t) :
    UniqueRun c as s ↔ Within c as s t := by
  induction as generalizing s t with
  | nil => exact Iff.rfl
  | cons a as ih =>
    have hutil : (asksUtil s a = true → Unique s (gkmUtilNextHandle s.nextHandle).1) ↔
        (asksUtil s a = true → NumberRoom s t) := imp_congr_right fun _ => hs.util_iff
    have hmodule : (asksModule c s a = true → Unique s (gkmModuleNextHandle s.module).1) ↔
        (asksModule c s a = true → SessionRoom s t) := imp_congr_right fun _ => hs.module_iff
    constructor
    · rintro ⟨hu, hm, hrest⟩
      have hu := hutil.1 hu
      have hm := hmodule.1 hm
      exact ⟨hu, hm, fun s' h => (ih (hs.step hu hm h)).1 (hrest s' h)⟩
    · rintro ⟨hu, hm, hrest⟩
      exact ⟨hutil.2 hu, hmodule.2 hm, fun s' h => (ih (hs.step hu hm h)).2 (hrest s' h)⟩

/-- The numbers of a run are not 0 and no live object or session has them, if there are fewer than
`2 ^ 54 - 2` sessions and `2 ^ 32 - 16` other numbers and the two do not meet, and only then. -/
theorem handles_unique_iff (c : GkmModuleClass γ) (derived : γ) (as : List Action) :
    UniqueRun c as (systemInit derived) ↔ Within c as (systemInit derived) ⟨0, 0⟩ :=
  (numbered_init derived).run_iff

/-! ### The numbers of objects go round -/

/-- One object after the other lives and dies. -/
def rounds : Nat → List Action → List Action
  | 0, as => as
  | n + 1, as => .newObject 0 :: .addObject 0 :: .finalizeObject 0 :: rounds n as

theorem unique_of_rounds {k : UInt32} {as : List Action}
    (h : UniqueRun c (rounds n as) ⟨m, k, fun _ => none⟩) :
    UniqueRun c as ⟨m, k + UInt32.ofNat n, fun _ => none⟩ := by
  induction n generalizing k with
  | zero =>
    rw [show k + UInt32.ofNat 0 = k from UInt32.add_zero k]
    exact h
  | succ n ih =>
    have hlast := ((h.2.2 _ rfl).2.2 _ rfl).2.2 ⟨m, k + 1, fun _ => none⟩
      (by simp [step, addObject, gkmUtilNextHandle])
    have hsum : k + UInt32.ofNat (n + 1) = k + 1 + UInt32.ofNat n := by
      rw [Nat.add_comm, UInt32.ofNat_add, UInt32.add_assoc]
      rfl
    rw [hsum]
    exact ih hlast

/-- After `2 ^ 32 - 16` objects the next one is given 0, `CK_INVALID_HANDLE`. -/
theorem zero_handle_for_object :
    ¬ UniqueRun plainClass (rounds (2 ^ 32 - 16) [.newObject 0, .addObject 0]) (systemInit ()) := by
  intro h
  have hlast := unique_of_rounds h
  have hround : (0x10 : UInt32) + UInt32.ofNat (2 ^ 32 - 16) = 0 := by decide
  rw [hround] at hlast
  exact ((hlast.2.2 _ rfl).1 rfl).nonzero rfl

end MateKeyring.Gkm.Handles
