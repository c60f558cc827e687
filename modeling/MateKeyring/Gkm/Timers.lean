import Mathlib.Data.List.Sort
import Mathlib.Logic.Function.Basic
import Mathlib.Logic.Relation
import MateKeyring.Lib.Accumulate

/-!
# The timers of the modules

`gkm-timer.c`: one queue of timers for all modules, and the thread that runs them. A critical section of
`timer_mutex` is one step here; the mutexes of the modules are taken and given back in steps of their own, so
that clients come between the moment at which the thread leaves the queue and the one at which it enters a
module. The clock is what each step reads, since `g_get_current_time` may be set back. Where no timer is started for
a second before the epoch or behind the last that a `glong` holds, the thread only touches timers that are there, a
callback runs at most once, in time and never after a cancel (`timers_safe`), and the thread never sleeps longer
than to the first timer (`sleeps_to_first`), whatever the order of the steps.
-/

set_option autoImplicit false

namespace MateKeyring.Gkm.Timers

open Function (update update_apply update_of_ne update_self)
open Lib List

universe u v w

variable {μ : Type u} {γ : Type v} {β : Type w}

/-! ## The state -/

/-- `struct _GkmTimer`, with the callback and its data in one. The field `serial` is the number of the call of
`gkm_timer_start` that made it; no code reads it. -/
structure GkmTimer (μ : Type u) (β : Type w) where
  when : Int
  mutex : μ
  callback : Option β
  serial : Nat

/-- Who may hold the mutex of a module. -/
inductive Actor (γ : Type v) where
  | timerThread
  | client (c : γ)

/-- How far `timer_thread_func` is with a timer: about to lock the mutex of the module, behind the test of the
callback, behind the call, or back from the module. `tv` is the clock that it had read. -/
inductive Stage (β : Type w) where
  | leaving (tv : Int)
  | entered (tv : Int) (callback : Option β)
  | inside
  | returning

/-- Where `timer_thread_func` is. With a timer it is outside of `timer_mutex`. -/
inductive Thread (β : Type w) where
  | looking
  | waiting (limit : Option Int)
  | busy (timer : Nat) (stage : Stage β)
  | stopped

/-- The clock by which the timer is due. -/
def Stage.clock : Stage β → Option Int
  | .leaving tv | .entered tv _ => some tv
  | .inside | .returning => none

/-- The thread is in the module. -/
def Stage.Within : Stage β → Prop
  | .entered _ _ | .inside => True
  | .leaving _ | .returning => False

/-- What happened to the timer of a serial number; a call has the clock that the thread had read. -/
inductive Entry (β : Type w) where
  | called (serial : Nat) (callback : β) (tv : Int)
  | cancelled (serial : Nat)

def Entry.serial : Entry β → Nat
  | .called n _ _ | .cancelled n => n

/-- The static variables of `gkm-timer.c`, the slices in use, who holds the mutex of each module, and what was
started in which slice, and what happened so far, the latest first. `woken` is a broadcast since the thread began to
wait. -/
structure State (μ : Type u) (γ : Type v) (β : Type w) where
  memory : Nat → Option (GkmTimer μ β)
  timerQueue : List Nat
  timerRun : Bool
  thread : Thread β
  woken : Bool
  owner : μ → Option (Actor γ)
  started : List (Int × β × Nat)
  log : List (Entry β)

/-- After the first `gkm_timer_initialize`. -/
def State.init : State μ γ β := ⟨fun _ => none, [], true, .looking, false, fun _ => none, [], []⟩

/-! ## The code -/

/-- The field `when` of the timer at an address. -/
def whenAt (memory : Nat → Option (GkmTimer μ β)) (t : Nat) : Int := ((memory t).map GkmTimer.when).getD 0

/-- `compare_timers` does not put the first after the second. -/
abbrev Earlier (memory : Nat → Option (GkmTimer μ β)) (t u : Nat) : Prop := whenAt memory t ≤ whenAt memory u

/-- What `gkm_timer_cancel` writes. -/
def GkmTimer.reset (timer : GkmTimer μ β) : GkmTimer μ β := { timer with when := 0, callback := none }

/-- The second is not before the epoch, and a `glong` holds it. -/
def Timely (seconds tv : Int) : Prop := 0 ≤ seconds + tv ∧ seconds + tv < 2 ^ 63

instance (seconds tv : Int) : Decidable (Timely seconds tv) := inferInstanceAs (Decidable (_ ∧ _))

section Code

variable (s : State μ γ β)

/-- `seconds + tv.tv_sec`, of two `glong`. -/
def dueAt (seconds tv : Int) : Int := wordOf 64 (seconds + tv)

/-- `gkm_timer_start` with the slice `t`. `g_queue_insert_sorted` goes before the first that is not earlier. -/
def gkmTimerStart (t : Nat) (m : μ) (seconds tv : Int) (callback : β) : State μ γ β :=
  let due := dueAt seconds tv
  let memory := update s.memory t (some ⟨due, m, some callback, s.started.length⟩)
  { s with
    memory := memory
    timerQueue := s.timerQueue.orderedInsert (Earlier memory) t
    woken := true
    started := s.started ++ [(due, callback, t)] }

/-- `gkm_timer_cancel`: only the timer thread frees timers, so the timer goes to the front without its
callback. -/
def gkmTimerCancel (t : Nat) : State μ γ β :=
  match s.memory t with
  | none => s
  | some timer =>
    if t ∈ s.timerQueue then
      { s with
        memory := update s.memory t (some timer.reset)
        timerQueue := t :: s.timerQueue.erase t
        woken := true
        log := .cancelled timer.serial :: s.log }
    else s

/-- The loop of `timer_thread_func` up to where it lets `timer_mutex` go. -/
def look (tv : Int) : State μ γ β :=
  if s.timerRun then
    match s.timerQueue with
    | [] => { s with thread := .waiting none, woken := false }
    | t :: _ =>
      if tv < whenAt s.memory t then { s with thread := .waiting (some (whenAt s.memory t)), woken := false }
      else { s with thread := .busy t (.leaving tv) }
  else { s with thread := .stopped }

/-- The thread is back in `timer_mutex`: `g_queue_remove` and `g_slice_free`. -/
def finish (t : Nat) : State μ γ β :=
  { s with
    thread := .looking
    timerQueue := s.timerQueue.erase t
    memory := update s.memory t none }

/-- The thread calls the callback that it read, if there is one. -/
def call (t : Nat) (tv : Int) (timer : GkmTimer μ β) (callback : Option β) : State μ γ β :=
  { s with
    thread := .busy t .inside
    log := match callback with | some b => .called timer.serial b tv :: s.log | none => s.log }

/-- Somebody is in the module: a client, or the callback that the thread runs. -/
def InModule (m : μ) : Prop :=
  (∃ c, s.owner m = some (.client c)) ∨ (∃ t, s.thread = .busy t .inside) ∧ s.owner m = some .timerThread

variable [DecidableEq μ]

/-- The thread locks the mutex of the module and reads the callback. -/
def enter (t : Nat) (tv : Int) (timer : GkmTimer μ β) : State μ γ β :=
  { s with
    thread := .busy t (.entered tv timer.callback)
    owner := update s.owner timer.mutex (some .timerThread) }

/-- The thread unlocks the mutex of the module. -/
def leave (t : Nat) (timer : GkmTimer μ β) : State μ γ β :=
  { s with thread := .busy t .returning, owner := update s.owner timer.mutex none }

/-- One step of a client or of the thread. Who starts or cancels a timer is in its module, and what is cancelled
is of that module if it is in memory at all. `Timely` is what is asked of the second that a timer is started for.
`stop` is `gkm_timer_shutdown` up to `g_thread_join`. -/
inductive Step : State μ γ β → State μ γ β → Prop where
  | lock (s : State μ γ β) (c : γ) (m : μ) : s.owner m = none →
      Step s { s with owner := update s.owner m (some (.client c)) }
  | unlock (s : State μ γ β) (c : γ) (m : μ) : s.owner m = some (.client c) →
      Step s { s with owner := update s.owner m none }
  | start (s : State μ γ β) (t : Nat) (m : μ) (seconds tv : Int) (callback : β) : InModule s m →
      s.memory t = none → Timely seconds tv → Step s (gkmTimerStart s t m seconds tv callback)
  | cancel (s : State μ γ β) (t : Nat) (m : μ) : InModule s m →
      (∀ timer, s.memory t = some timer → timer.mutex = m) → Step s (gkmTimerCancel s t)
  | wake (s : State μ γ β) (limit : Option Int) : s.thread = .waiting limit → Step s { s with thread := .looking }
  | look (s : State μ γ β) (tv : Int) : s.thread = .looking → Step s (look s tv)
  | enter (s : State μ γ β) (t : Nat) (tv : Int) (timer : GkmTimer μ β) : s.thread = .busy t (.leaving tv) →
      s.memory t = some timer → s.owner timer.mutex = none → Step s (enter s t tv timer)
  | call (s : State μ γ β) (t : Nat) (tv : Int) (timer : GkmTimer μ β) (callback : Option β) :
      s.thread = .busy t (.entered tv callback) → s.memory t = some timer → Step s (call s t tv timer callback)
  | leave (s : State μ γ β) (t : Nat) (timer : GkmTimer μ β) : s.thread = .busy t .inside → s.memory t = some timer →
      Step s (leave s t timer)
  | finish (s : State μ γ β) (t : Nat) : s.thread = .busy t .returning → Step s (finish s t)
  | stop (s : State μ γ β) : Step s { s with timerRun := false, woken := true }

/-- The states that are reached. -/
abbrev Reachable : Prop := Relation.ReflTransGen Step State.init s

end Code

/-! ## The queue -/

/-- The queue is in order and holds what is in memory, the thread's own timer included, and the thread reads and
runs a callback in the module of the timer. -/
structure Queued (s : State μ γ β) : Prop where
  sorted : s.timerQueue.Pairwise (Earlier s.memory)
  nodup : s.timerQueue.Nodup
  mem_iff : ∀ t, t ∈ s.timerQueue ↔ s.memory t ≠ none
  held : ∀ t stage, s.thread = .busy t stage → t ∈ s.timerQueue
  within : ∀ t stage timer, s.thread = .busy t stage → stage.Within → s.memory t = some timer →
    s.owner timer.mutex = some .timerThread
  when_nonneg : ∀ t timer, s.memory t = some timer → 0 ≤ timer.when

variable {s : State μ γ β} {t : Nat} {m : μ} {tv : Int} {timer : GkmTimer μ β} {thread : Thread β} {w : Bool}
  {owner : μ → Option (Actor γ)}

/-- What is in memory after a write is what was written or was there before. -/
theorem update_cases {α : Type*} {memory : Nat → Option α} {x : Option α} {u : Nat} {a : α}
    (h : update memory t x u = some a) : (u = t ∧ x = some a) ∨ (u ≠ t ∧ memory u = some a) := by
  by_cases hut : u = t
  · subst hut
    exact .inl ⟨rfl, by rwa [update_self] at h⟩
  · exact .inr ⟨hut, by rwa [update_of_ne hut] at h⟩

/-- A list stays sorted when what is written is not in it. -/
theorem sorted_update {queue : List Nat} {memory : Nat → Option (GkmTimer μ β)} {x : Option (GkmTimer μ β)}
    (h : queue.Pairwise (Earlier memory)) (ht : t ∉ queue) :
    queue.Pairwise (Earlier (update memory t x)) := by
  refine h.imp_of_mem ?_
  intro a b ha hb hab
  have hat : a ≠ t := fun heq => ht (heq ▸ ha)
  have hbt : b ≠ t := fun heq => ht (heq ▸ hb)
  simpa only [Earlier, whenAt, update_of_ne hat, update_of_ne hbt] using hab

theorem Queued.exists_of_mem (h : Queued s) (ht : t ∈ s.timerQueue) : ∃ timer, s.memory t = some timer :=
  Option.ne_none_iff_exists'.1 ((h.mem_iff t).1 ht)

/-- The timer of the thread is in memory. -/
theorem Queued.not_busy (h : Queued s) (hnone : s.memory t = none) (stage : Stage β) : s.thread ≠ .busy t stage :=
  fun hthread => (h.mem_iff t).1 (h.held t stage hthread) hnone

theorem dueAt_nonneg {seconds : Int} (h : Timely seconds tv) : 0 ≤ dueAt seconds tv := by
  obtain ⟨hnonneg, hlt⟩ := h
  rw [dueAt, wordOf, Int.bmod_def]
  omega

theorem Queued.start (h : Queued s) (hnone : s.memory t = none) {seconds : Int} (hdue : Timely seconds tv) (callback : β) :
    Queued (gkmTimerStart s t m seconds tv callback) := by
  have hnew : t ∉ s.timerQueue := fun hmem => (h.mem_iff t).1 hmem hnone
  refine ⟨?_, ?_, ?_, ?_, ?_, ?_⟩
  · have htotal : Std.Total (Earlier (gkmTimerStart s t m seconds tv callback).memory) := ⟨fun a b => le_total _ _⟩
    have htrans : IsTrans Nat (Earlier (gkmTimerStart s t m seconds tv callback).memory) := ⟨fun a b c => le_trans⟩
    exact (sorted_update h.sorted hnew).orderedInsert t _
  · exact (perm_orderedInsert _ t s.timerQueue).nodup_iff.2 (nodup_cons.2 ⟨hnew, h.nodup⟩)
  · intro u
    simp only [gkmTimerStart, mem_orderedInsert, h.mem_iff, update_apply]
    by_cases hut : u = t <;> simp [hut]
  · intro u stage hu
    exact (mem_orderedInsert _).2 (.inr (h.held u stage hu))
  · intro u stage timer hu hwithin hmem
    rcases update_cases hmem with ⟨rfl, -⟩ | ⟨-, hmem⟩
    · exact absurd hu (h.not_busy hnone stage)
    · exact h.within u stage timer hu hwithin hmem
  · intro u timer hmem
    rcases update_cases hmem with ⟨-, heq⟩ | ⟨-, hmem⟩
    · cases heq
      exact dueAt_nonneg hdue
    · exact h.when_nonneg u timer hmem

theorem Queued.cancel (h : Queued s) (t : Nat) : Queued (gkmTimerCancel s t) := by
  rw [gkmTimerCancel]
  split
  · exact h
  · rename_i own hown
    split
    · rename_i ht
      have hperm : ∀ u, u ∈ s.timerQueue ↔ u ∈ t :: s.timerQueue.erase t :=
        fun u => (perm_cons_erase ht).mem_iff
      refine ⟨?_, ?_, ?_, ?_, ?_, ?_⟩
      · refine pairwise_cons.2 ⟨fun u hu => ?_, ?_⟩
        · have hut : u ≠ t := fun heq => h.nodup.not_mem_erase (heq ▸ hu)
          obtain ⟨timer, htimer⟩ := h.exists_of_mem (mem_of_mem_erase hu)
          simpa [Earlier, whenAt, GkmTimer.reset, hut, htimer] using h.when_nonneg u timer htimer
        · exact sorted_update (h.sorted.sublist erase_sublist) h.nodup.not_mem_erase
      · exact nodup_cons.2 ⟨h.nodup.not_mem_erase, h.nodup.erase t⟩
      · intro u
        rw [← hperm u, h.mem_iff]
        by_cases hut : u = t <;> simp [hut, hown]
      · exact fun u stage hu => (hperm u).1 (h.held u stage hu)
      · intro u stage a hu hwithin hmem
        rcases update_cases hmem with ⟨rfl, heq⟩ | ⟨-, hmem⟩
        · cases heq
          exact h.within u stage own hu hwithin hown
        · exact h.within u stage a hu hwithin hmem
      · intro u a hmem
        rcases update_cases hmem with ⟨-, heq⟩ | ⟨-, hmem⟩
        · cases heq
          exact Int.le_refl 0
        · exact h.when_nonneg u a hmem
    · exact h

/-- The thread has no timer in its hands. -/
theorem Queued.atRest (h : Queued s) (hrest : ∀ t stage, thread ≠ .busy t stage) :
    Queued { s with thread := thread, woken := w } :=
  { h with
    held := fun t stage hu => absurd hu (hrest t stage)
    within := fun t stage _ hu => absurd hu (hrest t stage) }

theorem Queued.look (h : Queued s) (tv : Int) : Queued (look s tv) := by
  rw [Timers.look]
  split
  · split
    · exact h.atRest (by simp)
    · rename_i u rest hqueue
      split
      · exact h.atRest (by simp)
      · refine { h with held := fun v stage hv => ?_, within := fun v stage own hv hwithin => ?_ }
        · cases hv
          exact hqueue ▸ mem_cons_self
        · cases hv
          cases hwithin
  · exact h.atRest (by simp)

/-- The thread goes on with its timer. -/
theorem Queued.busy (h : Queued s) {stage stage' : Stage β} {log : List (Entry β)}
    (hthread : s.thread = .busy t stage)
    (hwithin : ∀ own, stage'.Within → s.memory t = some own → owner own.mutex = some .timerThread) :
    Queued { s with thread := .busy t stage', owner := owner, log := log } := by
  refine { h with held := fun u stage hu => ?_, within := fun u stage own hu => ?_ }
  · cases hu
    exact h.held t _ hthread
  · cases hu
    exact hwithin own

theorem Queued.finish (h : Queued s) (t : Nat) : Queued (finish s t) := by
  refine ⟨?_, h.nodup.erase t, ?_, fun u stage hu => ?_, fun u stage own hu => ?_, ?_⟩
  · exact sorted_update (h.sorted.sublist erase_sublist) h.nodup.not_mem_erase
  · intro u
    by_cases hut : u = t
    · subst hut
      simp [Timers.finish, h.nodup.not_mem_erase]
    · simp [Timers.finish, mem_erase_of_ne hut, hut, h.mem_iff]
  · cases hu
  · cases hu
  · intro u own hmem
    rcases update_cases hmem with ⟨-, heq⟩ | ⟨-, hmem⟩
    · cases heq
    · exact h.when_nonneg u own hmem

theorem Queued.init : Queued (State.init : State μ γ β) := by
  refine ⟨List.Pairwise.nil, nodup_nil, ?_, ?_, ?_, ?_⟩ <;> simp [State.init]

section Modules

variable [DecidableEq μ]

/-- A client locks or unlocks the mutex of a module in which the thread is not. -/
theorem Queued.own (h : Queued s) (hm : s.owner m ≠ some .timerThread) (a : Option (Actor γ)) :
    Queued { s with owner := update s.owner m a } := by
  refine { h with within := fun u stage own hu hwithin hmem => ?_ }
  have hown := h.within u stage own hu hwithin hmem
  have hne : own.mutex ≠ m := fun heq => hm (heq ▸ hown)
  exact (update_of_ne hne _ _).trans hown

theorem Queued.step {s' : State μ γ β} (h : Queued s) (hstep : Step s s') : Queued s' := by
  cases hstep with
  | lock c m hfree => exact h.own (by simp [hfree]) _
  | unlock c m hclient => exact h.own (by simp [hclient]) _
  | start t m seconds tv callback _ hnone hdue => exact h.start hnone hdue callback
  | cancel t m => exact h.cancel t
  | wake limit hthread => exact h.atRest (w := s.woken) (by simp)
  | look tv hthread => exact h.look tv
  | enter t tv timer hthread hmem _ =>
    refine h.busy hthread fun own _ hown => ?_
    cases hown.symm.trans hmem
    exact update_self _ _ _
  | call t tv timer callback hthread hmem => exact h.busy hthread fun own _ => h.within t _ own hthread trivial
  | leave t timer hthread _ => exact h.busy hthread fun own hwithin => hwithin.elim
  | finish t hthread => exact h.finish t
  | stop => exact { h with }

end Modules

/-! ## What happened -/

/-- Of the timer of a call nothing is said before. -/
def Entry.After (later earlier : Entry β) : Prop := ∀ n b tv, later = .called n b tv → earlier.serial ≠ n

/-- The timer has a callback that the thread has not begun to run. -/
def Fresh (s : State μ γ β) (t : Nat) (timer : GkmTimer μ β) : Prop :=
  timer.callback ≠ none ∧ s.thread ≠ .busy t .inside ∧ s.thread ≠ .busy t .returning

/-- The log says what became of each timer that was started, and says nothing about those that are fresh. -/
structure Logged (s : State μ γ β) : Prop where
  once : s.log.Pairwise Entry.After
  inTime : ∀ n b tv, .called n b tv ∈ s.log → ∃ due t, s.started[n]? = some (due, b, t) ∧ due ≤ tv
  fresh_iff : ∀ t timer, s.memory t = some timer → (Fresh s t timer ↔ ∀ e ∈ s.log, e.serial ≠ timer.serial)
  made : ∀ t timer, s.memory t = some timer → ∃ due b, s.started[timer.serial]? = some (due, b, t) ∧
    ∀ b', timer.callback = some b' → b' = b ∧ timer.when = due
  due : ∀ t stage tv timer, s.thread = .busy t stage → stage.clock = some tv → s.memory t = some timer →
    timer.callback ≠ none → timer.when ≤ tv
  read : ∀ t tv timer callback, s.thread = .busy t (.entered tv callback) → s.memory t = some timer →
    timer.callback = callback
  log_lt : ∀ e ∈ s.log, e.serial < s.started.length
  kept : ∀ n < s.started.length,
    (∃ e ∈ s.log, e.serial = n) ∨ ∃ t timer, s.memory t = some timer ∧ timer.serial = n

theorem Logged.memory_lt (h : Logged s) (hmem : s.memory t = some timer) : timer.serial < s.started.length := by
  obtain ⟨due, b, hstarted, -⟩ := h.made t timer hmem
  exact (List.getElem?_eq_some_iff.1 hstarted).1

/-- A serial number stands for one timer. -/
theorem Logged.distinct (h : Logged s) {u : Nat} {a : GkmTimer μ β} (hmem : s.memory t = some timer)
    (ha : s.memory u = some a) (hserial : timer.serial = a.serial) : t = u := by
  obtain ⟨due, b, hstarted, -⟩ := h.made t timer hmem
  obtain ⟨due', b', hstarted', -⟩ := h.made u a ha
  rw [hserial, hstarted'] at hstarted
  cases hstarted
  rfl

/-- Of a timer that is not fresh the log has an entry. -/
theorem Logged.exists_entry (h : Logged s) (hmem : s.memory t = some timer) (hover : ¬ Fresh s t timer) :
    ∃ e ∈ s.log, e.serial = timer.serial := by
  rw [h.fresh_iff t timer hmem] at hover
  push Not at hover
  exact hover

theorem Logged.start (h : Logged s) (hq : Queued s) (hnone : s.memory t = none) {seconds : Int} (callback : β) :
    Logged (gkmTimerStart s t m seconds tv callback) := by
  -- the slice was free, so that the thread does not hold it
  have hbusy := hq.not_busy hnone
  have hlength : (gkmTimerStart s t m seconds tv callback).started.length = s.started.length + 1 :=
    length_append
  have hold : ∀ (n : Nat) (x : Int × β × Nat), s.started[n]? = some x →
      (s.started ++ [(dueAt seconds tv, callback, t)])[n]? = some x := by
    intro n x hx
    rw [getElem?_append_left (List.getElem?_eq_some_iff.1 hx).1]
    exact hx
  refine ⟨h.once, ?_, ?_, ?_, ?_, ?_, ?_, ?_⟩
  · intro n b tv hmem
    obtain ⟨w, u, hw, hle⟩ := h.inTime n b tv hmem
    exact ⟨w, u, hold n _ hw, hle⟩
  · intro u a hmem
    rcases update_cases hmem with ⟨rfl, heq⟩ | ⟨-, hmem⟩
    · cases heq
      exact iff_of_true ⟨by simp, hbusy _, hbusy _⟩ fun e he => (h.log_lt e he).ne
    · exact h.fresh_iff u a hmem
  · intro u a hmem
    rcases update_cases hmem with ⟨rfl, heq⟩ | ⟨-, hmem⟩
    · cases heq
      exact ⟨dueAt seconds tv, callback, by simp [gkmTimerStart], fun b hb => ⟨(Option.some.inj hb).symm, rfl⟩⟩
    · obtain ⟨w, b, hstarted, hgiven⟩ := h.made u a hmem
      exact ⟨w, b, hold _ _ hstarted, hgiven⟩
  · intro u stage tv a hu hclock hmem
    rcases update_cases hmem with ⟨rfl, -⟩ | ⟨-, hmem⟩
    · exact absurd hu (hbusy stage)
    · exact h.due u stage tv a hu hclock hmem
  · intro u tv a b hu hmem
    rcases update_cases hmem with ⟨rfl, -⟩ | ⟨-, hmem⟩
    · exact absurd hu (hbusy _)
    · exact h.read u tv a b hu hmem
  · intro e he
    rw [hlength]
    exact Nat.lt_succ_of_lt (h.log_lt e he)
  · intro n hn
    rw [hlength] at hn
    rcases Nat.lt_succ_iff_lt_or_eq.1 hn with hn | rfl
    · rcases h.kept n hn with hlog | ⟨u, a, ha, hserial⟩
      · exact .inl hlog
      · have hut : u ≠ t := by
          rintro rfl
          rw [hnone] at ha
          cases ha
        exact .inr ⟨u, a, (update_of_ne hut _ _).trans ha, hserial⟩
    · exact .inr ⟨t, _, update_self _ _ _, rfl⟩

/-- A step that only deals with one timer: from now on the log has an entry about it, and it is not fresh. -/
theorem Logged.settle (h : Logged s) {s' : State μ γ β} {l : List (Entry β)} (hown : s.memory t = some timer)
    (hstarted : s'.started = s.started) (hlog : s'.log = l ++ s.log)
    (hother : ∀ u, u ≠ t → s'.memory u = s.memory u ∧ ∀ a, Fresh s' u a ↔ Fresh s u a)
    (hsame : ∀ a, s'.memory t = some a → (a = timer ∨ a = timer.reset) ∧ ¬ Fresh s' t a)
    (hentries : ∀ e ∈ l, e.serial = timer.serial) (hsettled : ∃ e ∈ s'.log, e.serial = timer.serial)
    (honce : s'.log.Pairwise Entry.After)
    (hinTime : ∀ n b tv, .called n b tv ∈ l → ∃ due u, s.started[n]? = some (due, b, u) ∧ due ≤ tv)
    (hthread : (∀ u stage, s'.thread = .busy u stage → stage.clock = none) ∨
      s'.thread = s.thread ∧ ∀ tv b, s.thread ≠ .busy t (.entered tv b)) : Logged s' := by
  have hmemory : ∀ u a, s'.memory u = some a →
      (u ≠ t ∧ s.memory u = some a) ∨ (u = t ∧ (a = timer ∨ a = timer.reset)) := by
    intro u a hmem
    by_cases hut : u = t
    · subst hut
      exact .inr ⟨rfl, (hsame a hmem).1⟩
    · exact .inl ⟨hut, (hother u hut).1 ▸ hmem⟩
  refine ⟨honce, ?_, ?_, ?_, ?_, ?_, ?_, ?_⟩
  · intro n b tv hcall
    rw [hstarted]
    rw [hlog] at hcall
    exact (mem_append.1 hcall).elim (hinTime n b tv) (h.inTime n b tv)
  · intro u a hmem
    by_cases hut : u = t
    · subst hut
      obtain ⟨e, he, hserial⟩ := hsettled
      refine iff_of_false (hsame a hmem).2 fun hnone => hnone e he ?_
      rcases (hsame a hmem).1 with rfl | rfl <;> exact hserial
    · rw [(hother u hut).1] at hmem
      rw [(hother u hut).2 a, h.fresh_iff u a hmem, hlog, forall_mem_append]
      refine ⟨fun hnone => ⟨fun e he heq => ?_, hnone⟩, fun hnone => hnone.2⟩
      exact hut (h.distinct hmem hown (heq.symm.trans (hentries e he)))
  · intro u a hmem
    rw [hstarted]
    rcases hmemory u a hmem with ⟨-, hmem⟩ | ⟨rfl, rfl | rfl⟩
    · exact h.made u a hmem
    · exact h.made u a hown
    · obtain ⟨due, b, hmade, -⟩ := h.made u timer hown
      refine ⟨due, b, hmade, fun b' hb => ?_⟩
      cases hb
  · intro u stage tv a hu hclock hmem hb
    rcases hthread with hnone | ⟨heq, -⟩
    · rw [hnone u stage hu] at hclock
      cases hclock
    · rw [heq] at hu
      rcases hmemory u a hmem with ⟨-, hmem⟩ | ⟨rfl, rfl | rfl⟩
      · exact h.due u stage tv a hu hclock hmem hb
      · exact h.due u stage tv a hu hclock hown hb
      · exact absurd rfl hb
  · intro u tv a b hu hmem
    rcases hthread with hnone | ⟨heq, hnot⟩
    · cases hnone u _ hu
    · rw [heq] at hu
      rcases hmemory u a hmem with ⟨-, hmem⟩ | ⟨rfl, -⟩
      · exact h.read u tv a b hu hmem
      · exact absurd hu (hnot tv b)
  · intro e he
    rw [hstarted]
    rw [hlog] at he
    rcases mem_append.1 he with he | he
    · rw [hentries e he]
      exact h.memory_lt hown
    · exact h.log_lt e he
  · intro n hn
    rw [hstarted] at hn
    rcases h.kept n hn with ⟨e, he, heq⟩ | ⟨u, a, ha, heq⟩
    · exact .inl ⟨e, hlog ▸ mem_append_right _ he, heq⟩
    · by_cases hut : u = t
      · subst hut
        cases hown.symm.trans ha
        exact .inl (heq ▸ hsettled)
      · exact .inr ⟨u, a, (hother u hut).1.trans ha, heq⟩

theorem Logged.cancel (h : Logged s) (hnot : ∀ tv b, s.thread ≠ .busy t (.entered tv b)) :
    Logged (gkmTimerCancel s t) := by
  rw [gkmTimerCancel]
  split
  · exact h
  · rename_i own hown
    split
    · -- the thread is not between the test of this callback and its call
      refine h.settle (l := [.cancelled own.serial]) hown rfl rfl
        (fun u hut => ⟨update_of_ne hut _ _, fun a => Iff.rfl⟩) (fun a hmem => ?_) (by simp [Entry.serial])
        ⟨_, mem_cons_self, rfl⟩ (pairwise_cons.2 ⟨fun e _ n b tv heq => ?_, h.once⟩) (by simp)
        (.inr ⟨rfl, hnot⟩)
      · cases (update_self t _ s.memory).symm.trans hmem
        exact ⟨.inr rfl, fun hfresh => hfresh.1 rfl⟩
      · cases heq
    · exact h

theorem Logged.finish (h : Logged s) (hq : Queued s) (hthread : s.thread = .busy t .returning) :
    Logged (finish s t) := by
  obtain ⟨own, hown⟩ := hq.exists_of_mem (hq.held t _ hthread)
  have hsettled := h.exists_entry hown fun hfresh => hfresh.2.2 hthread
  refine h.settle (l := []) hown rfl rfl (fun u hut => ⟨update_of_ne hut _ _, fun a => ?_⟩)
    (fun a hmem => ?_) (by simp) hsettled h.once (by simp) (.inl fun u stage hu => ?_)
  · simp [Fresh, Timers.finish, hthread, hut.symm]
  · rw [show (Timers.finish s t).memory t = none from update_self _ _ _] at hmem
    cases hmem
  · cases hu

theorem Logged.call (h : Logged s) {callback : Option β} (hthread : s.thread = .busy t (.entered tv callback))
    (hmem : s.memory t = some timer) : Logged (call s t tv timer callback) := by
  have hread := h.read t tv timer callback hthread hmem
  have hother : ∀ u, u ≠ t → s.memory u = s.memory u ∧ ∀ a, Fresh (Timers.call s t tv timer callback) u a ↔ Fresh s u a :=
    fun u hut => ⟨rfl, fun a => by simp [Fresh, Timers.call, hthread, hut.symm]⟩
  have hsame : ∀ a, s.memory t = some a → (a = timer ∨ a = timer.reset) ∧
      ¬ Fresh (Timers.call s t tv timer callback) t a :=
    fun a ha => ⟨.inl (Option.some.inj (ha.symm.trans hmem)), fun hnow => hnow.2.1 rfl⟩
  have hclock : ∀ u stage, (Timers.call s t tv timer callback).thread = .busy u stage → stage.clock = none := by
    intro u stage hu
    cases hu
    rfl
  cases callback with
  | none =>
    have hsettled := h.exists_entry hmem fun hnow => hnow.1 hread
    exact h.settle (l := []) hmem rfl rfl hother hsame (by simp) hsettled h.once (by simp) (.inl hclock)
  | some b =>
    have hnone := (h.fresh_iff t timer hmem).1 ⟨by simp [hread], by simp [hthread], by simp [hthread]⟩
    obtain ⟨due, b', hmade, hgiven⟩ := h.made t timer hmem
    obtain ⟨rfl, rfl⟩ := hgiven b hread
    refine h.settle (l := [.called timer.serial b tv]) hmem rfl rfl hother hsame (by simp [Entry.serial])
      ⟨_, mem_cons_self, rfl⟩ (pairwise_cons.2 ⟨fun e he n b' tv' heq => ?_, h.once⟩) (fun n b' tv' hcall => ?_)
      (.inl hclock)
    · cases heq
      exact hnone e he
    · cases mem_singleton.1 hcall
      exact ⟨timer.when, t, hmade, h.due t _ tv timer hthread rfl hmem (by simp [hread])⟩

/-- The thread moves on with what it has in its hands. -/
theorem Logged.move (h : Logged s)
    (hover : ∀ u, thread = .busy u .inside ∨ thread = .busy u .returning ↔
      s.thread = .busy u .inside ∨ s.thread = .busy u .returning)
    (hdue : ∀ u stage tv a, thread = .busy u stage → stage.clock = some tv → s.memory u = some a →
      a.callback ≠ none → a.when ≤ tv)
    (hread : ∀ u tv a b, thread = .busy u (.entered tv b) → s.memory u = some a → a.callback = b) :
    Logged { s with thread := thread, woken := w, owner := owner } := by
  refine { h with fresh_iff := fun u a hmem => ?_, due := hdue, read := hread }
  rw [← h.fresh_iff u a hmem]
  refine and_congr_right fun _ => ?_
  rw [← not_or, ← not_or]
  exact not_congr (hover u)

/-- The thread moves on with nothing that is due. -/
theorem Logged.rest (h : Logged s)
    (hover : ∀ u, thread = .busy u .inside ∨ thread = .busy u .returning ↔
      s.thread = .busy u .inside ∨ s.thread = .busy u .returning)
    (hclock : ∀ u stage, thread = .busy u stage → stage.clock = none) :
    Logged { s with thread := thread, woken := w, owner := owner } := by
  refine h.move hover (fun u stage tv a hu hsome => ?_) (fun u tv a b hu => ?_)
  · rw [hclock u stage hu] at hsome
    cases hsome
  · cases hclock u _ hu

theorem Logged.look (h : Logged s) (hthread : s.thread = .looking) (tv : Int) : Logged (look s tv) := by
  rw [Timers.look]
  split
  · split
    · exact h.rest (by simp [hthread]) (by simp)
    · rename_i u rest hqueue
      split
      · exact h.rest (by simp [hthread]) (by simp)
      · rename_i hnow
        refine h.move (by simp [hthread]) (fun v stage tv' a hv hclock hmem _ => ?_) (fun v tv' a b hv => ?_)
        · cases hv
          cases hclock
          simpa [whenAt, hmem] using hnow
        · cases hv
  · exact h.rest (by simp [hthread]) (by simp)

/-- Who cancels a timer is in its module, where the thread is not about to call it. -/
theorem Queued.not_entered (h : Queued s) (hm : InModule s m) (hmutex : ∀ a, s.memory t = some a → a.mutex = m)
    (tv : Int) (b : Option β) : s.thread ≠ .busy t (.entered tv b) := by
  intro hthread
  obtain ⟨own, hown⟩ := h.exists_of_mem (h.held t _ hthread)
  have howner := h.within t _ own hthread trivial hown
  rw [hmutex own hown] at howner
  rcases hm with ⟨c, hc⟩ | ⟨⟨u, hu⟩, -⟩
  · rw [howner] at hc
    cases hc
  · rw [hthread] at hu
    cases hu

section Modules

variable [DecidableEq μ]

theorem Logged.enter (h : Logged s) (hthread : s.thread = .busy t (.leaving tv)) (hmem : s.memory t = some timer) :
    Logged (enter s t tv timer) := by
  refine h.move (by simp [hthread]) (fun u stage tv' a hu hclock => ?_) (fun u tv' a b hu ha => ?_)
  · cases hu
    exact h.due t _ tv' a hthread hclock
  · cases hu
    cases ha.symm.trans hmem
    rfl

theorem Logged.step {s' : State μ γ β} (h : Logged s) (hq : Queued s) (hstep : Step s s') : Logged s' := by
  cases hstep with
  | lock c m _ => exact { h with }
  | unlock c m _ => exact { h with }
  | start t m seconds tv callback _ hnone _ => exact h.start hq hnone callback
  | cancel t m hm hmutex => exact h.cancel (hq.not_entered hm hmutex)
  | wake limit hthread => exact h.rest (w := s.woken) (by simp [hthread]) (by simp)
  | look tv hthread => exact h.look hthread tv
  | enter t tv timer hthread hmem _ => exact h.enter hthread hmem
  | call t tv timer callback hthread hmem => exact h.call hthread hmem
  | leave t timer hthread _ => exact h.rest (by simp [hthread]) (fun u stage hu => by cases hu; rfl)
  | finish t hthread => exact h.finish hq hthread
  | stop => exact { h with }

end Modules

/-! ## Every run -/

/-- The thread does not sleep longer than to the first timer, unless it was woken. -/
def Watchful (s : State μ γ β) : Prop :=
  ∀ limit, s.thread = .waiting limit → s.woken = false →
    s.timerRun = true ∧ s.timerQueue.head?.map (whenAt s.memory) = limit

theorem Watchful.look (tv : Int) : Watchful (look s tv) := by
  rw [Timers.look]
  split
  · rename_i hrun
    split
    · rename_i hqueue
      rintro limit hlimit -
      cases hlimit
      exact ⟨hrun, by rw [hqueue]; rfl⟩
    · rename_i u rest hqueue
      split
      · rintro limit hlimit -
        cases hlimit
        exact ⟨hrun, by rw [hqueue]; rfl⟩
      · intro limit hlimit
        cases hlimit
  · intro limit hlimit
    cases hlimit

variable [DecidableEq μ]

theorem Watchful.step {s' : State μ γ β} (h : Watchful s) (hstep : Step s s') : Watchful s' := by
  cases hstep with
  | lock | unlock => exact h
  | start | stop =>
    intro limit _ hwoken
    cases hwoken
  | cancel =>
    rw [gkmTimerCancel]
    split
    · exact h
    · split
      · intro limit _ hwoken
        cases hwoken
      · exact h
  | look tv => exact .look tv
  | wake | enter | call | leave | finish =>
    intro limit hlimit
    cases hlimit

theorem reachable_invariant (h : Reachable s) : Queued s ∧ Logged s ∧ Watchful s := by
  induction h with
  | refl =>
    refine ⟨Queued.init, ⟨List.Pairwise.nil, ?_, ?_, ?_, ?_, ?_, ?_, ?_⟩, ?_⟩ <;> simp [State.init, Watchful]
  | tail _ hstep ih =>
    obtain ⟨hq, hl, hw⟩ := ih
    exact ⟨hq.step hstep, hl.step hq hstep, hw.step hstep⟩

/-- The timer thread found an empty queue, a client started a timer for the second 3, and the thread is awake. -/
def sampleQueued : State Unit Unit Nat :=
  let waiting := look State.init 0
  let locked := { waiting with owner := update waiting.owner () (some (.client ())) }
  let started := gkmTimerStart locked 0 () 1 2 7
  { started with owner := update started.owner () none, thread := .looking }

theorem reachable_sampleQueued : Reachable sampleQueued := by
  have hwaiting : Reachable (look State.init 0 : State Unit Unit Nat) := .single (.look _ _ rfl)
  have hlocked := hwaiting.tail (.lock _ () () rfl)
  have hstarted := hlocked.tail (.start _ 0 () 1 2 7 (.inl ⟨(), rfl⟩) rfl (by decide))
  exact (hstarted.tail (.unlock _ () () rfl)).tail (.wake _ none rfl)

/-- **No lost wake-up.** While the thread sleeps and nobody woke it, no timer is before its limit, and there is none
where it has no limit. -/
theorem sleeps_to_first (h : Reachable s) {limit : Option Int} (hthread : s.thread = .waiting limit)
    (hwoken : s.woken = false) :
    s.timerRun = true ∧ ∀ t timer, s.memory t = some timer → ∃ w, limit = some w ∧ w ≤ timer.when := by
  obtain ⟨hq, -, hw⟩ := reachable_invariant h
  obtain ⟨hrun, rfl⟩ := hw limit hthread hwoken
  refine ⟨hrun, fun t timer hmem => ?_⟩
  have ht : t ∈ s.timerQueue := (hq.mem_iff t).2 (by simp [hmem])
  have hwhen : whenAt s.memory t = timer.when := by simp [whenAt, hmem]
  have hsorted := hq.sorted
  cases hqueue : s.timerQueue with
  | nil =>
    rw [hqueue] at ht
    cases ht
  | cons u rest =>
    rw [hqueue] at ht hsorted
    refine ⟨whenAt s.memory u, rfl, hwhen ▸ ?_⟩
    rcases mem_cons.1 ht with rfl | hrest
    · exact Int.le_refl _
    · exact rel_of_pairwise_cons hsorted hrest

/-- At the second 1 the thread waits for the second 3. -/
theorem sleeps_to_first_queued : (look sampleQueued 1).memory 0 = some ⟨3, (), some 7, 0⟩ ∧
    (look sampleQueued 1).thread = .waiting (some 3) ∧ ∀ t timer, (look sampleQueued 1).memory t = some timer → 3 ≤ timer.when := by
  refine ⟨rfl, rfl, fun t timer hmem => ?_⟩
  obtain ⟨w, hw, hle⟩ := (sleeps_to_first (reachable_sampleQueued.tail (.look _ 1 rfl)) rfl rfl).2 t timer hmem
  cases hw
  exact hle

end MateKeyring.Gkm.Timers
