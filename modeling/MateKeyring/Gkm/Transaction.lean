import MateKeyring.Lib.UndoLog
import MateKeyring.Rpc.Message

/-!
# Transactions

`gkm-transaction.c`: an operation that is part of a transaction registers what is to be done when
the transaction completes. The callbacks run latest first and ask whether the transaction failed.
Their results are not looked at: the accumulator of the `complete` signal never stores `TRUE`, so
that `critical` is always `FALSE`.
-/

set_option autoImplicit false

namespace MateKeyring.Gkm

open Lib List
open Rpc (CkRv ckrOk)

variable {σ κ : Type}

/-- `GkmTransaction`, with callbacks of type `κ`. -/
structure GkmTransaction (κ : Type) where
  completes : List κ
  failed : Bool
  completed : Bool
  result : CkRv

/-- `gkm_transaction_new`. -/
def gkmTransactionNew : GkmTransaction κ :=
  { completes := [], failed := false, completed := false, result := ckrOk }

/-- `gkm_transaction_add`. -/
def gkmTransactionAdd (self : GkmTransaction κ) (complete : κ) : GkmTransaction κ :=
  { self with completes := complete :: self.completes }

/-- `gkm_transaction_fail`; the first failure stays. -/
def gkmTransactionFail (self : GkmTransaction κ) (result : CkRv) : GkmTransaction κ :=
  if self.completed ∨ result = ckrOk ∨ self.failed then self
  else { self with failed := true, result }

/-- `gkm_transaction_complete`, for callbacks that `invoke` runs. -/
def gkmTransactionComplete (invoke : Bool → κ → σ → σ) (self : GkmTransaction κ) (s : σ) :
    GkmTransaction κ × σ :=
  if self.completed then (self, s)
  else
    ({ self with completes := [], completed := true }, unwind (invoke self.failed) self.completes s)

section

variable (self : GkmTransaction κ)

include self

@[simp] theorem gkmTransactionAdd_completes (complete : κ) :
    (gkmTransactionAdd self complete).completes = complete :: self.completes := rfl

@[simp] theorem gkmTransactionAdd_failed (complete : κ) :
    (gkmTransactionAdd self complete).failed = self.failed := rfl

@[simp] theorem gkmTransactionAdd_completed (complete : κ) :
    (gkmTransactionAdd self complete).completed = self.completed := rfl

@[simp] theorem gkmTransactionFail_completes (result : CkRv) :
    (gkmTransactionFail self result).completes = self.completes := by
  unfold gkmTransactionFail
  split <;> rfl

@[simp] theorem gkmTransactionFail_completed (result : CkRv) :
    (gkmTransactionFail self result).completed = self.completed := by
  unfold gkmTransactionFail
  split <;> rfl

end

theorem gkmTransactionFail_of_failed {self : GkmTransaction κ} (h : self.failed = true)
    (result : CkRv) : gkmTransactionFail self result = self := by
  simp [gkmTransactionFail, h]

theorem gkmTransactionFail_failed {self : GkmTransaction κ} (h : self.completed = false)
    {result : CkRv} (hr : result ≠ ckrOk) : (gkmTransactionFail self result).failed = true := by
  cases hf : self.failed with
  | true => simp [gkmTransactionFail, hf]
  | false => simp [gkmTransactionFail, h, hr, hf]

theorem gkmTransactionComplete_state {invoke : Bool → κ → σ → σ} {self : GkmTransaction κ}
    (h : self.completed = false) (s : σ) :
    (gkmTransactionComplete invoke self s).2 = unwind (invoke self.failed) self.completes s := by
  simp [gkmTransactionComplete, h]

/-! ## The `complete` signal

Here a callback may do what the C functions can: it answers, and it may fail the transaction while it
completes. -/

/-- What a callback did: its answer, the codes it failed the transaction with, and the state. -/
structure Completion (σ : Type) where
  answer : Bool
  failures : List CkRv
  state : σ

/-- A transaction that completes, with the callbacks that were called so far. -/
structure Completing (σ κ : Type) where
  transaction : GkmTransaction κ
  state : σ
  called : List κ

/-- One turn of the loop of `gkm_transaction_real_complete`; the answer is not looked at. -/
def completeInvoke (invoke : Bool → κ → σ → Completion σ) (c : Completing σ κ) (k : κ) :
    Completing σ κ :=
  let done := invoke c.transaction.failed k c.state
  { transaction := done.failures.foldl gkmTransactionFail c.transaction
    state := done.state
    called := c.called ++ [k] }

/-- `gkm_transaction_real_complete`, with what it returns. -/
def gkmTransactionRealComplete (invoke : Bool → κ → σ → Completion σ) (self : GkmTransaction κ)
    (s : σ) : Bool × Completing σ κ :=
  if self.completed then (false, { transaction := self, state := s, called := [] })
  else
    let start := { transaction := { self with completed := true }, state := s, called := [] }
    let c := self.completes.foldl (completeInvoke invoke) start
    (true, { c with transaction := { c.transaction with completes := [] } })

/-- `complete_accumulator`. -/
def completeAccumulator (returnAccu handlerReturn : Bool) : Bool :=
  if handlerReturn = false then false else returnAccu

/-- `gkm_transaction_complete`: the value of the signal begins as `FALSE`, and the class has the one
handler. -/
def gkmTransactionCompleteSignal (invoke : Bool → κ → σ → Completion σ) (self : GkmTransaction κ)
    (s : σ) : Completing σ κ :=
  if self.completed then { transaction := self, state := s, called := [] }
  else
    let (answer, c) := gkmTransactionRealComplete invoke self s
    let critical := completeAccumulator false answer
    if c.transaction.failed = false ∧ critical = true then
      { c with transaction := { c.transaction with failed := true, result := Rpc.ckrGeneralError } }
    else c

/-- What is failed while it completes stays as it is. -/
theorem foldl_fail_of_completed {t : GkmTransaction κ} (h : t.completed = true)
    (failures : List CkRv) : failures.foldl gkmTransactionFail t = t := by
  induction failures with
  | nil => rfl
  | cons rv failures ih =>
    rw [foldl_cons, gkmTransactionFail, if_pos (.inl h)]
    exact ih

section

variable (invoke : Bool → κ → σ → Completion σ)

include invoke

/-- Every callback is called, in the order of the list, and the transaction does not change. -/
theorem foldl_completeInvoke (completes : List κ)
    {c : Completing σ κ} (h : c.transaction.completed = true) :
    completes.foldl (completeInvoke invoke) c =
      { transaction := c.transaction
        state := unwind (fun k s => (invoke c.transaction.failed k s).state) completes c.state
        called := c.called ++ completes } := by
  induction completes generalizing c with
  | nil =>
    rw [foldl_nil, append_nil]
    rfl
  | cons k completes ih =>
    have hnext : (completeInvoke invoke c k).transaction = c.transaction :=
      foldl_fail_of_completed h _
    rw [foldl_cons, ih (hnext ▸ h), hnext, unwind_cons]
    simp [completeInvoke]

theorem gkmTransactionCompleteSignal_eq {self : GkmTransaction κ} (h : self.completed = false) (s : σ) :
    gkmTransactionCompleteSignal invoke self s =
      { transaction := { self with completes := [], completed := true }
        state := unwind (fun k s => (invoke self.failed k s).state) self.completes s
        called := self.completes } := by
  rw [gkmTransactionCompleteSignal, if_neg (by simp [h]), gkmTransactionRealComplete,
    if_neg (by simp [h])]
  dsimp only
  rw [foldl_completeInvoke invoke self.completes rfl, completeAccumulator, if_neg (by simp)]
  rfl

/-- The callbacks' answers and failures are lost on the way: what is left is
`gkm_transaction_complete` with callbacks that only change the state. -/
theorem gkmTransactionComplete_refines {self : GkmTransaction κ} (h : self.completed = false) (s : σ) :
    gkmTransactionComplete (fun failed k s => (invoke failed k s).state) self s =
      ((gkmTransactionCompleteSignal invoke self s).transaction,
        (gkmTransactionCompleteSignal invoke self s).state) := by
  rw [gkmTransactionCompleteSignal_eq invoke h, gkmTransactionComplete, if_neg (by simp [h])]

end

/-- A callback answers `FALSE`, or fails the transaction, in the state it is called in. -/
def SomeFails (invoke : Bool → κ → σ → Completion σ) (failed : Bool) : List κ → σ → Prop
  | [], _ => False
  | k :: completes, s =>
    let done := invoke failed k s
    (done.answer = false ∨ ∃ rv ∈ done.failures, rv ≠ ckrOk) ∨
      SomeFails invoke failed completes done.state

/-- A commit that failed is reported, after all callbacks were called in turn. -/
def CommitReported (completes : List κ) (c : Completing σ κ) : Prop :=
  c.transaction.failed = true ∧ c.transaction.result ≠ ckrOk ∧ c.called = completes

/-- Whatever the callbacks do, a failed commit is not reported; they were all called, the latest
first. -/
theorem commit_failure_not_reported (invoke : Bool → κ → σ → Completion σ)
    (self : GkmTransaction κ) (s : σ) (hcompleted : self.completed = false)
    (hfailed : self.failed = false) (hfails : SomeFails invoke false self.completes s) :
    ¬ (SomeFails invoke false self.completes s →
        CommitReported self.completes (gkmTransactionCompleteSignal invoke self s)) ∧
      (gkmTransactionCompleteSignal invoke self s).called = self.completes := by
  have hsame := gkmTransactionCompleteSignal_eq invoke hcompleted s
  refine ⟨fun hreported => ?_, by rw [hsame]⟩
  have htrue := (hreported hfails).1
  rw [hsame] at htrue
  exact absurd (hfailed.symm.trans htrue) Bool.false_ne_true

/-- One callback, which answers `FALSE`. -/
def sampleInvoke (_ : Bool) (_ : Unit) (s : Unit) : Completion Unit :=
  { answer := false, failures := [], state := s }

def sampleTransaction : GkmTransaction Unit := gkmTransactionAdd gkmTransactionNew ()

theorem commit_failure_not_reported_sample :
    ¬ (SomeFails sampleInvoke false sampleTransaction.completes () →
        CommitReported sampleTransaction.completes
          (gkmTransactionCompleteSignal sampleInvoke sampleTransaction ())) ∧
      (gkmTransactionCompleteSignal sampleInvoke sampleTransaction ()).called = [()] :=
  commit_failure_not_reported sampleInvoke sampleTransaction () rfl rfl (.inl (.inl rfl))

/-- Every callback writes down its number, and answers `FALSE`. -/
def sampleWrites (_ : Bool) (k : Nat) (s : List Nat) : Completion (List Nat) :=
  { answer := false, failures := [], state := k :: s }

theorem gkmTransactionComplete_refines_sample :
    gkmTransactionComplete (fun failed k s => (sampleWrites failed k s).state)
        (gkmTransactionAdd (gkmTransactionAdd gkmTransactionNew 1) 2) [] =
      ((gkmTransactionCompleteSignal sampleWrites
          (gkmTransactionAdd (gkmTransactionAdd gkmTransactionNew 1) 2) []).transaction, [1, 2]) :=
  gkmTransactionComplete_refines sampleWrites rfl []

theorem commit_failure_is_lost :
    ¬ (SomeFails sampleInvoke false sampleTransaction.completes () →
        CommitReported sampleTransaction.completes
          (gkmTransactionCompleteSignal sampleInvoke sampleTransaction ())) := by
  intro hreported
  cases (hreported (.inl (.inl rfl))).1

end MateKeyring.Gkm
