import Mathlib.Data.List.Basic

/-!
# Undo logs

An operation changes a state and pushes records onto a log. Undoing a log takes its records from the
head on, so the latest operation is undone first. `UndoLog.Undoes s log s'` says that undoing `log`
in `s'` leads back to `s`, up to what the states are looked at for; it composes (`Undoes.trans`), so
that a sequence of operations is undone when each one is.
-/

set_option autoImplicit false

namespace MateKeyring.Lib

open List

variable {σ κ : Type}

/-- Undo the records of a log, from the head on. -/
def unwind (undo : κ → σ → σ) : List κ → σ → σ
  | [], s => s
  | k :: log, s => unwind undo log (undo k s)

@[simp] theorem unwind_nil (undo : κ → σ → σ) (s : σ) : unwind undo [] s = s := rfl

@[simp] theorem unwind_cons (undo : κ → σ → σ) (k : κ) (log : List κ) (s : σ) :
    unwind undo (k :: log) s = unwind undo log (undo k s) := rfl

theorem unwind_append (undo : κ → σ → σ) (log log' : List κ) (s : σ) :
    unwind undo (log ++ log') s = unwind undo log' (unwind undo log s) := by
  induction log generalizing s with
  | nil => rfl
  | cons k log ih => exact ih (undo k s)

/-- Records that change nothing. -/
theorem unwind_of_fixed {undo : κ → σ → σ} {log : List κ} {s : σ}
    (h : ∀ k ∈ log, undo k s = s) : unwind undo log s = s := by
  induction log with
  | nil => rfl
  | cons k log ih =>
    rw [unwind_cons, h k (mem_cons_self ..)]
    exact ih fun k' hk' => h k' (mem_cons_of_mem k hk')

/-- What every record preserves holds after the log is undone. -/
theorem unwind_invariant {undo : κ → σ → σ} {I : σ → Prop} {log : List κ} {s : σ}
    (h : ∀ k ∈ log, ∀ s, I s → I (undo k s)) (hs : I s) : I (unwind undo log s) := by
  induction log generalizing s with
  | nil => exact hs
  | cons k log ih =>
    exact ih (fun k' hk' => h k' (mem_cons_of_mem k hk')) (h k (mem_cons_self ..) s hs)

/-- How records are undone, and when two states look the same; undoing keeps states that look the
same so. -/
structure UndoLog (σ κ : Type) where
  undo : κ → σ → σ
  same : σ → σ → Prop
  same_refl : ∀ s, same s s
  same_trans : ∀ {s t u}, same s t → same t u → same s u
  undo_congr : ∀ k {s t}, same s t → same (undo k s) (undo k t)

namespace UndoLog

variable (L : UndoLog σ κ) {s s' s'' : σ} {log log' : List κ}

theorem unwind_congr (log : List κ) (h : L.same s s') :
    L.same (unwind L.undo log s) (unwind L.undo log s') := by
  induction log generalizing s s' with
  | nil => exact h
  | cons k log ih => exact ih (L.undo_congr k h)

/-- Undoing `log` in `s'` leads back to `s`. -/
def Undoes (s : σ) (log : List κ) (s' : σ) : Prop := L.same (unwind L.undo log s') s

theorem Undoes.refl (s : σ) : L.Undoes s [] s := L.same_refl s

variable {L}

theorem Undoes.of_same (h : L.same s' s) : L.Undoes s [] s' := h

/-- One record undoes one operation. -/
theorem Undoes.single {k : κ} (h : L.same (L.undo k s') s) : L.Undoes s [k] s' := h

/-- The records of a later operation are undone before those of an earlier one. -/
theorem Undoes.trans (h : L.Undoes s log s') (h' : L.Undoes s' log' s'') :
    L.Undoes s (log' ++ log) s'' := by
  show L.same (unwind L.undo (log' ++ log) s'') s
  rw [unwind_append]
  exact L.same_trans (L.unwind_congr log h') h

end UndoLog

end MateKeyring.Lib
