import Mathlib.Logic.Function.Basic
import Mathlib.Tactic.Common

/-!
# Directories with hard links

A directory maps names to inodes, and inodes to contents; several names may have one inode. `link`,
`unlink`, `rename` and `create` follow POSIX: `link` and `create` do not replace a name, and `rename`
between two names of one inode does nothing. Each call has an argument that says whether it fails for
a reason outside of the directory.
-/

set_option autoImplicit false

namespace MateKeyring.Lib

open Function (update update_of_ne update_self)

/-- Names, inodes and their contents; the inodes from `next` on are free. -/
structure Directory (π β : Type) where
  names : π → Option Nat
  contents : Nat → β
  next : Nat

/-- Why a call on a directory fails: the name is missing, it is there already, or anything else. -/
inductive Errno where
  | enoent
  | eexist
  | other
  deriving DecidableEq, Repr

namespace Directory

variable {π β : Type} [DecidableEq π]

/-- The contents under a name. -/
def read (d : Directory π β) (p : π) : Option β := (d.names p).map d.contents

/-- A name is put onto an inode, or removed. -/
def set (d : Directory π β) (p : π) (i : Option Nat) : Directory π β :=
  { d with names := update d.names p i }

/-- `link`. -/
def link (d : Directory π β) (old new : π) (fails : Bool) : Except Errno (Directory π β) :=
  if fails then .error .other
  else
    match d.names old with
    | none => .error .enoent
    | some i => if (d.names new).isSome then .error .eexist else .ok (d.set new (some i))

/-- `unlink`. -/
def unlink (d : Directory π β) (p : π) (fails : Bool) : Except Errno (Directory π β) :=
  if fails then .error .other
  else if (d.names p).isNone then .error .enoent
  else .ok (d.set p none)

/-- `rename`. -/
def rename (d : Directory π β) (old new : π) (fails : Bool) : Except Errno (Directory π β) :=
  if fails then .error .other
  else
    match d.names old with
    | none => .error .enoent
    | some i => if d.names new = some i then .ok d else .ok ((d.set new (some i)).set old none)

/-- A name is put onto a new inode. -/
def put (d : Directory π β) (p : π) (b : β) : Directory π β where
  names := update d.names p (some d.next)
  contents := update d.contents d.next b
  next := d.next + 1

/-- `open` with `O_CREAT | O_EXCL`: a new inode. -/
def create (d : Directory π β) (p : π) (empty : β) (fails : Bool) : Except Errno (Directory π β) :=
  if fails then .error .other
  else if (d.names p).isSome then .error .eexist
  else .ok (d.put p empty)

/-- The contents of an inode are replaced. -/
def fill (d : Directory π β) (i : Nat) (b : β) : Directory π β :=
  { d with contents := update d.contents i b }

/-- A directory after a call whose failure is not looked at. -/
def orSame (d : Directory π β) : Except Errno (Directory π β) → Directory π β
  | .ok d' => d'
  | .error _ => d

@[simp] theorem set_names (d : Directory π β) (p : π) (i : Option Nat) :
    (d.set p i).names = update d.names p i := rfl

@[simp] theorem set_contents (d : Directory π β) (p : π) (i : Option Nat) :
    (d.set p i).contents = d.contents := rfl

@[simp] theorem set_next (d : Directory π β) (p : π) (i : Option Nat) :
    (d.set p i).next = d.next := rfl

/-- Every name has an inode that is in use. -/
def WellFormed (d : Directory π β) : Prop := ∀ p i, d.names p = some i → i < d.next

variable {d d' : Directory π β}

theorem WellFormed.set (h : d.WellFormed) (p : π) {i : Option Nat}
    (hi : ∀ j, i = some j → j < d.next) : (d.set p i).WellFormed := by
  intro q j hq
  rw [set_names] at hq
  by_cases hp : q = p
  · rw [hp, update_self] at hq
    exact hi j hq
  · rw [update_of_ne hp] at hq
    exact h q j hq

/-- Two directories with the same names, and the same contents under them. -/
structure Same (d d' : Directory π β) : Prop where
  names : d.names = d'.names
  contents : ∀ p i, d.names p = some i → d.contents i = d'.contents i

omit [DecidableEq π] in
theorem Same.refl (d : Directory π β) : Same d d := ⟨rfl, fun _ _ _ => rfl⟩

omit [DecidableEq π] in
theorem Same.trans {d'' : Directory π β} (h : Same d d') (h' : Same d' d'') : Same d d'' where
  names := h.names.trans h'.names
  contents p i hi := (h.contents p i hi).trans (h'.contents p i (h.names ▸ hi))

omit [DecidableEq π] in
theorem Same.read (h : Same d d') (p : π) : d.read p = d'.read p := by
  unfold Directory.read
  rw [← h.names]
  cases hp : d.names p with
  | none => rfl
  | some i => simp [h.contents p i hp]

theorem Same.set (h : Same d d') (p : π) {i : Option Nat}
    (hi : ∀ j, i = some j → ∃ q, d.names q = some j) : Same (d.set p i) (d'.set p i) where
  names := by rw [set_names, set_names, h.names]
  contents q j hq := by
    rw [set_names] at hq
    by_cases hp : q = p
    · rw [hp, update_self] at hq
      obtain ⟨r, hr⟩ := hi j hq
      exact h.contents r j hr
    · rw [update_of_ne hp] at hq
      exact h.contents q j hq

theorem Same.unlink (h : Same d d') (p : π) (fails : Bool) :
    Same (d.orSame (d.unlink p fails)) (d'.orSame (d'.unlink p fails)) := by
  unfold Directory.unlink
  rw [← h.names]
  split
  · exact h
  · split
    · exact h
    · exact h.set p fun j hj => by cases hj

theorem Same.rename (h : Same d d') (old new : π) (fails : Bool) :
    Same (d.orSame (d.rename old new fails)) (d'.orSame (d'.rename old new fails)) := by
  unfold Directory.rename
  rw [← h.names]
  split
  · exact h
  · split
    · exact h
    · rename_i i hi
      split
      · exact h
      · refine (h.set new fun j hj => ?_).set old fun j hj => by cases hj
        cases hj
        exact ⟨old, hi⟩

/-! ## New inodes -/

theorem create_eq_ok {p : π} {b : β} {fails : Bool}
    (h : d.create p b fails = .ok d') : d.names p = none ∧ d' = d.put p b := by
  unfold create at h
  split at h
  · cases h
  · split at h
    · cases h
    · rename_i hnone
      cases h
      exact ⟨by simpa using hnone, rfl⟩

theorem fill_put (d : Directory π β) (p : π) (a b : β) : (d.put p a).fill d.next b = d.put p b := by
  simp [fill, put]

theorem WellFormed.put (h : d.WellFormed) (p : π) (b : β) : (d.put p b).WellFormed := by
  intro q i hq
  change update d.names p (some d.next) q = some i at hq
  change i < d.next + 1
  by_cases hp : q = p
  · rw [hp, update_self] at hq
    cases hq
    exact Nat.lt_succ_self _
  · rw [update_of_ne hp] at hq
    exact Nat.lt_succ_of_lt (h q i hq)

theorem WellFormed.contents_put (h : d.WellFormed) {p : π} {b : β} {q : π}
    {i : Nat} (hq : d.names q = some i) : (d.put p b).contents i = d.contents i :=
  update_of_ne (Nat.ne_of_lt (h q i hq)) _ _

theorem WellFormed.read_put (h : d.WellFormed) (p : π) (b : β) :
    (d.put p b).read = update d.read p (some b) := by
  funext q
  by_cases hp : q = p
  · subst hp
    simp [read, Directory.put]
  · rw [update_of_ne hp]
    cases hq : d.names q with
    | none => simp [read, Directory.put, update_of_ne hp, hq]
    | some i =>
      have hi : i ≠ d.next := Nat.ne_of_lt (h q i hq)
      simp [read, Directory.put, update_of_ne hp, hq, update_of_ne hi]

/-- A new file is renamed onto another name. -/
theorem WellFormed.rename_put (h : d.WellFormed) {old : π}
    (hold : d.names old = none) (new : π) (b : β) :
    (d.put old b).rename old new false = .ok (d.put new b) := by
  have hnames : (d.put old b).names old = some d.next := update_self ..
  unfold rename
  rw [if_neg Bool.false_ne_true, hnames]
  by_cases hp : new = old
  · subst hp
    simp only [hnames, if_true]
  · have hne : (d.put old b).names new ≠ some d.next := by
      change update d.names old (some d.next) new ≠ some d.next
      rw [update_of_ne hp]
      exact fun hn => Nat.lt_irrefl _ (h new d.next hn)
    simp only [hne, if_false, Except.ok.injEq]
    have hupdate : update (update (update d.names old (some d.next)) new
        (some d.next)) old none = update d.names new (some d.next) := by
      funext q
      by_cases hq : q = old
      · subst hq
        rw [update_self, update_of_ne (Ne.symm hp), hold]
      · rw [update_of_ne hq]
        by_cases hq' : q = new
        · subst hq'
          rw [update_self, update_self]
        · rw [update_of_ne hq', update_of_ne hq, update_of_ne hq']
    change Directory.mk _ _ _ = Directory.mk _ _ _
    congr 1

/-- A new file is removed again. -/
theorem WellFormed.unlink_put (h : d.WellFormed) {p : π} (hp : d.names p = none) (b : β) :
    Same ((d.put p b).orSame ((d.put p b).unlink p false)) d := by
  have hnames : (d.put p b).names p = some d.next := update_self ..
  have hback : update (d.put p b).names p none = d.names := by
    funext q
    by_cases hq : q = p
    · subst hq
      rw [update_self, hp]
    · rw [update_of_ne hq]
      exact update_of_ne hq _ _
  unfold unlink
  rw [if_neg Bool.false_ne_true, hnames, Option.isNone_some, if_neg Bool.false_ne_true]
  refine ⟨hback, fun q i hq => ?_⟩
  change update (d.put p b).names p none q = some i at hq
  rw [hback] at hq
  exact h.contents_put (p := p) (b := b) hq

/-- A file that is not there is not removed. -/
theorem unlink_missing {p : π} (h : d.names p = none) (fails : Bool) :
    d.orSame (d.unlink p fails) = d := by
  unfold unlink
  rw [h]
  cases fails with
  | true => rfl
  | false => rfl

theorem WellFormed.unlink (h : d.WellFormed) (p : π) (fails : Bool) :
    (d.orSame (d.unlink p fails)).WellFormed := by
  unfold Directory.unlink
  split
  · exact h
  · split
    · exact h
    · exact h.set p fun j hj => by cases hj

end Directory

end MateKeyring.Lib
