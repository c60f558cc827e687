import Mathlib.Data.List.AList
import MateKeyring.Egg.Buffer

/-!
# The file tracker

`gkm-file-tracker.c`. A refresh lists the directory only if its modification time is another one than before, or if
that is forced; else it asks for the files that it has. Files are in a table with their modification times, as
pointers. A time is read back with `GPOINTER_TO_UINT`, which leaves the lower 32 bits, and 0 counts as nothing.

A refresh is `Exact` if the table has afterwards what the directory has, and the signals are the differences. Every
refresh of a run is exact as long as none is one of those that the code does not expect (`Expected`).
-/

set_option autoImplicit false

namespace MateKeyring.Gkm.FileTracker

open Egg List

/-! ## Directories -/

/-- The name of a file. -/
abbrev Name := Bytes

/-- `st_mode & S_IFMT` -/
inductive FileKind where
  | regular
  | directory
  | characterDevice
  | blockDevice
  | fifo
  | socket
  deriving DecidableEq, Repr

/-- The bits of the kind. -/
def FileKind.mode : FileKind → Nat
  | .regular => 0x8000
  | .directory => 0x4000
  | .characterDevice => 0x2000
  | .blockDevice => 0x6000
  | .fifo => 0x1000
  | .socket => 0xc000

abbrev sIfdir : Nat := 0x4000

/-- `struct stat` -/
structure Stat where
  kind : FileKind
  mtime : Int
  deriving DecidableEq, Repr

/-- An entry of a directory. Without a `stat`, `stat` fails. -/
structure Entry where
  name : Name
  stat : Option Stat
  deriving DecidableEq, Repr

/-- What is at the path of the directory: its own time, whether it can be listed, and its entries. -/
structure Listing where
  mtime : Int
  readable : Bool
  entries : List Entry
  nodup : (entries.map Entry.name).Nodup

/-- The state of the directory at a refresh. -/
inductive DirState where
  | missing
  | present (l : Listing)

/-- The entry of a name. -/
def Listing.find (l : Listing) (name : Name) : Option Entry := l.entries.find? fun e => e.name == name

/-- `stat` of a file. -/
def Listing.stat (l : Listing) (name : Name) : Option Stat := (l.find name).bind Entry.stat

/-! ## The tracker -/

/-- The patterns of the tracker. -/
structure Patterns where
  includes : Option (Name → Bool)
  excludes : Option (Name → Bool)

/-- The checks of a name at the start of the loop. -/
def Patterns.selects (p : Patterns) (name : Name) : Bool :=
  name.head? != some 0x2e && (p.includes.all fun f => f name) && !(p.excludes.any fun f => f name)

/-- The hash table of the files, with the pointers. -/
abbrev Table := AList fun _ : Name => Int

/-- `g_hash_table_lookup`, where `NULL` is 0. -/
def lookupPointer (files : Table) (name : Name) : Int := (files.lookup name).getD 0

/-- `GPOINTER_TO_UINT` -/
def gpointerToUint (p : Int) : Int := p % 2 ^ 32

/-- The signals. -/
inductive Event where
  | added (name : Name)
  | removed (name : Name)
  | changed (name : Name)
  deriving DecidableEq, Repr

/-- What a refresh changes. -/
structure Update where
  files : Table
  checks : List Name
  events : List Event

/-- `update_file` -/
def updateFile (forceAll : Bool) (stat : Option Stat) (u : Update) (path : Name) : Checked (Bool × Update) :=
  match stat with
  | none => .ok (false, u)
  | some sb => do
      cAssert (gpointerToUint (lookupPointer u.files path) ≠ 0)
      if forceAll ∨ gpointerToUint (lookupPointer u.files path) ≠ sb.mtime then do
        cAssert (lookupPointer u.files path ≠ 0)
        pure (true, { u with files := u.files.insert path sb.mtime, events := u.events ++ [.changed path] })
      else pure (true, u)

/-- `g_hash_table_foreach` with `update_each_file`. -/
def updateEachFile (l : Listing) : List Name → Update → Checked Update
  | [], u => .ok u
  | key :: keys, u => do
      let r ← updateFile false (l.stat key) u key
      updateEachFile l keys (if r.1 then { r.2 with checks := r.2.checks.erase key } else r.2)

/-- An entry of the listing. -/
def updateEntry (forceAll : Bool) (e : Entry) (u : Update) : Checked Update :=
  if e.name ∈ u.checks then do
    let r ← updateFile forceAll e.stat { u with checks := u.checks.erase e.name } e.name
    pure r.2
  else
    match e.stat with
    | none => .ok u
    | some sb =>
      if sb.kind.mode &&& sIfdir ≠ 0 then .ok u
      else .ok { u with files := u.files.insert e.name sb.mtime, events := u.events ++ [.added e.name] }

/-- The loop over the directory. -/
def updateEntries (p : Patterns) (forceAll : Bool) : List Entry → Update → Checked Update
  | [], u => .ok u
  | e :: es, u =>
    if p.selects e.name = false then updateEntries p forceAll es u
    else do
      let u ← updateEntry forceAll e u
      updateEntries p forceAll es u

/-- `GkmFileTracker` -/
structure Tracker where
  directoryMtime : Int
  files : Table

/-- `update_directory`: the time of the directory, and the rest. -/
def updateDirectory (p : Patterns) (dir : DirState) (forceAll : Bool) (mtime : Int) (u : Update) :
    Checked (Int × Update) :=
  match dir with
  | .missing => .ok (mtime, u)
  | .present l =>
    if forceAll = false ∧ mtime = l.mtime then do
      let u ← updateEachFile l u.files.keys u
      pure (mtime, u)
    else if l.readable = false then .ok (l.mtime, u)
    else do
      let u ← updateEntries p forceAll l.entries u
      pure (l.mtime, u)

/-- `g_hash_table_foreach` with `remove_files`. -/
def removeFiles : List Name → Update → Update
  | [], u => u
  | key :: keys, u =>
    removeFiles keys { u with files := u.files.erase key, events := u.events ++ [.removed key] }

/-- `gkm_file_tracker_refresh`: the tracker, and the signals. -/
def gkmFileTrackerRefresh (p : Patterns) (dir : DirState) (forceAll : Bool) (t : Tracker) :
    Checked (Tracker × List Event) := do
  let r ← updateDirectory p dir forceAll t.directoryMtime ⟨t.files, t.files.keys, []⟩
  let u := removeFiles r.2.checks r.2
  pure (⟨r.1, u.files⟩, u.events)

/-! ## What a refresh is for -/

/-- What is to be tracked, with its modification time: the entries that are visible, that match and that are no
directory. -/
def wanted (p : Patterns) (dir : DirState) (name : Name) : Option Int :=
  match dir with
  | .missing => none
  | .present l =>
    if p.selects name then
      (l.stat name).bind fun sb => if sb.kind = .directory then none else some sb.mtime
    else none

/-- The table is what is to be tracked, and each signal is emitted once for its difference. -/
structure Exact (forceAll : Bool) (target : Name → Option Int) (old new : Table) (events : List Event) : Prop where
  tracked : ∀ name, new.lookup name = target name
  once : events.Nodup
  added : ∀ name, .added name ∈ events ↔ name ∉ old ∧ (target name).isSome
  removed : ∀ name, .removed name ∈ events ↔ name ∈ old ∧ target name = none
  changed : ∀ name, .changed name ∈ events ↔
    name ∈ old ∧ (target name).isSome ∧ (forceAll ∨ old.lookup name ≠ target name)

/-- A refresh fails no assertion, and is exact. -/
def RefreshRight (p : Patterns) (t : Tracker) (dir : DirState) (forceAll : Bool) : Prop :=
  ∃ t' events, gkmFileTrackerRefresh p dir forceAll t = .ok (t', events) ∧
    Exact forceAll (wanted p dir) t.files t'.files events

/-! ## One file -/

/-- A time that is read back from its pointer, and is not taken for `NULL`. -/
def Storable (mtime : Int) : Prop := 0 < mtime ∧ mtime < 2 ^ 32

instance (mtime : Int) : Decidable (Storable mtime) := inferInstanceAs (Decidable (_ ∧ _))

theorem gpointerToUint_eq {mtime : Int} (h : Storable mtime) : gpointerToUint mtime = mtime :=
  Int.emod_eq_of_lt (Int.le_of_lt h.1) h.2

/-- What has been done for the names that were seen. -/
structure Progress (forceAll : Bool) (target : Name → Option Int) (old : Table) (seen : List Name) (u : Update) :
    Prop where
  lookup : ∀ name, u.files.lookup name = if name ∈ seen then target name else old.lookup name
  checks : ∀ name, name ∈ u.checks ↔ name ∈ old ∧ name ∉ seen
  checks_nodup : u.checks.Nodup
  events_nodup : u.events.Nodup
  added : ∀ name, .added name ∈ u.events ↔ name ∈ seen ∧ name ∉ old ∧ (target name).isSome
  removed : ∀ name, .removed name ∉ u.events
  changed : ∀ name, .changed name ∈ u.events ↔
    name ∈ seen ∧ name ∈ old ∧ (forceAll ∨ old.lookup name ≠ target name)

section Progress

variable {forceAll : Bool} {target : Name → Option Int} {old : Table} {seen : List Name} {u : Update}
  {name : Name}

/-- At the start nothing is seen. -/
theorem progress_start : Progress forceAll target old [] ⟨old, old.keys, []⟩ where
  lookup _ := (if_neg not_mem_nil).symm
  checks _ := ⟨fun h => ⟨h, not_mem_nil⟩, fun h => h.1⟩
  checks_nodup := old.keys_nodup
  events_nodup := nodup_nil
  added _ := iff_of_false not_mem_nil (fun h => not_mem_nil h.1)
  removed _ := not_mem_nil
  changed _ := iff_of_false not_mem_nil (fun h => not_mem_nil h.1)

/-- A file that was there, when it has been updated. -/
def updated (forceAll : Bool) (mtime : Int) (m : Int) (u : Update) (name : Name) : Update :=
  if forceAll ∨ m ≠ mtime then
    { u with files := u.files.insert name mtime, events := u.events ++ [.changed name] }
  else u

theorem updateFile_eq (forceAll : Bool) (u : Update) {m : Int} (hm : u.files.lookup name = some m)
    (hrange : Storable m) (sb : Stat) :
    updateFile forceAll (some sb) u name = .ok (true, updated forceAll sb.mtime m u name) := by
  have hold : lookupPointer u.files name = m := by rw [lookupPointer, hm]; rfl
  have hne : m ≠ 0 := ne_of_gt hrange.1
  rw [updateFile, hold, gpointerToUint_eq hrange, cAssert_of_true hne, ok_bind, updated]
  split
  · rfl
  · rfl

section

variable (h : Progress forceAll target old seen u)

include h

/-- It is updated once. -/
theorem Progress.update (hseen : name ∉ seen) {m mtime : Int}
    (hm : old.lookup name = some m) (htarget : target name = some mtime) :
    Progress forceAll target old (name :: seen)
      { updated forceAll mtime m u name with checks := u.checks.erase name } := by
  have hold : name ∈ old := AList.lookup_isSome.1 (by rw [hm]; rfl)
  have hcheck : ∀ n, n ∈ u.checks.erase name ↔ n ∈ old ∧ n ∉ name :: seen := by
    intro n
    rw [h.checks_nodup.mem_erase_iff, h.checks, mem_cons, not_or]
    tauto
  have hadded : ∀ n, (n ∈ name :: seen ∧ n ∉ old ∧ (target n).isSome) ↔ n ∈ seen ∧ n ∉ old ∧ (target n).isSome := by
    intro n
    rw [mem_cons]
    constructor
    · rintro ⟨rfl | hn, hrest⟩
      · exact absurd hold hrest.1
      · exact ⟨hn, hrest⟩
    · rintro ⟨hn, hrest⟩
      exact ⟨.inr hn, hrest⟩
  rw [updated]
  split
  · rename_i hchanged
    refine ⟨fun n => ?_, hcheck, h.checks_nodup.erase _, ?_, fun n => ?_, fun n => ?_, fun n => ?_⟩
    · by_cases hn : n = name
      · subst hn
        rw [if_pos mem_cons_self, htarget]
        exact AList.lookup_insert _
      · have hiff : n ∈ name :: seen ↔ n ∈ seen := by rw [mem_cons, or_iff_right hn]
        simp only [hiff]
        exact (AList.lookup_insert_ne hn).trans (h.lookup n)
    · apply nodup_append.2
      refine ⟨h.events_nodup, nodup_singleton _, ?_⟩
      rintro e he e' he' rfl
      rw [mem_singleton.1 he', h.changed] at he
      exact hseen he.1
    · show Event.added n ∈ u.events ++ [.changed name] ↔ _
      rw [hadded, mem_append, mem_singleton, h.added]
      exact or_iff_left (by exact nofun)
    · show ¬ Event.removed n ∈ u.events ++ [.changed name]
      rw [mem_append, mem_singleton, not_or]
      exact ⟨h.removed n, by exact nofun⟩
    · show Event.changed n ∈ u.events ++ [.changed name] ↔ _
      rw [mem_append, mem_singleton, h.changed, mem_cons, Event.changed.injEq]
      constructor
      · rintro (hn | rfl)
        · exact ⟨.inr hn.1, hn.2⟩
        · refine ⟨.inl rfl, hold, hchanged.imp_right fun hne heq => hne ?_⟩
          rw [hm, htarget] at heq
          exact Option.some.inj heq
      · rintro ⟨rfl | hn, hrest⟩
        · exact .inr rfl
        · exact .inl ⟨hn, hrest⟩
  · rename_i hsame
    rw [not_or, not_not] at hsame
    refine ⟨fun n => ?_, hcheck, h.checks_nodup.erase _, h.events_nodup, fun n => ?_, h.removed, fun n => ?_⟩
    · show u.files.lookup n = _
      rw [h.lookup]
      by_cases hn : n = name
      · subst hn
        rw [if_neg hseen, if_pos mem_cons_self, hm, htarget, hsame.2]
      · have hiff : n ∈ name :: seen ↔ n ∈ seen := by rw [mem_cons, or_iff_right hn]
        simp only [hiff]
    · show Event.added n ∈ u.events ↔ _
      rw [hadded, h.added]
    · show Event.changed n ∈ u.events ↔ _
      rw [h.changed, mem_cons]
      constructor
      · rintro ⟨hn, hrest⟩
        exact ⟨.inr hn, hrest⟩
      · rintro ⟨rfl | hn, hrest⟩
        · rw [hm, htarget, hsame.2] at hrest
          exact absurd hrest.2 (by simp [hsame.1])
        · exact ⟨hn, hrest⟩

/-- A file that was not there is added, if it is to be tracked. -/
theorem Progress.add (hseen : name ∉ seen) (hold : name ∉ old) {mtime : Int}
    (htarget : target name = some mtime) :
    Progress forceAll target old (name :: seen)
      { u with files := u.files.insert name mtime, events := u.events ++ [.added name] } := by
  refine ⟨fun n => ?_, fun n => ?_, h.checks_nodup, ?_, fun n => ?_, fun n => ?_, fun n => ?_⟩
  · by_cases hn : n = name
    · subst hn
      rw [if_pos mem_cons_self, htarget]
      exact AList.lookup_insert _
    · have hiff : n ∈ name :: seen ↔ n ∈ seen := by rw [mem_cons, or_iff_right hn]
      simp only [hiff]
      exact (AList.lookup_insert_ne hn).trans (h.lookup n)
  · show n ∈ u.checks ↔ _
    rw [h.checks, mem_cons, not_or]
    exact and_congr_right fun hn => (and_iff_right fun heq : n = name => hold (heq ▸ hn)).symm
  · apply nodup_append.2
    refine ⟨h.events_nodup, nodup_singleton _, ?_⟩
    rintro e he e' he' rfl
    rw [mem_singleton.1 he', h.added] at he
    exact hseen he.1
  · show Event.added n ∈ u.events ++ [.added name] ↔ _
    rw [mem_append, mem_singleton, h.added, mem_cons, Event.added.injEq]
    constructor
    · rintro (hn | rfl)
      · exact ⟨.inr hn.1, hn.2⟩
      · exact ⟨.inl rfl, hold, by rw [htarget]; rfl⟩
    · rintro ⟨rfl | hn, hrest⟩
      · exact .inr rfl
      · exact .inl ⟨hn, hrest⟩
  · show ¬ Event.removed n ∈ u.events ++ [.added name]
    rw [mem_append, mem_singleton, not_or]
    exact ⟨h.removed n, by exact nofun⟩
  · show Event.changed n ∈ u.events ++ [.added name] ↔ _
    rw [mem_append, mem_singleton, h.changed, or_iff_left (by exact nofun), mem_cons]
    constructor
    · rintro ⟨hn, hrest⟩
      exact ⟨.inr hn, hrest⟩
    · rintro ⟨rfl | hn, hrest⟩
      · exact absurd hrest.1 hold
      · exact ⟨hn, hrest⟩

/-- A name that was not there and is not to be tracked. -/
theorem Progress.pass (hold : name ∉ old) (htarget : target name = none) :
    Progress forceAll target old (name :: seen) u := by
  refine ⟨fun n => ?_, fun n => ?_, h.checks_nodup, h.events_nodup, fun n => ?_, h.removed, fun n => ?_⟩
  · rw [h.lookup]
    by_cases hn : n = name
    · subst hn
      rw [if_pos mem_cons_self, htarget, AList.lookup_eq_none.2 hold, ite_self]
    · have hiff : n ∈ name :: seen ↔ n ∈ seen := by rw [mem_cons, or_iff_right hn]
      simp only [hiff]
  · rw [h.checks, mem_cons, not_or]
    exact and_congr_right fun hn => (and_iff_right fun heq : n = name => hold (heq ▸ hn)).symm
  · rw [h.added, mem_cons]
    constructor
    · rintro ⟨hn, hrest⟩
      exact ⟨.inr hn, hrest⟩
    · rintro ⟨rfl | hn, hrest⟩
      · rw [htarget] at hrest
        exact absurd hrest.2 Bool.false_ne_true
      · exact ⟨hn, hrest⟩
  · rw [h.changed, mem_cons]
    constructor
    · rintro ⟨hn, hrest⟩
      exact ⟨.inr hn, hrest⟩
    · rintro ⟨rfl | hn, hrest⟩
      · exact absurd hrest.1 hold
      · exact ⟨hn, hrest⟩

end

/-! ## The end of a refresh -/

theorem removeFiles_lookup (keys : List Name) (u : Update) (n : Name) :
    (removeFiles keys u).files.lookup n = if n ∈ keys then none else u.files.lookup n := by
  induction keys generalizing u with
  | nil => exact (if_neg not_mem_nil).symm
  | cons key keys ih =>
    rw [removeFiles, ih]
    by_cases hkeys : n ∈ keys
    · rw [if_pos hkeys, if_pos (mem_cons_of_mem _ hkeys)]
    · rw [if_neg hkeys]
      by_cases hn : n = key
      · subst hn
        rw [if_pos mem_cons_self]
        exact AList.lookup_erase _ _
      · rw [if_neg (by rw [mem_cons, not_or]; exact ⟨hn, hkeys⟩)]
        exact AList.lookup_erase_ne hn

theorem removeFiles_events (keys : List Name) (u : Update) :
    (removeFiles keys u).events = u.events ++ keys.map .removed := by
  induction keys generalizing u with
  | nil => exact (append_nil _).symm
  | cons key keys ih => rw [removeFiles, ih, append_assoc]; rfl

/-- What is not seen is removed, so that the refresh is exact if everything that is to be tracked was seen. -/
theorem Progress.exact (h : Progress forceAll target old seen u)
    (hseen : ∀ name, name ∉ seen → target name = none) (htarget : ∀ name ∈ seen, name ∈ old → (target name).isSome) :
    Exact forceAll target old (removeFiles u.checks u).files (removeFiles u.checks u).events := by
  refine ⟨fun n => ?_, ?_, fun n => ?_, fun n => ?_, fun n => ?_⟩
  · rw [removeFiles_lookup, h.lookup]
    by_cases hn : n ∈ seen
    · rw [if_pos hn, if_neg (fun hcheck => ((h.checks n).1 hcheck).2 hn)]
    · rw [if_neg hn, hseen n hn]
      split
      · rfl
      · rename_i hcheck
        rw [h.checks, not_and_not_right] at hcheck
        exact AList.lookup_eq_none.2 fun hold => hn (hcheck hold)
  · rw [removeFiles_events]
    apply nodup_append.2
    refine ⟨h.events_nodup, h.checks_nodup.map fun a b heq => Event.removed.inj heq, ?_⟩
    rintro e he e' he' rfl
    obtain ⟨n, -, rfl⟩ := mem_map.1 he'
    exact h.removed n he
  · rw [removeFiles_events, mem_append, h.added, or_iff_left (by simp)]
    constructor
    · exact fun hn => hn.2
    · intro hn
      refine ⟨?_, hn⟩
      by_contra hnot
      rw [hseen n hnot] at hn
      exact Bool.false_ne_true hn.2
  · rw [removeFiles_events, mem_append, or_iff_right (h.removed n), mem_map]
    constructor
    · rintro ⟨m, hm, heq⟩
      cases heq
      rw [h.checks] at hm
      exact ⟨hm.1, hseen n hm.2⟩
    · rintro ⟨hold, hnone⟩
      refine ⟨n, (h.checks n).2 ⟨hold, fun hn => ?_⟩, rfl⟩
      have hsome := htarget n hn hold
      rw [hnone] at hsome
      exact Bool.false_ne_true hsome
  · rw [removeFiles_events, mem_append, h.changed, or_iff_left (by simp)]
    constructor
    · rintro ⟨hn, hold, hrest⟩
      exact ⟨hold, htarget n hn hold, hrest⟩
    · rintro ⟨hold, hsome, hrest⟩
      refine ⟨?_, hold, hrest⟩
      by_contra hnot
      rw [hseen n hnot] at hsome
      exact Bool.false_ne_true hsome

end Progress

/-! ## The two paths -/

section Paths

variable {p : Patterns} {l : Listing} {forceAll : Bool} {old : Table}

theorem find_eq {e : Entry} (he : e ∈ l.entries) : l.find e.name = some e := by
  have hnodup := l.nodup
  rw [Listing.find]
  generalize l.entries = es at he hnodup
  induction es with
  | nil => exact absurd he not_mem_nil
  | cons e' es ih =>
    rw [map_cons, nodup_cons] at hnodup
    rcases mem_cons.1 he with rfl | he
    · exact find?_cons_of_pos (beq_self_eq_true _)
    · have hne : e'.name ≠ e.name := fun heq => hnodup.1 (heq ▸ mem_map_of_mem he)
      rw [find?_cons_of_neg (by rw [beq_false_of_ne hne]; exact Bool.false_ne_true)]
      exact ih he hnodup.2

theorem wanted_entry {e : Entry} (he : e ∈ l.entries) (hsel : p.selects e.name = true) :
    wanted p (.present l) e.name =
      e.stat.bind fun sb => if sb.kind = .directory then none else some sb.mtime := by
  rw [wanted, if_pos hsel, Listing.stat, find_eq he]
  rfl

/-- Only the bits of a directory, of a block device and of a socket have that of a directory. -/
theorem mode_and_sIfdir_iff {kind : FileKind} :
    kind.mode &&& sIfdir ≠ 0 ↔ kind = .directory ∨ kind = .blockDevice ∨ kind = .socket := by
  cases kind
  all_goals decide

/-- What the loop over the directory expects of an entry: a file that is tracked is still one, and its time can be
stored; another one is no block device and no socket. -/
structure EntryExpected (old : Table) (e : Entry) : Prop where
  tracked : ∀ m, old.lookup e.name = some m → Storable m ∧ ∃ sb, e.stat = some sb ∧ sb.kind ≠ .directory
  other : e.name ∉ old → ∀ sb, e.stat = some sb → sb.kind ≠ .blockDevice ∧ sb.kind ≠ .socket

/-- One entry of the listing. -/
theorem updateEntry_progress {seen : List Name} {u : Update} {e : Entry}
    (h : Progress forceAll (wanted p (.present l)) old seen u) (hseen : e.name ∉ seen) (he : e ∈ l.entries)
    (hsel : p.selects e.name = true) (hexpected : EntryExpected old e) :
    ∃ u', updateEntry forceAll e u = .ok u' ∧
      Progress forceAll (wanted p (.present l)) old (e.name :: seen) u' := by
  have hwanted := wanted_entry he hsel
  rw [updateEntry]
  by_cases hold : e.name ∈ old
  · rw [if_pos ((h.checks e.name).2 ⟨hold, hseen⟩)]
    obtain ⟨m, hm⟩ := Option.isSome_iff_exists.1 (AList.lookup_isSome.2 hold)
    obtain ⟨hrange, sb, hstat, hkind⟩ := hexpected.tracked m hm
    have hlookup : u.files.lookup e.name = some m := by rw [h.lookup, if_neg hseen, hm]
    have htarget : wanted p (.present l) e.name = some sb.mtime := by
      rw [hwanted, hstat]
      exact if_neg hkind
    have hrun := updateFile_eq forceAll { u with checks := u.checks.erase e.name } hlookup hrange sb
    rw [hstat, hrun, ok_bind]
    refine ⟨_, rfl, ?_⟩
    have hstep := h.update hseen hm htarget
    rw [updated] at hstep ⊢
    split at hstep
    · rename_i hchanged
      rw [if_pos hchanged]
      exact hstep
    · rename_i hsame
      rw [if_neg hsame]
      exact hstep
  · rw [if_neg (fun hcheck => hold ((h.checks e.name).1 hcheck).1)]
    cases hstat : e.stat with
    | none =>
      rw [hstat] at hwanted
      exact ⟨u, rfl, h.pass hold hwanted⟩
    | some sb =>
      rw [hstat] at hwanted
      obtain ⟨hblock, hsocket⟩ := hexpected.other hold sb hstat
      dsimp only
      by_cases hdir : sb.kind = .directory
      · rw [if_pos (mode_and_sIfdir_iff.2 (.inl hdir))]
        exact ⟨u, rfl, h.pass hold (hwanted.trans (if_pos hdir))⟩
      · rw [if_neg (fun hbits => (mode_and_sIfdir_iff.1 hbits).elim hdir fun hor => hor.elim hblock hsocket)]
        exact ⟨_, rfl, h.add hseen hold (hwanted.trans (if_neg hdir))⟩

/-- The loop over the directory sees every name that matches. -/
theorem updateEntries_progress (es : List Entry) {seen : List Name} {u : Update}
    (h : Progress forceAll (wanted p (.present l)) old seen u) (hnodup : (es.map Entry.name).Nodup)
    (hseen : ∀ e ∈ es, e.name ∉ seen) (hes : ∀ e ∈ es, e ∈ l.entries)
    (hexpected : ∀ e ∈ es, p.selects e.name = true → EntryExpected old e) :
    ∃ u' seen', updateEntries p forceAll es u = .ok u' ∧ Progress forceAll (wanted p (.present l)) old seen' u' ∧
      ∀ n, n ∈ seen' ↔ n ∈ seen ∨ ∃ e ∈ es, p.selects e.name = true ∧ e.name = n := by
  induction es generalizing seen u with
  | nil => exact ⟨u, seen, rfl, h, fun n => (or_iff_left (by simp)).symm⟩
  | cons e es ih =>
    rw [map_cons, nodup_cons] at hnodup
    have hrest : ∀ e' ∈ es, e' ∈ l.entries := fun e' he' => hes e' (mem_cons_of_mem _ he')
    have hexpectedRest : ∀ e' ∈ es, p.selects e'.name = true → EntryExpected old e' := fun e' he' =>
      hexpected e' (mem_cons_of_mem _ he')
    rw [updateEntries]
    by_cases hsel : p.selects e.name = false
    · rw [if_pos hsel]
      obtain ⟨u', seen', hrun, hprogress, hmem⟩ :=
        ih h hnodup.2 (fun e' he' => hseen e' (mem_cons_of_mem _ he')) hrest hexpectedRest
      refine ⟨u', seen', hrun, hprogress, fun n => (hmem n).trans (or_congr_right ?_)⟩
      constructor
      · rintro ⟨e', he', hrest'⟩
        exact ⟨e', mem_cons_of_mem _ he', hrest'⟩
      · rintro ⟨e', he', hsel', hname⟩
        rcases mem_cons.1 he' with rfl | he'
        · rw [hsel] at hsel'
          exact absurd hsel' Bool.false_ne_true
        · exact ⟨e', he', hsel', hname⟩
    · have htrue : p.selects e.name = true := Bool.eq_true_of_not_eq_false hsel
      obtain ⟨u₁, hentry, hprogress₁⟩ := updateEntry_progress h (hseen e mem_cons_self)
        (hes e mem_cons_self) htrue (hexpected e mem_cons_self htrue)
      have hfresh : ∀ e' ∈ es, e'.name ∉ e.name :: seen := by
        intro e' he'
        rw [mem_cons, not_or]
        exact ⟨fun heq => hnodup.1 (heq ▸ mem_map_of_mem he'), hseen e' (mem_cons_of_mem _ he')⟩
      obtain ⟨u', seen', hrun, hprogress, hmem⟩ := ih hprogress₁ hnodup.2 hfresh hrest hexpectedRest
      rw [if_neg hsel, hentry, ok_bind]
      refine ⟨u', seen', hrun, hprogress, fun n => (hmem n).trans ?_⟩
      rw [mem_cons]
      constructor
      · rintro ((rfl | hn) | ⟨e', he', hrest'⟩)
        · exact .inr ⟨e, mem_cons_self, htrue, rfl⟩
        · exact .inl hn
        · exact .inr ⟨e', mem_cons_of_mem _ he', hrest'⟩
      · rintro (hn | ⟨e', he', hsel', rfl⟩)
        · exact .inl (.inr hn)
        · rcases mem_cons.1 he' with rfl | he'
          · exact .inl (.inl rfl)
          · exact .inr ⟨e', he', hsel', rfl⟩

/-- Without a listing the files that are there are seen. -/
theorem updateEachFile_progress (keys : List Name) {seen : List Name} {u : Update}
    (h : Progress false (wanted p (.present l)) old seen u) (hnodup : keys.Nodup) (hseen : ∀ n ∈ keys, n ∉ seen)
    (hkeys : ∀ n ∈ keys, ∃ m sb, old.lookup n = some m ∧ Storable m ∧ l.stat n = some sb ∧
      wanted p (.present l) n = some sb.mtime) :
    ∃ u' seen', updateEachFile l keys u = .ok u' ∧ Progress false (wanted p (.present l)) old seen' u' ∧
      ∀ n, n ∈ seen' ↔ n ∈ seen ∨ n ∈ keys := by
  induction keys generalizing seen u with
  | nil => exact ⟨u, seen, rfl, h, fun n => (or_iff_left not_mem_nil).symm⟩
  | cons key keys ih =>
    rw [nodup_cons] at hnodup
    obtain ⟨m, sb, hm, hrange, hstat, htarget⟩ := hkeys key mem_cons_self
    have hkey : key ∉ seen := hseen key mem_cons_self
    have hlookup : u.files.lookup key = some m := by rw [h.lookup, if_neg hkey, hm]
    have hchecks : (updated false sb.mtime m u key).checks = u.checks := by
      rw [updated]
      split
      · rfl
      · rfl
    have hfresh : ∀ n ∈ keys, n ∉ key :: seen := by
      intro n hn
      rw [mem_cons, not_or]
      exact ⟨fun heq => hnodup.1 (heq ▸ hn), hseen n (mem_cons_of_mem _ hn)⟩
    obtain ⟨u', seen', hrun, hprogress, hmem⟩ := ih (h.update hkey hm htarget) hnodup.2 hfresh
      (forall_mem_cons.1 hkeys).2
    refine ⟨u', seen', ?_, hprogress, fun n => (hmem n).trans ?_⟩
    · rw [updateEachFile, hstat, updateFile_eq false u hlookup hrange sb, ok_bind]
      dsimp only
      rw [if_pos rfl, hchecks]
      exact hrun
    · rw [mem_cons, mem_cons]
      tauto

end Paths

/-! ## Runs -/

/-- The kind of a file, where there is an entry and `stat` gives it. -/
def Listing.kindOf (l : Listing) (name : Name) : Option (Option FileKind) :=
  (l.find name).map fun e => e.stat.map Stat.kind

/-- What the directory has does not change without its modification time. -/
def Settled (last dir : DirState) : Prop :=
  ∀ l l', last = .present l → dir = .present l' → l'.mtime = l.mtime → ∀ name, l'.kindOf name = l.kindOf name

/-- What the code expects of a refresh, where `last` is what the directory was at the refresh before. Without a
listing, the directory was there with this time, or has nothing to track, and the times of the files can be stored.
With one, the directory can be read or has nothing to track, and its entries are as expected. -/
def Expected (p : Patterns) (last : DirState) (t : Tracker) (dir : DirState) (forceAll : Bool) : Prop :=
  ∀ l, dir = .present l →
    if forceAll = false ∧ t.directoryMtime = l.mtime then
      ((∃ l', last = .present l' ∧ l.mtime = l'.mtime) ∨ ∀ name, wanted p dir name = none) ∧
        ∀ name m, t.files.lookup name = some m → Storable m
    else if l.readable = false then ∀ name, wanted p dir name = none
    else ∀ e ∈ l.entries, p.selects e.name = true → EntryExpected t.files e

/-- The runs from a new tracker whose refreshes all meet a condition: the tracker, and what the directory was at the
last refresh. -/
inductive Run (p : Patterns) (condition : DirState → Tracker → DirState → Bool → Prop) : Tracker → DirState → Prop
  | new : Run p condition ⟨0, ∅⟩ .missing
  | refresh {t t' last dir forceAll events} : Run p condition t last → Settled last dir →
      condition last t dir forceAll → gkmFileTrackerRefresh p dir forceAll t = .ok (t', events) →
      Run p condition t' dir

/-- Between refreshes the tracker has what the directory had. -/
structure Tracks (p : Patterns) (t : Tracker) (last : DirState) : Prop where
  files : ∀ name, t.files.lookup name = wanted p last name
  mtime : ∀ l, last = .present l → t.directoryMtime = l.mtime

section Runs

variable {p : Patterns} {last dir : DirState} {t : Tracker} {forceAll : Bool}

theorem wanted_present {l : Listing} {name : Name} {m : Int} (h : wanted p (.present l) name = some m) :
    p.selects name = true ∧ ∃ e sb, l.find name = some e ∧ e.stat = some sb ∧ sb.kind ≠ .directory ∧ sb.mtime = m := by
  rw [wanted] at h
  split at h
  · rename_i hsel
    obtain ⟨sb, hstat, hm⟩ := Option.bind_eq_some_iff.1 h
    obtain ⟨e, hfind, he⟩ := Option.bind_eq_some_iff.1 hstat
    split at hm
    · exact nomatch hm
    · rename_i hkind
      exact ⟨hsel, e, sb, hfind, he, hkind, Option.some.inj hm⟩
  · exact nomatch h

/-- Where the kind is the same, the file is to be tracked as before. -/
theorem wanted_of_kindOf {l l' : Listing} {name : Name} (h : l'.kindOf name = l.kindOf name) {m : Int}
    (hm : wanted p (.present l) name = some m) :
    ∃ sb, l'.stat name = some sb ∧ wanted p (.present l') name = some sb.mtime := by
  obtain ⟨hsel, e, sb, hfind, hstat, hkind, -⟩ := wanted_present hm
  have hkindOf : l'.kindOf name = some (some sb.kind) := by
    rw [h, Listing.kindOf, hfind, Option.map_some, hstat]
    rfl
  rw [Listing.kindOf] at hkindOf
  obtain ⟨e', hfind', he'⟩ := Option.map_eq_some_iff.1 hkindOf
  obtain ⟨sb', hstat', hkind'⟩ := Option.map_eq_some_iff.1 he'
  have hstatOf : l'.stat name = some sb' := by rw [Listing.stat, hfind', Option.bind_some, hstat']
  refine ⟨sb', hstatOf, ?_⟩
  rw [wanted, if_pos hsel, hstatOf]
  exact if_neg (hkind' ▸ hkind)

/-- A refresh that changes what the progress says. -/
theorem refresh_of_progress {r : Int × Update} {seen : List Name}
    (hrun : updateDirectory p dir forceAll t.directoryMtime ⟨t.files, t.files.keys, []⟩ = .ok r)
    (h : Progress forceAll (wanted p dir) t.files seen r.2)
    (hseen : ∀ name, name ∉ seen → wanted p dir name = none)
    (htarget : ∀ name ∈ seen, name ∈ t.files → (wanted p dir name).isSome) : RefreshRight p t dir forceAll := by
  refine ⟨⟨r.1, (removeFiles r.2.checks r.2).files⟩, _, ?_, h.exact hseen htarget⟩
  rw [gkmFileTrackerRefresh, hrun]
  rfl

/-- Without a listing. -/
theorem refresh_without_listing {l : Listing} (htracks : Tracks p t last) (hsettled : Settled last (.present l))
    (hmtime : t.directoryMtime = l.mtime)
    (hfound : (∃ l', last = .present l' ∧ l.mtime = l'.mtime) ∨ ∀ name, wanted p (.present l) name = none)
    (hstorable : ∀ name m, t.files.lookup name = some m → Storable m) : RefreshRight p t (.present l) false := by
  -- a file is tracked exactly if it is to be tracked
  have hsame : ∀ name m, t.files.lookup name = some m →
      ∃ sb, l.stat name = some sb ∧ wanted p (.present l) name = some sb.mtime := by
    intro name m hm
    rw [htracks.files] at hm
    cases hlast : last with
    | missing =>
      rw [hlast] at hm
      exact nomatch hm
    | present l' =>
      have hl' : l.mtime = l'.mtime := hmtime.symm.trans (htracks.mtime l' hlast)
      rw [hlast] at hm
      exact wanted_of_kindOf (hsettled l' l hlast rfl hl' name) hm
  have hwanted : ∀ name, name ∉ t.files → wanted p (.present l) name = none := by
    intro name hname
    rcases hfound with ⟨l', hlast, hl'⟩ | hnone
    · rw [← AList.lookup_eq_none, htracks.files, hlast] at hname
      cases hm : wanted p (.present l) name with
      | none => rfl
      | some m =>
        obtain ⟨sb, -, hsb⟩ := wanted_of_kindOf (hsettled l' l hlast rfl hl' name).symm hm
        rw [hname] at hsb
        exact nomatch hsb
    · exact hnone name
  have hkeys : ∀ n ∈ t.files.keys, ∃ m sb, t.files.lookup n = some m ∧ Storable m ∧ l.stat n = some sb ∧
      wanted p (.present l) n = some sb.mtime := by
    intro n hn
    obtain ⟨m, hm⟩ := Option.isSome_iff_exists.1 (AList.lookup_isSome.2 (AList.mem_keys.2 hn))
    obtain ⟨sb, hstat, hsb⟩ := hsame n m hm
    exact ⟨m, sb, hm, hstorable n m hm, hstat, hsb⟩
  obtain ⟨u, seen, hrun, hprogress, hmem⟩ := updateEachFile_progress t.files.keys progress_start t.files.keys_nodup
    (fun _ _ => not_mem_nil) hkeys
  have hseen : ∀ n, n ∈ seen ↔ n ∈ t.files := fun n =>
    (hmem n).trans ((or_iff_right not_mem_nil).trans AList.mem_keys.symm)
  refine refresh_of_progress (r := (t.directoryMtime, u)) ?_ hprogress
    (fun n hn => hwanted n fun hmemOld => hn ((hseen n).2 hmemOld)) fun n _ hn => ?_
  · rw [updateDirectory, if_pos ⟨rfl, hmtime⟩, hrun]
    rfl
  · obtain ⟨m, sb, -, -, -, hsb⟩ := hkeys n (AList.mem_keys.1 hn)
    rw [hsb]
    rfl

/-- With a listing. -/
theorem refresh_with_listing {l : Listing} (hpath : ¬ (forceAll = false ∧ t.directoryMtime = l.mtime))
    (hreadable : l.readable = true) (hentries : ∀ e ∈ l.entries, p.selects e.name = true → EntryExpected t.files e) :
    RefreshRight p t (.present l) forceAll := by
  obtain ⟨u, seen, hrun, hprogress, hmem⟩ := updateEntries_progress l.entries progress_start l.nodup
    (fun _ _ => not_mem_nil) (fun _ he => he) hentries
  have hseen : ∀ n, n ∈ seen ↔ ∃ e ∈ l.entries, p.selects e.name = true ∧ e.name = n := fun n =>
    (hmem n).trans (or_iff_right not_mem_nil)
  refine refresh_of_progress (r := (l.mtime, u)) ?_ hprogress (fun n hn => ?_) fun n hn hold => ?_
  · rw [updateDirectory, if_neg hpath, hreadable, if_neg (show ¬ true = false by decide), hrun]
    rfl
  · cases hm : wanted p (.present l) n with
    | none => rfl
    | some m =>
      obtain ⟨hsel, e, sb, hfind, -⟩ := wanted_present hm
      have hbeq : (e.name == n) = true := find?_some (p := fun e : Entry => e.name == n) hfind
      have hname : e.name = n := beq_iff_eq.1 hbeq
      exact absurd ((hseen n).2 ⟨e, mem_of_find?_eq_some hfind, hname ▸ hsel, hname⟩) hn
  · obtain ⟨e, he, hsel, rfl⟩ := (hseen n).1 hn
    obtain ⟨m, hm⟩ := Option.isSome_iff_exists.1 (AList.lookup_isSome.2 hold)
    obtain ⟨-, sb, hstat, hkind⟩ := (hentries e he hsel).tracked m hm
    rw [wanted_entry he hsel, hstat, Option.bind_some, if_neg hkind]
    rfl

/-- A refresh is right if it is one that is expected. -/
theorem refresh_right (htracks : Tracks p t last) (hsettled : Settled last dir)
    (hexpected : Expected p last t dir forceAll) : RefreshRight p t dir forceAll := by
  cases dir with
  | missing =>
    exact refresh_of_progress (r := (t.directoryMtime, _)) rfl progress_start (fun _ _ => rfl)
      fun _ hn => absurd hn not_mem_nil
  | present l =>
    have h := hexpected l rfl
    split at h
    · rename_i hpath
      obtain ⟨rfl, hmtime⟩ := hpath
      exact refresh_without_listing htracks hsettled hmtime h.1 h.2
    · rename_i hpath
      split at h
      · rename_i hreadable
        refine refresh_of_progress (r := (l.mtime, _)) ?_ progress_start (fun n _ => h n)
          fun _ hn => absurd hn not_mem_nil
        rw [updateDirectory, if_neg hpath, if_pos hreadable]
      · rename_i hreadable
        exact refresh_with_listing hpath (Bool.eq_true_of_not_eq_false hreadable) h

/-- The time of the directory is recorded where it is there. -/
theorem updateDirectory_mtime {l : Listing} {mtime : Int} {u : Update} {r : Int × Update}
    (h : updateDirectory p (.present l) forceAll mtime u = .ok r) : r.1 = l.mtime := by
  rw [updateDirectory] at h
  split at h
  · rename_i hpath
    obtain ⟨u', -, h⟩ := bind_eq_ok.1 h
    cases h
    exact hpath.2
  · split at h
    · cases h
      rfl
    · obtain ⟨u', -, h⟩ := bind_eq_ok.1 h
      cases h
      rfl

/-- A run of expected refreshes tracks the directory. -/
theorem Run.tracks (h : Run p (Expected p) t last) : Tracks p t last := by
  induction h with
  | new => exact ⟨fun _ => rfl, fun _ h => nomatch h⟩
  | @refresh t t' last dir forceAll events hrun hsettled hexpected hrefresh ih =>
    obtain ⟨t'', events', hrefresh', hexact⟩ := refresh_right ih hsettled hexpected
    rw [hrefresh] at hrefresh'
    cases hrefresh'
    refine ⟨hexact.tracked, ?_⟩
    rintro l rfl
    rw [gkmFileTrackerRefresh] at hrefresh
    obtain ⟨r, hupdate, hrefresh⟩ := bind_eq_ok.1 hrefresh
    cases hrefresh
    exact updateDirectory_mtime hupdate

end Runs

/-- In a run whose refreshes are all expected, every refresh that is expected is right. -/
theorem tracking_right (p : Patterns) {t : Tracker} {last dir : DirState} {forceAll : Bool}
    (hrun : Run p (Expected p) t last) (hsettled : Settled last dir) (hexpected : Expected p last t dir forceAll) :
    RefreshRight p t dir forceAll := refresh_right hrun.tracks hsettled hexpected

/-- No patterns. -/
def anyName : Patterns := ⟨none, none⟩

/-- A directory with one file, at a time. -/
def oneFile (mtime : Int) : Listing where
  mtime := 5
  readable := true
  entries := [⟨[0x61], some ⟨.regular, mtime⟩⟩]
  nodup := nodup_singleton _

/-- The file was found at one refresh, and is written before the next. -/
theorem tracking_right_sample :
    RefreshRight anyName ⟨5, AList.insert [0x61] 7 ∅⟩ (.present (oneFile 9)) false := by
  have hfirst : gkmFileTrackerRefresh anyName (.present (oneFile 7)) false ⟨0, ∅⟩ =
      .ok (⟨5, AList.insert [0x61] 7 ∅⟩, [.added [0x61]]) := by rfl
  have hexpected : Expected anyName .missing ⟨0, ∅⟩ (.present (oneFile 7)) false := by
    rintro l hl
    cases hl
    rw [if_neg (by decide), if_neg (by decide)]
    rintro e he -
    obtain rfl := mem_singleton.1 he
    refine ⟨fun m hm => (nomatch hm), fun _ sb hsb => ?_⟩
    cases hsb
    decide
  have hsettled : Settled (.present (oneFile 7)) (.present (oneFile 9)) := by
    rintro l l' hl hl' - name
    cases hl
    cases hl'
    simp only [Listing.kindOf, Listing.find, oneFile, find?_cons]
    cases ([0x61] : Name) == name with
    | true => rfl
    | false => rfl
  refine tracking_right anyName (.refresh .new (fun _ _ h => nomatch h) hexpected hfirst) hsettled ?_
  rintro l hl
  cases hl
  rw [if_pos ⟨rfl, rfl⟩]
  refine ⟨.inl ⟨oneFile 7, rfl, rfl⟩, fun name m hm => ?_⟩
  by_cases heq : name = [0x61]
  · rw [heq, AList.lookup_insert] at hm
    cases hm
    decide
  · rw [AList.lookup_insert_ne heq] at hm
    cases hm

/-- A file of the year 1970 is found, and at the next refresh an assertion fails. -/
theorem epoch_file_asserts :
    ¬ ∀ (t : Tracker) (last dir : DirState) (forceAll : Bool), Run anyName (fun _ _ _ _ => True) t last →
      Settled last dir → RefreshRight anyName t dir forceAll := by
  intro h
  have hfirst : gkmFileTrackerRefresh anyName (.present (oneFile 0)) false ⟨0, ∅⟩ =
      .ok (⟨5, AList.insert [0x61] 0 ∅⟩, [.added [0x61]]) := by rfl
  have hrun : Run anyName (fun _ _ _ _ => True) ⟨5, AList.insert [0x61] 0 ∅⟩ (.present (oneFile 0)) :=
    .refresh .new (fun _ _ h => nomatch h) trivial hfirst
  have hsame : Settled (.present (oneFile 0)) (.present (oneFile 0)) := by
    rintro l l' hl hl' - name
    cases hl
    cases hl'
    rfl
  obtain ⟨t', events, hsecond, -⟩ := h _ _ (.present (oneFile 0)) false hrun hsame
  have hfault : gkmFileTrackerRefresh anyName (.present (oneFile 0)) false ⟨5, AList.insert [0x61] 0 ∅⟩ =
      .error .assertion := by rfl
  rw [hfault] at hsecond
  exact nomatch hsecond

end MateKeyring.Gkm.FileTracker
