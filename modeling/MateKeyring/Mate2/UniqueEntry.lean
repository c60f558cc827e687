import MateKeyring.Lib.CStrings
import MateKeyring.Mate2.File

/-!
# A name for a new entry

`gkm_mate2_file_unique_entry`: the name that is proposed is kept when it is free. Otherwise a number is put
between the name and its extension. The loop is written to go on to the next number, but its test for
giving up holds for the first million of them, so that it gives up at the first name that is taken.
-/

set_option autoImplicit false

namespace MateKeyring.Mate2

open Lib Egg List

/-! ## Names -/

/-- A name and its extension, if there is one. -/
structure SplitName where
  base : Identifier
  ext : Option Identifier

/-- The parts of a name around its last dot, as `strrchr` finds it. -/
def splitName (name : Identifier) : SplitName :=
  match h : strrchr 0x2e name.val with
  | none => ⟨name, none⟩
  | some (base, ext) =>
    ⟨⟨base, fun hz => name.property (mem_of_strrchr h (.inl hz))⟩,
      some ⟨ext, fun hz => name.property (mem_of_strrchr h (.inr hz))⟩⟩

/-- `%d` of an `unsigned int`. -/
def formatInt (n : UInt32) : Bytes :=
  if n.toNat < 2 ^ 31 then decimal n.toNat else 0x2d :: decimal (2 ^ 32 - n.toNat)

theorem zero_not_mem_formatInt (n : UInt32) : (0 : UInt8) ∉ formatInt n := by
  rw [formatInt]
  split
  · exact zero_not_mem_decimal _
  · rw [mem_cons, not_or]
    exact ⟨by decide, zero_not_mem_decimal _⟩

/-- `"%s-%d%s%s"` -/
def numbered (name : SplitName) (seed : UInt32) : Identifier :=
  ⟨name.base.val ++ 0x2d :: formatInt seed ++ (name.ext.map fun ext => 0x2e :: ext.val).getD [], by
    have hext : (0 : UInt8) ∉ (name.ext.map fun ext => 0x2e :: ext.val).getD [] := by
      cases name.ext with
      | none => exact not_mem_nil
      | some ext =>
        rw [Option.map_some, Option.getD_some, mem_cons, not_or]
        exact ⟨by decide, ext.property⟩
    rw [mem_append, mem_append, mem_cons, not_or, not_or, not_or]
    exact ⟨⟨name.base.property, by decide, zero_not_mem_formatInt seed⟩, hext⟩⟩

/-- `"object-%08x"`; `ABS` of a number without a sign is the number. -/
def randomName (random : UInt32) : Identifier :=
  ⟨ascii "object-" ++ (eggBufferEncodeUint32 random.toNat).flatMap hex02, by
    rw [mem_append, mem_flatMap, not_or]
    refine ⟨by decide, ?_⟩
    rintro ⟨b, -, hb⟩
    exact absurd (isXdigit_of_mem_hex02 hb) (by decide)⟩

/-! ## The search -/

/-- The loop of `gkm_mate2_file_unique_entry`; `none` is that it is still running. -/
def uniqueLoop (self : GkmMate2File) (name : SplitName) : Nat → UInt32 → Option (GkmDataResult × Identifier)
  | 0, _ => none
  | fuel + 1, seed =>
    if gkmMate2FileLookupEntry self (numbered name seed) = none then some (.success, numbered name seed)
    -- the test is the wrong way round: there are few tries so far
    else if seed < 1000000 then some (.failure, numbered name seed)
    else uniqueLoop self name fuel (seed + 1)

/-- `gkm_mate2_file_unique_entry`, where `random` is what `g_random_int` gives. -/
def gkmMate2FileUniqueEntry (fuel : Nat) (self : GkmMate2File) (identifier : Option Identifier)
    (random : UInt32) : Option (GkmDataResult × Identifier) :=
  match identifier with
  | none => uniqueLoop self (splitName (randomName random)) fuel 0
  | some identifier =>
    if gkmMate2FileLookupEntry self identifier = none then some (.success, identifier)
    else uniqueLoop self (splitName identifier) fuel 0

/-! ## What it finds -/

/-- No entry has the identifier. -/
def Unused (self : GkmMate2File) (identifier : Identifier) : Prop :=
  gkmMate2FileLookupEntry self identifier = none

instance (self : GkmMate2File) (identifier : Identifier) : Decidable (Unused self identifier) :=
  inferInstanceAs (Decidable (gkmMate2FileLookupEntry self identifier = none))

/-- The name that is numbered. -/
def startName (identifier : Option Identifier) (random : UInt32) : SplitName :=
  splitName (identifier.getD (randomName random))

/-- One of the first million numbers gives a name that is free. -/
def SomeUnused (self : GkmMate2File) (name : SplitName) : Prop :=
  ∃ k : UInt32, k < 1000000 ∧ Unused self (numbered name k)

/-- The result `r` is right: a free name is kept, else a free name of the form `base-k.ext` is found if there
is one among the first million, and the search fails only if there is none. -/
structure UniqueRight (f : GkmMate2File) (identifier : Option Identifier) (random : UInt32)
    (r : GkmDataResult × Identifier) : Prop where
  kept : ∀ name ∈ identifier, Unused f name → r = (.success, name)
  found : (∀ name ∈ identifier, ¬ Unused f name) → SomeUnused f (startName identifier random) →
    r.1 = .success ∧ Unused f r.2 ∧ ∃ k, r.2 = numbered (startName identifier random) k
  failed : r.1 ≠ .success → ¬ SomeUnused f (startName identifier random)

/-- The first name that is tried is free, or there is no free name to be found. -/
def FirstDecides (self : GkmMate2File) (identifier : Option Identifier) (random : UInt32) : Prop :=
  (∃ name ∈ identifier, Unused self name) ∨ Unused self (numbered (startName identifier random) 0) ∨
    ¬ SomeUnused self (startName identifier random)

section Search

variable {self : GkmMate2File} {name : SplitName}

/-- A name that is free is taken in the first round. -/
theorem uniqueLoop_free (fuel : Nat) {seed : UInt32} (h : Unused self (numbered name seed)) :
    uniqueLoop self name (fuel + 1) seed = some (.success, numbered name seed) :=
  if_pos h

/-- A name that is taken ends the search at once. -/
theorem uniqueLoop_taken (fuel : Nat) {seed : UInt32} (hseed : seed < 1000000)
    (h : ¬ Unused self (numbered name seed)) :
    uniqueLoop self name (fuel + 1) seed = some (.failure, numbered name seed) := by
  have htaken : gkmMate2FileLookupEntry self (numbered name seed) ≠ none := h
  rw [uniqueLoop, if_neg htaken, if_pos hseed]

variable {identifier : Option Identifier} {random : UInt32}

/-- A name that is proposed and free is the result. -/
theorem uniqueEntry_kept (fuel : Nat) {name : Identifier} (h : Unused self name) :
    gkmMate2FileUniqueEntry fuel self (some name) random = some (.success, name) :=
  if_pos h

/-- Otherwise the loop runs from zero on. -/
theorem uniqueEntry_loop (fuel : Nat) (h : ∀ name ∈ identifier, ¬ Unused self name) :
    gkmMate2FileUniqueEntry fuel self identifier random =
      uniqueLoop self (startName identifier random) fuel 0 := by
  cases identifier with
  | none => rfl
  | some name => exact if_neg (h name rfl)

/-- Where the first name decides, the result is right. -/
theorem uniqueEntry_right (fuel : Nat) (h : FirstDecides self identifier random) :
    ∃ r, gkmMate2FileUniqueEntry (fuel + 1) self identifier random = some r ∧
      UniqueRight self identifier random r := by
  by_cases hproposed : ∃ name ∈ identifier, Unused self name
  · obtain ⟨name, hname, hfree⟩ := hproposed
    obtain rfl : identifier = some name := hname
    refine ⟨_, uniqueEntry_kept (fuel + 1) hfree, ?_, ?_, ?_⟩
    · rintro other hother -
      rw [Option.some.inj hother]
    · exact fun htaken => absurd hfree (htaken name rfl)
    · exact fun hfailed => absurd rfl hfailed
  · have htaken : ∀ name ∈ identifier, ¬ Unused self name := fun name hname hfree =>
      hproposed ⟨name, hname, hfree⟩
    rw [uniqueEntry_loop (fuel + 1) htaken]
    rcases h with hproposed' | hfree | hnone
    · exact absurd hproposed' hproposed
    · refine ⟨_, uniqueLoop_free fuel hfree, ?_, ?_, ?_⟩
      · exact fun name hname hfree => absurd hfree (htaken name hname)
      · exact fun _ _ => ⟨rfl, hfree, 0, rfl⟩
      · exact fun hfailed => absurd rfl hfailed
    · have hzero : ¬ Unused self (numbered (startName identifier random) 0) := fun hfree =>
        hnone ⟨0, by decide, hfree⟩
      refine ⟨_, uniqueLoop_taken fuel (by decide) hzero, ?_, ?_, ?_⟩
      · exact fun name hname hfree => absurd hfree (htaken name hname)
      · exact fun _ hsome => absurd hsome hnone
      · exact fun _ => hnone

/-- Where it does not, the search fails although there is a free name. -/
theorem uniqueEntry_gives_up (fuel : Nat) (h : ¬ FirstDecides self identifier random) :
    gkmMate2FileUniqueEntry (fuel + 1) self identifier random =
        some (.failure, numbered (startName identifier random) 0) ∧
      SomeUnused self (startName identifier random) := by
  rw [FirstDecides, not_or, not_or, not_not] at h
  obtain ⟨hproposed, hzero, hsome⟩ := h
  have htaken : ∀ name ∈ identifier, ¬ Unused self name := fun name hname hfree =>
    hproposed ⟨name, hname, hfree⟩
  rw [uniqueEntry_loop (fuel + 1) htaken]
  exact ⟨uniqueLoop_taken fuel (by decide) hzero, hsome⟩

end Search

/-- `gkm_mate2_file_unique_entry` gives a right result exactly if the first name that it tries is free or no
name is. -/
theorem unique_entry_right_iff (fuel : Nat) (self : GkmMate2File) (identifier : Option Identifier)
    (random : UInt32) :
    (∃ r, gkmMate2FileUniqueEntry (fuel + 1) self identifier random = some r ∧
        UniqueRight self identifier random r) ↔
      FirstDecides self identifier random := by
  refine ⟨?_, uniqueEntry_right fuel⟩
  rintro ⟨r, hrun, hright⟩
  by_contra hlater
  obtain ⟨hfailed, hsome⟩ := uniqueEntry_gives_up fuel hlater
  obtain rfl := Option.some.inj (hfailed.symm.trans hrun)
  exact hright.failed (fun h => nomatch h) hsome

/-- `a.cer` -/
def takenName : Identifier := ⟨ascii "a.cer", by decide⟩

/-- A file with the entries `a.cer` and `a-0.cer`. -/
def twoNames : GkmMate2File :=
  { gkmMate2FileNew with
    identifiers := ((∅ : Identifiers).insert takenName sectionPublic).insert
      (numbered (splitName takenName) 0) sectionPublic }

/-- `a-1.cer` is free, but it is not tried. -/
theorem second_name_not_tried :
    gkmMate2FileUniqueEntry 5 twoNames (some takenName) 0 = some (.failure, ⟨ascii "a-0.cer", by decide⟩) ∧
      gkmMate2FileLookupEntry twoNames ⟨ascii "a-1.cer", by decide⟩ = none ∧
      ¬ ∃ r, gkmMate2FileUniqueEntry 5 twoNames (some takenName) 0 = some r ∧
        UniqueRight twoNames (some takenName) 0 r := by
  have hrun : gkmMate2FileUniqueEntry 5 twoNames (some takenName) 0 =
      some (.failure, ⟨ascii "a-0.cer", by decide⟩) := by decide +kernel
  have hfree : gkmMate2FileLookupEntry twoNames ⟨ascii "a-1.cer", by decide⟩ = none := by decide +kernel
  refine ⟨hrun, hfree, ?_⟩
  rintro ⟨r, hrun', hright⟩
  obtain rfl := Option.some.inj (hrun.symm.trans hrun')
  have hname : numbered (startName (some takenName) 0) 1 = ⟨ascii "a-1.cer", by decide⟩ := by decide +kernel
  exact hright.failed (by decide) ⟨1, by decide, by rw [hname]; exact hfree⟩

end MateKeyring.Mate2
