import MateKeyring.Mate2.Blocks

/-!
# The tables of a keystore agree

A `GkmMate2File` has one table of identifiers with their sections and a table of entries for each
section. They agree (`Consistent`) when the entries of a section are those of the identifiers listed
for it; where they do not, a later read or `gkm_mate2_file_destroy_entry` runs into one of its
`g_return_if_reached`. The operations keep the tables in agreement under conditions that they do not
check (`Op.Keeps`): `gkm_mate2_file_create_entry` looks into one table only, and a read takes over
what an index lists before it knows that there are entries for it.
-/

set_option autoImplicit false

namespace MateKeyring.Mate2

open List

open Lib Egg

variable {id : Identifier} {sect : UInt32} {res : GkmDataResult} {entries : Entries}

variable {f : GkmMate2File}

/-! ## Agreement -/

/-- The entries of each section are those of the identifiers that are listed for it. -/
structure GkmMate2File.Consistent (f : GkmMate2File) : Prop where
  publics : ∀ id, id ∈ f.publics ↔ f.identifiers.lookup id = some sectionPublic
  privates : ∀ t, f.privates = some t → ∀ id, id ∈ t ↔ f.identifiers.lookup id = some sectionPrivate

/-- Identifiers are listed for one of the two sections. -/
def GkmMate2File.Sectioned (f : GkmMate2File) : Prop :=
  ∀ id sect, f.identifiers.lookup id = some sect → sect = sectionPublic ∨ sect = sectionPrivate

/-- Whether the entry of a listed identifier is missing from the table of its section: what
`identifier_to_attributes`, `gkm_mate2_file_destroy_entry` and `remove_each_identifier` take for
impossible. -/
def entryMissing (self : GkmMate2File) (identifier : Identifier) : Bool :=
  match self.identifiers.lookup identifier with
  | none => false
  | some sect =>
    match sectionEntries self sect with
    | none => false
    | some entries => (entries.lookup identifier).isNone

/-- Whether `remove_each_identifier` reaches an assertion for one of the keys. -/
def removeReaches : List Identifier → GkmMate2File → Bool
  | [], _ => false
  | key :: keys, self =>
    entryMissing self key ||
      match removeEachIdentifier self key with
      | .ok self => removeReaches keys self
      | .error _ => true

/-- Whether a read reaches one when it removes the identifiers it did not see. -/
def readReaches (g : Gcrypt) (self : GkmMate2File) (file : Bytes) (login : Option GkmSecret) :
    Bool :=
  match parseFileBlocks (updateFromAnyBlock g login) file (startRead self) with
  | .ok (.success, st) => removeReaches st.checks.keys { st.self with incomplete := false }
  | _ => false

/-- In tables that agree no entry is missing. -/
theorem entryMissing_eq_false (h : f.Consistent) (hs : f.Sectioned)
    (id : Identifier) : entryMissing f id = false := by
  rw [entryMissing]
  cases hlook : f.identifiers.lookup id with
  | none => rfl
  | some sect =>
    dsimp only
    rcases hs id sect hlook with rfl | rfl
    · have hmem := (h.publics id).2 hlook
      rw [sectionEntries, if_neg (by decide)]
      simpa [← AList.lookup_isSome] using hmem
    · rw [sectionEntries, if_pos rfl]
      cases ht : f.privates with
      | none => rfl
      | some t =>
        have hmem := (h.privates t ht id).2 hlook
        simpa [← AList.lookup_isSome] using hmem

/-! ## The operations on one file -/

/-- The operations on a `GkmMate2File` that change it. -/
inductive Op where
  | read (file : Bytes) (login : Option GkmSecret)
  | create (identifier : Identifier) (sect : UInt32)
  | destroy (identifier : Identifier)
  | write (identifier : Identifier) (type : UInt64) (value : Bytes)

/-- An operation: its result and the file after it. -/
def Op.run (g : Gcrypt) : Op → GkmMate2File → Checked (GkmDataResult × GkmMate2File)
  | .read file login, self => gkmMate2FileReadFd g self file login
  | .create identifier sect, self => .ok (gkmMate2FileCreateEntry self identifier sect)
  | .destroy identifier, self => .ok (gkmMate2FileDestroyEntry self identifier)
  | .write identifier type value, self => .ok (gkmMate2FileWriteValue self identifier type value)

/-- The file, read by itself, is complete: it is accepted, each identifier is listed for one of the
two sections, and there is an entry for it in that section (unless the private entries stay
encrypted). -/
structure CompleteFile (g : Gcrypt) (file : Bytes) (login : Option GkmSecret) : Prop where
  accepted : ∃ r, gkmMate2FileReadFd g gkmMate2FileNew file login = .ok (.success, r)
  sections : ∀ id sect, (id, sect) ∈ listings file → sect = sectionPublic ∨ sect = sectionPrivate
  unique : ∀ id sect sect', (id, sect) ∈ listings file → (id, sect') ∈ listings file → sect = sect'
  publics : ∀ id, (id, sectionPublic) ∈ listings file → id ∈ publicNames g file
  privates : ∀ id, (id, sectionPrivate) ∈ listings file →
    id ∈ privateNames g login file ∨
      (login = none ∧ ∃ block ∈ (fileBlocks file).1, block.type = fileBlockPrivate)

/-- The file does not move an identifier to another section. -/
def Unmoved (f : GkmMate2File) (file : Bytes) : Prop :=
  ∀ id sect sect', f.identifiers.lookup id = some sect → (id, sect') ∈ listings file → sect = sect'

/-- A complete file, and where it unlocks the store, none of the private identifiers is gone. -/
structure Refreshes (g : Gcrypt) (f : GkmMate2File) (file : Bytes) (login : Option GkmSecret) :
    Prop where
  complete : CompleteFile g file login
  unmoved : Unmoved f file
  unlocks : f.privates = none → (∃ block ∈ (fileBlocks file).1, (openPrivate g login block).isSome) →
    ∀ id, f.identifiers.lookup id = some sectionPrivate → ∃ sect, (id, sect) ∈ listings file

/-- A file, possibly a broken one, that lists nothing new and does not unlock the store. -/
structure AddsNothing (g : Gcrypt) (f : GkmMate2File) (file : Bytes)
    (login : Option GkmSecret) : Prop where
  listed : ∀ id sect, (id, sect) ∈ listings file → f.identifiers.lookup id = some sect
  locked : f.privates = none → ∀ block ∈ (fileBlocks file).1, openPrivate g login block = none
  privates : f.privates = none →
    (∃ block ∈ (fileBlocks file).1, block.type = fileBlockPrivate) ∨
      ∀ id, (id, sectionPrivate) ∉ listings file

/-- The condition under which an operation keeps the tables in agreement. -/
def Op.Keeps (g : Gcrypt) : Op → GkmMate2File → Prop
  | .read file login, f => Refreshes g f file login ∨ AddsNothing g f file login
  | .create identifier sect, f =>
    (sect = sectionPublic ∧ ∀ t, f.privates = some t → identifier ∉ t) ∨
      (sect = sectionPrivate ∧ identifier ∉ f.publics)
  | .destroy _, _ => True
  | .write _ _ _, _ => True

/-! ## Entries -/

theorem create_consistent (h : f.Consistent) (hs : f.Sectioned) {g : Gcrypt}
    (hkeeps : (Op.create id sect).Keeps g f) :
    (gkmMate2FileCreateEntry f id sect).2.Consistent ∧
      (gkmMate2FileCreateEntry f id sect).2.Sectioned := by
  have hsect : sect = sectionPublic ∨ sect = sectionPrivate := by
    rcases hkeeps with ⟨hsect, -⟩ | ⟨hsect, -⟩
    · exact .inl hsect
    · exact .inr hsect
  have hsectioned : ∀ other sect', (f.identifiers.insert id sect).lookup other = some sect' →
      sect' = sectionPublic ∨ sect' = sectionPrivate := by
    intro other sect' hlook
    by_cases heq : other = id
    · rw [heq, AList.lookup_insert] at hlook
      cases hlook
      exact hsect
    · rw [AList.lookup_insert_ne heq] at hlook
      exact hs other sect' hlook
  rw [gkmMate2FileCreateEntry]
  split
  · exact ⟨h, hs⟩
  · rename_i entries hentries
    split
    · exact ⟨h, hs⟩
    · rcases hkeeps with ⟨rfl, hnot⟩ | ⟨rfl, hnot⟩
      · rw [sectionEntries, if_neg (by decide)] at hentries
        cases hentries
        rw [setSectionEntries, if_neg (by decide)]
        refine ⟨⟨?_, ?_⟩, hsectioned⟩
        · intro other
          rw [AList.mem_insert]
          by_cases heq : other = id
          · rw [heq, AList.lookup_insert]
            simp
          · rw [AList.lookup_insert_ne heq, ← h.publics other]
            simp [heq]
        · intro t ht other
          by_cases heq : other = id
          · rw [heq, AList.lookup_insert]
            exact ⟨fun hmem => absurd hmem (hnot t ht), fun hcontra => by cases hcontra⟩
          · rw [AList.lookup_insert_ne heq]
            exact h.privates t ht other
      · rw [sectionEntries, if_pos rfl] at hentries
        rw [setSectionEntries, if_pos rfl]
        refine ⟨⟨?_, ?_⟩, hsectioned⟩
        · intro other
          by_cases heq : other = id
          · rw [heq, AList.lookup_insert]
            exact ⟨fun hmem => absurd hmem hnot, fun hcontra => by cases hcontra⟩
          · rw [AList.lookup_insert_ne heq]
            exact h.publics other
        · intro t ht other
          cases ht
          rw [AList.mem_insert]
          by_cases heq : other = id
          · rw [heq, AList.lookup_insert]
            simp
          · rw [AList.lookup_insert_ne heq, ← h.privates entries hentries other]
            simp [heq]

theorem lookup_erase_of_some {identifiers : Identifiers} {id other : Identifier}
    (h : (identifiers.erase id).lookup other = some sect) :
    identifiers.lookup other = some sect := by
  rw [lookup_erase] at h
  split at h
  · cases h
  · exact h

theorem destroy_consistent (h : f.Consistent) (hs : f.Sectioned) (id : Identifier) :
    (gkmMate2FileDestroyEntry f id).2.Consistent ∧ (gkmMate2FileDestroyEntry f id).2.Sectioned := by
  have hsectioned : ∀ other sect', (f.identifiers.erase id).lookup other = some sect' →
      sect' = sectionPublic ∨ sect' = sectionPrivate :=
    fun other sect' hlook => hs other sect' (lookup_erase_of_some hlook)
  have hmissing := entryMissing_eq_false h hs id
  rw [gkmMate2FileDestroyEntry, gkmMate2FileLookupEntry]
  rw [entryMissing] at hmissing
  cases hlook : f.identifiers.lookup id with
  | none => exact ⟨h, hs⟩
  | some sect =>
    rw [hlook] at hmissing
    dsimp only at hmissing ⊢
    cases hentries : sectionEntries f sect with
    | none => exact ⟨h, hs⟩
    | some entries =>
      rw [hentries] at hmissing
      dsimp only at hmissing ⊢
      rw [hmissing, if_neg (by simp)]
      rcases hs id sect hlook with rfl | rfl
      · rw [sectionEntries, if_neg (by decide)] at hentries
        cases hentries
        rw [setSectionEntries, if_neg (by decide)]
        refine ⟨⟨?_, ?_⟩, hsectioned⟩
        · intro other
          rw [AList.mem_erase, lookup_erase, h.publics other]
          by_cases heq : other = id
          · simp [heq]
          · simp [heq]
        · intro t ht other
          rw [lookup_erase, h.privates t ht other]
          by_cases heq : other = id
          · rw [heq, hlook]
            simp [sectionPublic, sectionPrivate]
          · simp [heq]
      · rw [sectionEntries, if_pos rfl] at hentries
        rw [setSectionEntries, if_pos rfl]
        refine ⟨⟨?_, ?_⟩, hsectioned⟩
        · intro other
          rw [lookup_erase, h.publics other]
          by_cases heq : other = id
          · rw [heq, hlook]
            simp [sectionPublic, sectionPrivate]
          · simp [heq]
        · intro t ht other
          cases ht
          rw [AList.mem_erase, lookup_erase, h.privates entries hentries other]
          by_cases heq : other = id
          · simp [heq]
          · simp [heq]

/-- What `identifier_to_attributes` finds. -/
theorem identifierToAttributes_ok {attributes : Attributes}
    (h : identifierToAttributes f id = .ok (sect, entries, attributes)) :
    f.identifiers.lookup id = some sect ∧ sectionEntries f sect = some entries ∧
      entries.lookup id = some attributes := by
  rw [identifierToAttributes] at h
  cases hlook : f.identifiers.lookup id with
  | none =>
    rw [hlook] at h
    cases h
  | some sect' =>
    rw [hlook] at h
    dsimp only at h
    cases hentries : sectionEntries f sect' with
    | none =>
      rw [hentries] at h
      cases h
    | some entries' =>
      rw [hentries] at h
      dsimp only at h
      cases hattrs : entries'.lookup id with
      | none =>
        rw [hattrs] at h
        cases h
      | some attributes' =>
        rw [hattrs] at h
        cases h
        exact ⟨rfl, hentries, hattrs⟩

/-- A value is written into an entry that is there. -/
theorem mem_insert_of_lookup {attributes : Attributes} (h : entries.lookup id = some attributes)
    (attributes' : Attributes) (other : Identifier) :
    other ∈ entries.insert id attributes' ↔ other ∈ entries := by
  rw [AList.mem_insert]
  constructor
  · rintro (rfl | hmem)
    · rw [mem_iff_lookup, h]
      exact Option.some_ne_none _
    · exact hmem
  · exact .inr

theorem write_consistent (h : f.Consistent) (hs : f.Sectioned)
    (id : Identifier) (type : UInt64) (value : Bytes) :
    (gkmMate2FileWriteValue f id type value).2.Consistent ∧
      (gkmMate2FileWriteValue f id type value).2.Sectioned := by
  rw [gkmMate2FileWriteValue]
  split
  · exact ⟨h, hs⟩
  · rename_i sect entries attributes hfound
    obtain ⟨-, hentries, hattrs⟩ := identifierToAttributes_ok hfound
    rw [sectionEntries] at hentries
    dsimp only
    rw [setSectionEntries]
    split
    · rename_i hprivate
      rw [if_pos hprivate] at hentries
      refine ⟨⟨h.publics, ?_⟩, hs⟩
      intro t ht other
      cases ht
      rw [mem_insert_of_lookup hattrs]
      exact h.privates entries hentries other
    · rename_i hprivate
      rw [if_neg hprivate] at hentries
      cases hentries
      refine ⟨⟨?_, h.privates⟩, hs⟩
      intro other
      rw [mem_insert_of_lookup hattrs]
      exact h.publics other

/-! ## Removing identifiers -/

/-- Removing one identifier leaves the entries of the others where they are. -/
theorem Removed.entryMissing_eq {key id : Identifier} {f f' : GkmMate2File}
    (h : Removed [key] f f') (hne : id ≠ key) : entryMissing f' id = entryMissing f id := by
  have hids : f'.identifiers.lookup id = f.identifiers.lookup id := by
    rw [h.identifiers, if_neg (by simpa using hne)]
  have hpublics : f'.publics.lookup id = f.publics.lookup id := by
    rw [h.publics, if_neg (by simp [hne])]
  have hprivates : (f'.privates.getD ∅).lookup id = (f.privates.getD ∅).lookup id := by
    rw [h.privates, if_neg (by simp [hne])]
  rw [entryMissing, entryMissing, hids]
  cases f.identifiers.lookup id with
  | none => rfl
  | some sect =>
    dsimp only
    rw [sectionEntries, sectionEntries]
    by_cases hsect : sect = sectionPrivate
    · rw [if_pos hsect, if_pos hsect]
      cases hf : f.privates with
      | none => rw [h.locked.2 hf]
      | some t =>
        cases hf' : f'.privates with
        | none =>
          rw [h.locked.1 hf'] at hf
          cases hf
        | some t' =>
          rw [hf, hf'] at hprivates
          exact congrArg Option.isNone hprivates
    · rw [if_neg hsect, if_neg hsect]
      exact congrArg Option.isNone hpublics

theorem removeReaches_eq_false {keys : List Identifier} (hnodup : keys.Nodup)
    (hin : ∀ id ∈ keys, f.identifiers.lookup id ≠ none)
    (hmissing : ∀ id ∈ keys, entryMissing f id = false) : removeReaches keys f = false := by
  induction keys generalizing f with
  | nil => rfl
  | cons key keys ih =>
    obtain ⟨hnot, hnodup⟩ := nodup_cons.1 hnodup
    obtain ⟨mid, hmid, hremoved⟩ := removeEachIdentifier_ok (hin key mem_cons_self)
    have hne : ∀ id ∈ keys, id ≠ key := by
      rintro id hid rfl
      exact hnot hid
    rw [removeReaches, hmissing key mem_cons_self, hmid, Bool.false_or]
    apply ih hnodup
    · intro id hid
      rw [hremoved.identifiers, if_neg (by simpa using hne id hid)]
      exact hin id (mem_cons_of_mem _ hid)
    · intro id hid
      rw [hremoved.entryMissing_eq (hne id hid)]
      exact hmissing id (mem_cons_of_mem _ hid)

theorem entryMissing_of_mem (hlook : f.identifiers.lookup id = some sect)
    (hmem : ∀ entries, sectionEntries f sect = some entries → id ∈ entries) :
    entryMissing f id = false := by
  rw [entryMissing, hlook]
  dsimp only
  cases hentries : sectionEntries f sect with
  | none => rfl
  | some entries => simpa [← AList.lookup_isSome] using hmem entries hentries

/-! ## Reading a complete file -/

section Complete

variable {g : Gcrypt} {f : GkmMate2File} {file : Bytes} {login : Option GkmSecret}

/-- A complete file gives a new `GkmMate2File` tables that agree. -/
theorem CompleteFile.consistent (h : CompleteFile g file login) {fresh : Reading}
    (hparse : parseFileBlocks (updateFromAnyBlock g login) file (startRead gkmMate2FileNew) =
      .ok (.success, fresh)) : fresh.self.Consistent := by
  have hread := parseFileBlocks_read hparse
  have hfinal : ∀ id sect, (id, sect) ∈ listings file →
      fresh.self.identifiers.lookup id = some sect := by
    intro id sect hmem
    obtain ⟨sect', hlook⟩ := Option.ne_none_iff_exists'.1 (hread.listedAll id sect hmem)
    rcases hread.listed id sect' hlook with hold | hmem'
    · cases hold
    · rw [hlook, h.unique id sect sect' hmem hmem']
  have hlisted : ∀ id sect, fresh.self.identifiers.lookup id = some sect →
      (id, sect) ∈ listings file := by
    intro id sect hlook
    rcases hread.listed id sect hlook with hold | hmem
    · cases hold
    · exact hmem
  constructor
  · intro id
    constructor
    · intro hmem
      rcases hread.publics id hmem with hold | hold | hmem
      · cases hold
      · cases hold
      · exact hfinal id _ hmem
    · intro hlook
      obtain ⟨block, hblock, hid⟩ := mem_flatMap.1 (h.publics id (hlisted id _ hlook))
      split at hid
      · rename_i htype
        exact hread.publicsAll block hblock htype id hid
      · cases hid
  · intro t ht id
    constructor
    · intro hmem
      rcases hread.privates t ht id hmem with ⟨t₀, ht₀, hold⟩ | hold | hmem
      · cases ht₀
        cases hold
      · cases hold
      · exact hfinal id _ hmem
    · intro hlook
      rcases h.privates id (hlisted id _ hlook) with hid | ⟨hlogin, hblock⟩
      · obtain ⟨block, hblock, hid⟩ := mem_flatMap.1 hid
        cases hopen : openPrivate g login block with
        | none =>
          rw [hopen] at hid
          cases hid
        | some custom =>
          rw [hopen] at hid
          obtain ⟨t', ht', hnames⟩ := hread.privatesAll block hblock custom hopen
          rw [ht] at ht'
          cases ht'
          exact hnames id hid
      · rw [hread.locked hlogin hblock] at ht
        cases ht

theorem entryMap_ne_none : entryMap entries id ≠ none ↔ id ∈ entries := by
  rw [mem_iff_lookup, entryMap, Ne, Option.map_eq_none_iff]

theorem overlay_ne_none {old new : Option AttributeMap} :
    overlay old new ≠ none ↔ old ≠ none ∨ new ≠ none := by
  cases new with
  | none => simp [overlay]
  | some m => simp [overlay]

/-- A section after the read: where the file and the memory agree on the identifiers, the entries are
those that are listed. -/
theorem Relaid.agree {gone : Identifier → Prop} {old table fresh : Entries}
    (h : Relaid gone (entryMap old) (entryMap table) (entryMap fresh))
    {identifiers identifiers' : Identifiers}
    (hold : ∀ id, id ∈ old → identifiers.lookup id = some sect)
    (hfresh : ∀ id, id ∈ fresh ↔ identifiers'.lookup id = some sect)
    (hgone : ∀ id, gone id → identifiers'.lookup id = none)
    (hstays : ∀ id, identifiers.lookup id = some sect → ¬ gone id →
      identifiers'.lookup id = some sect) (id : Identifier) :
    id ∈ table ↔ identifiers'.lookup id = some sect := by
  rw [← entryMap_ne_none]
  rcases h id with ⟨hid, hnone, -⟩ | ⟨hid, heq⟩
  · rw [hnone, hgone id hid]
    simp
  · rw [heq, overlay_ne_none, entryMap_ne_none, entryMap_ne_none, hfresh]
    constructor
    · rintro (hmem | hlook)
      · exact hstays id (hold id hmem) hid
      · exact hlook
    · exact .inr

theorem Refreshes.read (h : Refreshes g f file login) (hf : f.Consistent) {r : GkmMate2File}
    (hread : gkmMate2FileReadFd g f file login = .ok (res, r)) : r.Consistent ∧ r.Sectioned := by
  obtain ⟨fresh, hfresh⟩ := h.complete.accepted
  obtain ⟨r', hr', hreread⟩ := gkmMate2FileReadFd_reread hfresh f
  rw [hread] at hr'
  cases hr'
  obtain ⟨st, hparse, hfinish⟩ := gkmMate2FileReadFd_eq_success.1 hfresh
  have hst := h.complete.consistent hparse
  have hfileread := parseFileBlocks_read hparse
  obtain ⟨_, -, htracks⟩ := parseFileBlocks_tracks hparse gkmMate2FileNew
  rw [htracks.finish_fresh] at hfinish
  cases hfinish
  have hids : ∀ id, r.identifiers.lookup id = st.self.identifiers.lookup id :=
    congrFun hreread.identifiers
  have hlisted : ∀ id sect, st.self.identifiers.lookup id = some sect →
      (id, sect) ∈ listings file := by
    intro id sect hlook
    rcases hfileread.listed id sect hlook with hold | hmem
    · cases hold
    · exact hmem
  have hstays : ∀ (sect : UInt32) (priv : Prop), (sect = sectionPrivate ↔ priv) → ∀ id,
      f.identifiers.lookup id = some sect →
      ¬ Gone f.contents { st.self with incomplete := false }.contents priv id →
      st.self.identifiers.lookup id = some sect := by
    intro sect priv hpriv id hlook hgone
    cases hnew : st.self.identifiers.lookup id with
    | none => exact absurd ⟨hnew, sect, hlook, hpriv⟩ hgone
    | some sect' => rw [h.unmoved id sect sect' hlook (hlisted id sect' hnew)]
  refine ⟨⟨?_, ?_⟩, ?_⟩
  · intro id
    rw [hids]
    exact hreread.publics.agree (fun id hmem => (hf.publics id).1 hmem) hst.publics
      (fun id hgone => hgone.1) (hstays sectionPublic False (by decide)) id
  · intro t' ht' id
    rw [hids]
    cases ht : st.self.privates with
    | none =>
      rw [hreread.locked ht] at ht'
      cases ht'
    | some t =>
      obtain ⟨t₁, ht₁, hrelaid⟩ := hreread.privates t ht
      rw [ht'] at ht₁
      cases ht₁
      refine hrelaid.agree ?_ (hst.privates t ht) (fun id hgone => hgone.1)
        (hstays sectionPrivate True (by decide)) id
      intro id hmem
      cases hold : f.privates with
      | none =>
        rw [hold] at hmem
        cases hmem
      | some t₀ =>
        rw [hold] at hmem
        exact (hf.privates t₀ hold id).1 hmem
  · intro id sect hlook
    rw [hids] at hlook
    exact h.complete.sections id sect (hlisted id sect hlook)

/-- A read of a complete file finds the entries of the identifiers it removes. -/
theorem Refreshes.readReaches (h : Refreshes g f file login) (hf : f.Consistent)
    (hs : f.Sectioned) : readReaches g f file login = false := by
  obtain ⟨r, hr⟩ := h.complete.accepted
  obtain ⟨fresh, hfresh, -⟩ := gkmMate2FileReadFd_eq_success.1 hr
  obtain ⟨st, hst, htracks⟩ := parseFileBlocks_tracks hfresh f
  have hfileread := parseFileBlocks_read hst
  have hfreshread := parseFileBlocks_read hfresh
  rw [Mate2.readReaches, hst]
  apply removeReaches_eq_false st.checks.keys_nodup
  · intro id hid
    rw [htracks.lookup_of_mem_checks hid]
    exact (htracks.mem_checks.1 hid).2
  · intro id hid
    obtain ⟨hnone, hsome⟩ := htracks.mem_checks.1 hid
    obtain ⟨sect, hsect⟩ := Option.ne_none_iff_exists'.1 hsome
    have hlook : st.self.identifiers.lookup id = some sect := by
      rw [htracks.lookup_of_mem_checks hid, hsect]
    apply entryMissing_of_mem hlook
    intro entries hentries
    rcases hs id sect hsect with rfl | rfl
    · rw [sectionEntries, if_neg (by decide)] at hentries
      cases hentries
      exact hfileread.publicsKept id ((hf.publics id).2 hsect)
    · rw [sectionEntries, if_pos rfl] at hentries
      cases hold : f.privates with
      | none =>
        -- the store was unlocked by this read, which lists all the private identifiers
        have hopened := hfileread.unlocks hold (by
          rw [show st.self.privates = some entries from hentries]
          exact Option.some_ne_none _)
        obtain ⟨sect', hmem⟩ := h.unlocks hold hopened id hsect
        exact absurd hnone (hfreshread.listedAll id sect' hmem)
      | some t =>
        cases hpriv : fresh.self.privates with
        | none =>
          rw [show st.self.privates = none from (htracks.locked hpriv).2.1] at hentries
          cases hentries
        | some t₀ =>
          have hover := (htracks.privates t₀ hpriv).1 id
          rw [show st.self.privates = some entries from hentries, hold] at hover
          rw [← entryMap_ne_none, show entryMap entries id = _ from hover, overlay_ne_none]
          exact .inl (entryMap_ne_none.2 ((hf.privates t hold id).2 hsect))

end Complete

/-! ## Reading a file that adds nothing -/

theorem Removed.consistent {keys : List Identifier} {f f' : GkmMate2File} (h : Removed keys f f')
    (hf : f.Consistent) : f'.Consistent := by
  constructor
  · intro id
    rw [mem_iff_lookup, h.publics, h.identifiers]
    by_cases hkey : id ∈ keys
    · by_cases hsect : f.identifiers.lookup id = some sectionPrivate
      · have hnot : id ∉ f.publics := by
          rw [hf.publics, hsect]
          decide
        rw [mem_iff_lookup, not_not] at hnot
        simp [hkey, hsect, hnot]
      · simp [hkey, hsect]
    · simp only [hkey, false_and, if_false]
      rw [← mem_iff_lookup]
      exact hf.publics id
  · intro t' ht' id
    obtain ⟨t, ht⟩ : ∃ t, f.privates = some t := by
      apply Option.ne_none_iff_exists'.1
      intro hnone
      rw [h.locked.2 hnone] at ht'
      cases ht'
    have hlook := h.privates id
    rw [ht, ht'] at hlook
    rw [mem_iff_lookup, show t'.lookup id = _ from hlook, h.identifiers]
    by_cases hkey : id ∈ keys
    · by_cases hsect : f.identifiers.lookup id = some sectionPrivate
      · simp [hkey, hsect]
      · have hnot : id ∉ t := by
          rw [hf.privates t ht]
          exact hsect
        rw [mem_iff_lookup, not_not] at hnot
        simp [hkey, hsect, hnot]
    · simp only [hkey, false_and, if_false]
      show t.lookup id ≠ none ↔ _
      rw [← mem_iff_lookup]
      exact hf.privates t ht id

/-- The tables are as they were in `f`, as far as identifiers go. -/
structure Steady (f : GkmMate2File) (file : Bytes) (login : Option GkmSecret) (st : Reading) :
    Prop where
  identifiers : ∀ id, st.self.identifiers.lookup id = f.identifiers.lookup id
  publics : ∀ id, id ∈ st.self.publics ↔ id ∈ f.publics
  privates : ∀ t', st.self.privates = some t' → ∃ t, f.privates = some t ∧ ∀ id, id ∈ t' ↔ id ∈ t
  locked : st.self.privates = none → f.privates = none ∨ login = none
  checks : ∀ id, id ∈ st.checks → f.identifiers.lookup id ≠ none
  seen : ∀ id, f.identifiers.lookup id ≠ none → id ∈ st.checks ∨ ∃ sect, (id, sect) ∈ listings file

section Steady

variable {g : Gcrypt} {f : GkmMate2File} {file : Bytes} {login : Option GkmSecret}
  {st st' : Reading}

theorem steady_start (f : GkmMate2File) (file : Bytes) (login : Option GkmSecret) :
    Steady f file login (startRead f) where
  identifiers := fun _ => rfl
  publics := fun _ => Iff.rfl
  privates := fun t' ht' => ⟨t', ht', fun _ => Iff.rfl⟩
  locked := .inl
  checks := fun _ hmem => mem_iff_lookup.1 (mem_checksOf.1 hmem)
  seen := fun _ hlook => .inl (mem_checksOf.2 (mem_iff_lookup.2 hlook))

theorem Steady.step (hadds : AddsNothing g f file login) (hf : f.Consistent)
    {block : UnknownBlock} (hblock : block ∈ (fileBlocks file).1) {res : GkmDataResult}
    (h : Steady f file login st) (hread : BlockRead g login block res st st') :
    Steady f file login st' := by
  have hlistings : ∀ id sect, (id, sect) ∈ block.listings → (id, sect) ∈ listings file :=
    fun id sect hmem => mem_flatMap.2 ⟨block, hblock, hmem⟩
  have hupper : ∀ id sect, st'.self.identifiers.lookup id = some sect →
      f.identifiers.lookup id = some sect := by
    intro id sect hlook
    rcases hread.listed id sect hlook with hold | hmem
    · rwa [h.identifiers] at hold
    · exact hadds.listed id sect (hlistings id sect hmem)
  constructor
  · intro id
    cases hlook : st'.self.identifiers.lookup id with
    | some sect => rw [hupper id sect hlook]
    | none =>
      by_contra hne
      apply hread.kept id _ hlook
      rw [h.identifiers]
      exact Ne.symm hne
  · intro id
    constructor
    · intro hmem
      rcases hread.publics id hmem with hmem | hlook
      · exact (h.publics id).1 hmem
      · rw [h.identifiers] at hlook
        exact (hf.publics id).2 hlook
    · exact fun hmem => hread.publicsKept id ((h.publics id).2 hmem)
  · intro t' ht'
    cases hold : st.self.privates with
    | none =>
      -- nothing is unlocked by this file
      have hopen := hread.unlocks hold (by simp [ht'])
      rcases h.locked hold with hnone | rfl
      · rw [hadds.locked hnone block hblock] at hopen
        cases hopen
      · simp [openPrivate] at hopen
    | some t₁ =>
      obtain ⟨t, ht, hiff⟩ := h.privates t₁ hold
      refine ⟨t, ht, fun id => ⟨?_, ?_⟩⟩
      · intro hmem
        rcases hread.privates t' ht' id hmem with ⟨t₂, ht₂, hmem⟩ | hlook
        · rw [hold] at ht₂
          cases ht₂
          exact (hiff id).1 hmem
        · rw [h.identifiers] at hlook
          exact (hf.privates t ht id).2 hlook
      · exact fun hmem => hread.privatesKept t₁ t' hold ht' id ((hiff id).2 hmem)
  · intro hnone
    rcases hread.locks hnone with hold | ⟨hlogin, -⟩
    · exact h.locked hold
    · exact .inr hlogin
  · exact fun id hmem => h.checks id (hread.checks id hmem)
  · intro id hlook
    rcases h.seen id hlook with hmem | hlisted
    · rcases hread.seen id hmem with hmem | ⟨sect, hmem⟩
      · exact .inl hmem
      · exact .inr ⟨sect, hlistings id sect hmem⟩
    · exact .inr hlisted

theorem Steady.consistent (h : Steady f file login st) (hf : f.Consistent) :
    st.self.Consistent := by
  constructor
  · intro id
    rw [h.publics, h.identifiers]
    exact hf.publics id
  · intro t' ht' id
    obtain ⟨t, ht, hiff⟩ := h.privates t' ht'
    rw [hiff, h.identifiers]
    exact hf.privates t ht id

theorem Steady.sectioned (h : Steady f file login st) (hs : f.Sectioned) : st.self.Sectioned := by
  intro id sect hlook
  rw [h.identifiers] at hlook
  exact hs id sect hlook

section

variable (hadds : AddsNothing g f file login) (hf : f.Consistent)

include hadds hf

theorem AddsNothing.steady
    (hparse : parseFileBlocks (updateFromAnyBlock g login) file (startRead f) = .ok (res, st)) :
    Steady f file login st := by
  rw [parseFileBlocks_eq] at hparse
  refine runBlocks_invariant ?_ (steady_start f file login) hparse
  intro block hblock st res st' h hread
  exact h.step hadds hf hblock (updateFromAnyBlock_read hread)

theorem AddsNothing.read (hs : f.Sectioned)
    {r : GkmMate2File} (hread : gkmMate2FileReadFd g f file login = .ok (res, r)) :
    r.Consistent ∧ r.Sectioned := by
  rw [gkmMate2FileReadFd_eq] at hread
  obtain ⟨⟨res', st⟩, hparse, hread⟩ := bind_eq_ok.1 hread
  have hst := hadds.steady hf hparse
  have hc := hst.consistent hf
  have hsect := hst.sectioned hs
  cases res' with
  | failure =>
    cases hread
    exact ⟨⟨hc.publics, hc.privates⟩, hsect⟩
  | locked =>
    cases hread
    exact ⟨⟨hc.publics, hc.privates⟩, hsect⟩
  | unrecognized =>
    cases hread
    exact ⟨⟨hc.publics, hc.privates⟩, hsect⟩
  | success =>
    obtain ⟨self, hself, hremoved⟩ := removeIdentifiers_ok st.checks.keys_nodup
      { st.self with incomplete := false } (by
        intro id hid
        show st.self.identifiers.lookup id ≠ none
        rw [hst.identifiers]
        exact hst.checks id ((AList.mem_keys).2 hid))
    have hc' := hremoved.consistent ⟨hc.publics, hc.privates⟩
    have hsect' : self.Sectioned := by
      intro id sect hlook
      rw [hremoved.identifiers] at hlook
      split at hlook
      · cases hlook
      · exact hsect id sect hlook
    rw [endRead, if_pos rfl, finishRead, hself, ok_bind] at hread
    split at hread
    · rename_i hcond
      cases hread
      refine ⟨⟨hc'.publics, ?_⟩, hsect'⟩
      intro t ht id
      cases ht
      have hnone : st.self.privates = none := hremoved.locked.1 (Option.isNone_iff_eq_none.1 hcond.1)
      have hseen : st.self.privateSeen = false := by
        rw [← hcond.2]
        exact hremoved.seen.symm
      have hfileread := parseFileBlocks_read hparse
      -- there is no private block, and nothing is listed for the private section
      have hblocks : ¬ ∃ block ∈ (fileBlocks file).1, block.type = fileBlockPrivate := by
        intro hblock
        rw [hfileread.seen hblock] at hseen
        cases hseen
      have hold : f.privates = none := (hfileread.locks hnone).resolve_right hblocks
      have hnot := (hadds.privates hold).resolve_left hblocks
      constructor
      · intro hmem
        cases hmem
      · intro hlook
        rw [hremoved.identifiers] at hlook
        split at hlook
        · cases hlook
        · rename_i hkey
          have hlook : f.identifiers.lookup id = some sectionPrivate := by
            rw [← hst.identifiers]
            exact hlook
          rcases hst.seen id (by simp [hlook]) with hmem | ⟨sect, hmem⟩
          · exact absurd (AList.mem_keys.1 hmem) hkey
          · have hsect := hadds.listed id sect hmem
            rw [hlook] at hsect
            cases hsect
            exact absurd hmem (hnot id)
    · cases hread
      exact ⟨hc', hsect'⟩

theorem AddsNothing.readReaches (hs : f.Sectioned) : readReaches g f file login = false := by
  rw [Mate2.readReaches]
  split
  · rename_i st hparse
    have hst := hadds.steady hf hparse
    have hc := hst.consistent hf
    apply removeReaches_eq_false st.checks.keys_nodup
    · intro id hid
      show st.self.identifiers.lookup id ≠ none
      rw [hst.identifiers]
      exact hst.checks id (AList.mem_keys.2 hid)
    · intro id _
      exact entryMissing_eq_false ⟨hc.publics, hc.privates⟩ (hst.sectioned hs) id
  · rfl

end

end Steady

/-! ## Runs -/

/-- One operation, whatever it is. -/
def Step (g : Gcrypt) (f f' : GkmMate2File) : Prop :=
  ∃ (op : Op) (res : GkmDataResult), op.run g f = .ok (res, f')

/-- One operation that meets its condition. -/
def KeepingStep (g : Gcrypt) (f f' : GkmMate2File) : Prop :=
  ∃ (op : Op) (res : GkmDataResult), op.Keeps g f ∧ op.run g f = .ok (res, f')

theorem KeepingStep.consistent {g : Gcrypt} {f f' : GkmMate2File} (h : KeepingStep g f f')
    (hf : f.Consistent ∧ f.Sectioned) : f'.Consistent ∧ f'.Sectioned := by
  obtain ⟨op, res, hkeeps, hrun⟩ := h
  cases op with
  | read file login =>
    rcases hkeeps with hrefreshes | hadds
    · exact hrefreshes.read hf.1 hrun
    · exact hadds.read hf.1 hf.2 hrun
  | create id sect =>
    have hcreate := create_consistent hf.1 hf.2 hkeeps
    rw [show gkmMate2FileCreateEntry f id sect = (res, f') from Except.ok.inj hrun] at hcreate
    exact hcreate
  | destroy id =>
    have hdestroy := destroy_consistent hf.1 hf.2 id
    rw [show gkmMate2FileDestroyEntry f id = (res, f') from Except.ok.inj hrun] at hdestroy
    exact hdestroy
  | write id type value =>
    have hwrite := write_consistent hf.1 hf.2 id type value
    rw [show gkmMate2FileWriteValue f id type value = (res, f') from Except.ok.inj hrun] at hwrite
    exact hwrite

theorem run_consistent {g : Gcrypt}
    (h : Relation.ReflTransGen (KeepingStep g) gkmMate2FileNew f) : f.Consistent ∧ f.Sectioned := by
  induction h with
  | refl =>
    refine ⟨⟨?_, ?_⟩, ?_⟩
    · intro id
      constructor
      · intro hmem
        cases hmem
      · intro hlook
        cases hlook
    · intro t ht id
      cases ht
      constructor
      · intro hmem
        cases hmem
      · intro hlook
        cases hlook
    · intro id sect hlook
      cases hlook
  | tail _ hstep ih => exact hstep.consistent ih

/-- In every run whose operations meet their conditions the tables agree, no operation finds the
entry of a listed identifier missing, and neither does a read that meets its condition. -/
theorem tables_agree {g : Gcrypt} {f : GkmMate2File}
    (h : Relation.ReflTransGen (KeepingStep g) gkmMate2FileNew f) :
    f.Consistent ∧ (∀ id, entryMissing f id = false) ∧
      ∀ file login, (Op.read file login).Keeps g f → readReaches g f file login = false := by
  obtain ⟨hc, hs⟩ := run_consistent h
  refine ⟨hc, entryMissing_eq_false hc hs, ?_⟩
  intro file login hkeeps
  rcases hkeeps with hrefreshes | hadds
  · exact hrefreshes.readReaches hc hs
  · exact hadds.readReaches hc hs

/-- The sample keystore is complete. -/
theorem sampleStore_complete : CompleteFile sampleGcrypt sampleStore (some sampleLogin) := by
  have hlistings : listings sampleStore =
      [(samplePrivateId, sectionPrivate), (samplePublicId, sectionPublic)] := by
    decide +kernel
  refine ⟨?_, ?_, ?_, ?_, ?_⟩
  · obtain ⟨⟨res, r⟩, h, hres⟩ := exists_of_resultOf
      (x := gkmMate2FileReadFd sampleGcrypt gkmMate2FileNew sampleStore (some sampleLogin))
      (f := Prod.fst) (b := .success) (by decide +kernel)
    cases hres
    exact ⟨r, h⟩
  · intro id sect hmem
    rw [hlistings] at hmem
    simp only [mem_cons, Prod.mk.injEq, not_mem_nil, or_false] at hmem
    rcases hmem with ⟨-, rfl⟩ | ⟨-, rfl⟩
    · exact .inr rfl
    · exact .inl rfl
  · intro id sect sect' hmem hmem'
    rw [hlistings] at hmem hmem'
    simp only [mem_cons, Prod.mk.injEq, not_mem_nil, or_false] at hmem hmem'
    rcases hmem with ⟨rfl, rfl⟩ | ⟨rfl, rfl⟩
    · rcases hmem' with ⟨-, rfl⟩ | ⟨hne, -⟩
      · rfl
      · exact absurd hne (by decide)
    · rcases hmem' with ⟨hne, -⟩ | ⟨-, rfl⟩
      · exact absurd hne (by decide)
      · rfl
  · intro id hmem
    rw [hlistings] at hmem
    simp only [mem_cons, Prod.mk.injEq, not_mem_nil, or_false] at hmem
    rcases hmem with ⟨-, hne⟩ | ⟨rfl, -⟩
    · exact absurd hne (by decide)
    · decide +kernel
  · intro id hmem
    rw [hlistings] at hmem
    simp only [mem_cons, Prod.mk.injEq, not_mem_nil, or_false] at hmem
    rcases hmem with ⟨rfl, -⟩ | ⟨-, hne⟩
    · left
      decide +kernel
    · exact absurd hne (by decide)

/-- The sample keystore, read into a new `GkmMate2File`. -/
theorem tables_agree_sample : ∃ f,
    gkmMate2FileReadFd sampleGcrypt gkmMate2FileNew sampleStore (some sampleLogin) =
        .ok (.success, f) ∧
      f.Consistent ∧ (∀ id, entryMissing f id = false) := by
  obtain ⟨f, hread⟩ := sampleStore_complete.accepted
  have hkeeps : (Op.read sampleStore (some sampleLogin)).Keeps sampleGcrypt gkmMate2FileNew := by
    left
    refine ⟨sampleStore_complete, ?_, ?_⟩
    · intro id sect sect' hlook
      cases hlook
    · intro hnone
      cases hnone
  have h := tables_agree (Relation.ReflTransGen.single ⟨_, _, hkeeps, hread⟩)
  exact ⟨f, hread, h.1, h.2.1⟩

/-- One identifier is created in both sections. -/
theorem tables_disagree :
    ¬ ∀ (g : Gcrypt), g.Sound → ∀ f, Relation.ReflTransGen (Step g) gkmMate2FileNew f →
      f.Consistent ∧ ∀ id, entryMissing f id = false := by
  intro hall
  have hfirst : Step sampleGcrypt gkmMate2FileNew
      (gkmMate2FileCreateEntry gkmMate2FileNew samplePublicId sectionPublic).2 :=
    ⟨.create samplePublicId sectionPublic, _, rfl⟩
  have hsecond : Step sampleGcrypt
      (gkmMate2FileCreateEntry gkmMate2FileNew samplePublicId sectionPublic).2
      (gkmMate2FileCreateEntry (gkmMate2FileCreateEntry gkmMate2FileNew samplePublicId
        sectionPublic).2 samplePublicId sectionPrivate).2 :=
    ⟨.create samplePublicId sectionPrivate, _, rfl⟩
  have h := (hall sampleGcrypt sampleGcrypt_sound _
    ((Relation.ReflTransGen.single hfirst).tail hsecond)).1.publics samplePublicId
  revert h
  decide +kernel

end MateKeyring.Mate2
