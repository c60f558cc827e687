import MateKeyring.Mate2.RoundTrip

/-!
# Reading a keystore again

`gkm_mate2_file_read_fd` does not start from nothing: it brings the tables it finds in memory up to
date with the file. What the file describes is what a read into a new `GkmMate2File` gives. A read
into the memory of `f` is compared with that one block by block (`Tracks`): the identifiers the file
lists are taken over, and the attributes of the file are laid over those that were there. At the end
the entries of the identifiers that the file does not list are removed, but nothing removes a single
attribute.
-/

set_option autoImplicit false

namespace MateKeyring.Mate2

open Lib Egg List

variable {identifiers : Identifiers} {res : GkmDataResult} {id : Identifier}
  {old : EntryMap} {self : GkmMate2File} {file : Bytes} {sect : UInt32} {n off : Nat}
  {type : UInt32}

/-! ## What the file describes -/

/-- The file describes these contents to somebody with the login. -/
def Describes (g : Gcrypt) (file : Bytes) (login : Option GkmSecret) (c : Contents) : Prop :=
  ∃ r, gkmMate2FileReadFd g gkmMate2FileNew file login = .ok (.success, r) ∧ r.contents = c

/-- The identifier was in the private section (or in another one), and is not there anymore. -/
def Gone (old new : Contents) (priv : Prop) (id : Identifier) : Prop :=
  new.identifiers id = none ∧
    ∃ sect, old.identifiers id = some sect ∧ (sect = sectionPrivate ↔ priv)

/-- An entry that was there is still there, with all the attributes it had. -/
def Covered (old new : Option AttributeMap) : Prop :=
  ∀ m, old = some m → ∃ m', new = some m' ∧ ∀ type, m' type = none → m type = none

/-- What was in memory is still described, or belongs to an identifier that is gone from the
section. -/
structure Covers (old new : Contents) : Prop where
  publics : ∀ id, Gone old new False id ∨ Covered (old.publics id) (new.publics id)
  privates : ∀ t, new.privates = some t → ∀ id,
    Gone old new True id ∨ Covered ((old.privates.getD fun _ => none) id) (t id)

/-! ## One table laid over another -/

/-- The attributes of an entry after those of the file were laid over it. -/
def overlay (old new : Option AttributeMap) : Option AttributeMap :=
  match new with
  | none => old
  | some m => some fun type => (m type).or (old.bind (· type))

/-- An entry is what the file describes when the file covers it. -/
theorem overlay_eq_iff {old new : Option AttributeMap} : overlay old new = new ↔ Covered old new := by
  cases new with
  | none =>
    constructor
    · intro h m hm
      rw [overlay] at h
      rw [h] at hm
      cases hm
    · intro h
      cases old with
      | none => rfl
      | some m =>
        obtain ⟨m', hm', -⟩ := h m rfl
        cases hm'
  | some m' =>
    rw [overlay, Option.some.injEq]
    constructor
    · rintro h m rfl
      refine ⟨m', rfl, fun type hnone => ?_⟩
      have htype := congrFun h type
      simpa [hnone] using htype
    · intro h
      funext type
      cases hm : m' type with
      | some value => rfl
      | none =>
        cases old with
        | none => rfl
        | some m =>
          obtain ⟨_, heq, hall⟩ := h m rfl
          cases heq
          simpa using hall type hm

/-- `entries` is the table `new` of a fresh read laid over the old one. -/
def Overlays (old : EntryMap) (entries new : Entries) : Prop :=
  ∀ id, entryMap entries id = overlay (old id) (entryMap new id)

theorem overlays_empty (entries : Entries) : Overlays (entryMap entries) entries ∅ :=
  fun _ => rfl

/-- The attributes of an entry, laid over the old ones. -/
def AttributesOver (old : Option AttributeMap) (attributes new : Attributes) : Prop :=
  ∀ type, attributes.lookup type = (new.lookup type).or (old.bind (· type))

theorem AttributesOver.update {old : Option AttributeMap} {attributes new : Attributes}
    (h : AttributesOver old attributes new) (type : UInt64) (data : Bytes) :
    AttributesOver old (attributes.update type data) (new.update type data) := by
  intro type'
  rw [Attributes.lookup_update, Attributes.lookup_update]
  split
  · rfl
  · exact h type'

/-- The attributes an entry has before those of a block are read. -/
theorem Overlays.attributes {entries new : Entries} (h : Overlays old entries new) (id : Identifier) :
    AttributesOver (old id) ((entries.lookup id).getD ∅) ((new.lookup id).getD ∅) := by
  intro type
  have hid := h id
  unfold entryMap at hid
  cases hnew : new.lookup id with
  | none =>
    rw [hnew] at hid
    rw [show old id = _ from hid.symm]
    cases entries.lookup id <;> rfl
  | some attrs =>
    rw [hnew] at hid
    cases hentries : entries.lookup id with
    | none =>
      rw [hentries] at hid
      cases hid
    | some attrs' =>
      rw [hentries] at hid
      exact congrFun (Option.some.inj hid) type

theorem Overlays.insert {entries new : Entries} (h : Overlays old entries new)
    {attributes attributes' : Attributes} (ha : AttributesOver (old id) attributes attributes') :
    Overlays old (entries.insert id attributes) (new.insert id attributes') := by
  intro id'
  rw [entryMap_insert, entryMap_insert]
  split
  · rename_i heq
    rw [heq, overlay]
    congr 1
    funext type
    exact ha type
  · exact h id'

/-! ## The tables while the file is read -/

theorem readAttributes_over {old : Option AttributeMap} (buffer : Bytes) (n off : Nat)
    {attributes new : Attributes} (h : AttributesOver old attributes new) :
    AttributesOver old (readAttributes buffer n off attributes).1
        (readAttributes buffer n off new).1 ∧
      (readAttributes buffer n off attributes).2 = (readAttributes buffer n off new).2 := by
  induction n generalizing off attributes new with
  | zero => exact ⟨h, rfl⟩
  | succ n ih =>
    rw [readAttributes, readAttributes]
    cases uint64At buffer off with
    | none => exact ⟨h, rfl⟩
    | some head =>
      dsimp only
      cases byteArrayAt buffer head.2 with
      | none => exact ⟨h, rfl⟩
      | some value => exact ih _ (h.update _ _)

/-- The entries of a table have an identifier. -/
def Listed (identifiers : Identifiers) (entries : Entries) : Prop :=
  ∀ id, identifiers.lookup id = none → entries.lookup id = none

theorem Listed.insert {entries : Entries} (h : Listed identifiers entries) {attributes : Attributes}
    (hid : identifiers.lookup id ≠ none) : Listed identifiers (entries.insert id attributes) := by
  intro id' hnone
  have hne : id' ≠ id := by
    rintro rfl
    exact hid hnone
  rw [AList.lookup_insert_ne hne]
  exact h id' hnone

/-- Where a fresh read gets through the entries, the other one does. -/
theorem readEntries_over {identifiers new : Identifiers}
    (hids : ∀ id sect, new.lookup id = some sect → identifiers.lookup id = some sect) (hsect : sect ≠ 0)
    {buffer : Bytes} {entries fresh fresh' : Entries} (h : Overlays old entries fresh)
    (hlisted : Listed new fresh) (hread : readEntries new sect buffer n off fresh = .ok (.success, fresh')) :
    ∃ entries', readEntries identifiers sect buffer n off entries = .ok (.success, entries') ∧
      Overlays old entries' fresh' ∧ Listed new fresh' := by
  induction n generalizing off entries fresh with
  | zero =>
    cases hread
    exact ⟨entries, rfl, h, hlisted⟩
  | succ n ih =>
    rw [readEntries] at hread ⊢
    cases hname : stringAt buffer off with
    | none =>
      rw [hname] at hread
      cases hread
    | some head =>
      rw [hname] at hread
      obtain ⟨_ | str, off⟩ := head
      · cases hread
      · dsimp only at hread ⊢
        split at hread
        · cases hread
        · rename_i hfound
          -- the fresh read knows the identifier, and so does the other one
          have hstr : new.lookup str = some sect := by
            cases hlook : new.lookup str with
            | none =>
              rw [hlook] at hfound
              exact absurd (Ne.symm hsect) hfound
            | some sect' =>
              rw [hlook] at hfound
              exact congrArg some (not_not.1 hfound)
          rw [hids str sect hstr, if_neg (by simp)]
          cases hnum : uint32At buffer off with
          | none =>
            rw [hnum] at hread
            cases hread
          | some num =>
            rw [hnum] at hread
            dsimp only at hread ⊢
            obtain ⟨hover, heq⟩ := readAttributes_over buffer num.1 num.2
              (h.attributes str)
            generalize readAttributes buffer num.1 num.2 ((entries.lookup str).getD ∅) = x
              at hover heq ⊢
            generalize readAttributes buffer num.1 num.2 ((fresh.lookup str).getD ∅) = y
              at hover heq hread
            obtain ⟨attrs, next⟩ := x
            obtain ⟨attrs', next'⟩ := y
            dsimp only at hover heq
            subst heq
            cases next with
            | none => cases hread
            | some off =>
              exact ih (h.insert hover)
                (hlisted.insert (by rw [hstr]; exact Option.some_ne_none _)) hread

theorem updateEntriesFromBlock_over {identifiers new : Identifiers}
    (hids : ∀ id sect, new.lookup id = some sect → identifiers.lookup id = some sect) (hsect : sect ≠ 0)
    {buffer : Bytes} {off : Nat} {entries fresh fresh' : Entries} (h : Overlays old entries fresh)
    (hlisted : Listed new fresh)
    (hread : updateEntriesFromBlock new sect fresh buffer off = .ok (.success, fresh')) :
    ∃ entries', updateEntriesFromBlock identifiers sect entries buffer off =
        .ok (.success, entries') ∧
      Overlays old entries' fresh' ∧ Listed new fresh' := by
  rw [updateEntriesFromBlock] at hread ⊢
  cases hnum : uint32At buffer off with
  | none =>
    rw [hnum] at hread
    cases hread
  | some num =>
    rw [hnum] at hread
    exact readEntries_over hids hsect h hlisted hread

/-- A read into the memory of `f` beside a fresh read of the same blocks. -/
structure Tracks (f : GkmMate2File) (login : Option GkmSecret) (st fresh : Reading) : Prop where
  identifiers : ∀ id, st.self.identifiers.lookup id =
    (fresh.self.identifiers.lookup id).or (f.identifiers.lookup id)
  checks : ∀ id, id ∈ st.checks ↔ id ∈ f.identifiers ∧ fresh.self.identifiers.lookup id = none
  freshChecks : fresh.checks = ∅
  publics : Overlays (entryMap f.publics) st.self.publics fresh.self.publics
  listed : Listed fresh.self.identifiers fresh.self.publics
  seen : st.self.privateSeen = fresh.self.privateSeen
  locked : fresh.self.privates = none →
    login = none ∧ st.self.privates = none ∧ fresh.self.privateSeen = true
  privates : ∀ t, fresh.self.privates = some t →
    Overlays (entryMap (f.privates.getD ∅)) (st.self.privates.getD ∅) t ∧
      Listed fresh.self.identifiers t ∧
      (st.self.privates = none → st.self.privateSeen = false)

section Tracks

variable {g : Gcrypt} {f : GkmMate2File} {st fresh fresh' : Reading} {login : Option GkmSecret}
  {buffer : Bytes}

theorem Tracks.known (h : Tracks f login st fresh) (id : Identifier) (sect : UInt32)
    (hid : fresh.self.identifiers.lookup id = some sect) :
    st.self.identifiers.lookup id = some sect := by
  rw [h.identifiers id, hid]
  rfl

theorem Tracks.stash (h : Tracks f login st fresh) (unknowns unknowns' : List UnknownBlock) :
    Tracks f login { st with self := { st.self with unknowns } }
      { fresh with self := { fresh.self with unknowns := unknowns' } } :=
  ⟨h.identifiers, h.checks, h.freshChecks, h.publics, h.listed, h.seen, h.locked, h.privates⟩

theorem Tracks.lock (h : Tracks f none st fresh) :
    Tracks f none { st with self := { st.self with privateSeen := true, privates := none } }
      { fresh with self := { fresh.self with privateSeen := true, privates := none } } := by
  refine ⟨h.identifiers, h.checks, h.freshChecks, h.publics, h.listed, rfl,
    fun _ => ⟨rfl, rfl, rfl⟩, ?_⟩
  intro t ht
  cases ht

theorem listed_insert_identifier {entries : Entries} (h : Listed identifiers entries) (id : Identifier)
    (sect : UInt32) :
    Listed (identifiers.insert id sect) entries := by
  intro id' hnone
  apply h id'
  by_cases heq : id' = id
  · rw [heq, AList.lookup_insert] at hnone
    cases hnone
  · rwa [AList.lookup_insert_ne heq] at hnone

/-- An identifier of the index is taken over, and is not to be removed anymore. -/
theorem Tracks.index (h : Tracks f login st fresh) (id : Identifier) (sect : UInt32) :
    Tracks f login
      { self := { st.self with identifiers := st.self.identifiers.insert id sect },
        checks := st.checks.erase id }
      { self := { fresh.self with identifiers := fresh.self.identifiers.insert id sect },
        checks := fresh.checks.erase id } where
  identifiers := by
    intro id'
    by_cases heq : id' = id
    · rw [heq, AList.lookup_insert, AList.lookup_insert]
      rfl
    · rw [AList.lookup_insert_ne heq, AList.lookup_insert_ne heq]
      exact h.identifiers id'
  checks := by
    intro id'
    rw [AList.mem_erase, h.checks id']
    by_cases heq : id' = id
    · rw [heq, AList.lookup_insert]
      simp
    · rw [AList.lookup_insert_ne heq]
      simp [heq]
  freshChecks := by
    rw [h.freshChecks]
    rfl
  publics := h.publics
  listed := listed_insert_identifier h.listed id sect
  seen := h.seen
  locked := h.locked
  privates := by
    intro t ht
    obtain ⟨hover, hlisted, hseen⟩ := h.privates t ht
    exact ⟨hover, listed_insert_identifier hlisted id sect, hseen⟩

/-- The identifiers an index lists, up to where it cannot be read. -/
def indexListings (buffer : Bytes) : Nat → Nat → List (Identifier × UInt32)
  | 0, _ => []
  | n + 1, offset =>
    match stringAt buffer offset with
    | none => []
    | some (identifier, offset) =>
      match uint32At buffer offset with
      | none => []
      | some (value, offset) =>
        match identifier with
        | none => []
        | some identifier =>
          (identifier, UInt32.ofNat value) :: indexListings buffer n offset

/-- An identifier of an index is taken over. -/
def Reading.list (st : Reading) (pair : Identifier × UInt32) : Reading :=
  { self := { st.self with identifiers := st.self.identifiers.insert pair.1 pair.2 },
    checks := st.checks.erase pair.1 }

/-- The loop over the index succeeds or fails, and it takes over what is listed, whatever was there. -/
theorem readIndex_ok (hread : readIndex buffer n off fresh = .ok (res, fresh')) :
    res ≠ .unrecognized ∧ ∀ start, readIndex buffer n off start =
      .ok (res, (indexListings buffer n off).foldl Reading.list start) := by
  induction n generalizing off fresh with
  | zero =>
    cases hread
    exact ⟨by decide, fun _ => rfl⟩
  | succ n ih =>
    simp only [readIndex, indexListings] at hread ⊢
    cases hname : stringAt buffer off with
    | none =>
      rw [hname] at hread
      cases hread
      exact ⟨by decide, fun _ => rfl⟩
    | some head =>
      rw [hname] at hread
      dsimp only at hread ⊢
      cases hvalue : uint32At buffer head.2 with
      | none =>
        rw [hvalue] at hread
        cases hread
        exact ⟨by decide, fun _ => rfl⟩
      | some value =>
        rw [hvalue] at hread
        obtain ⟨_ | id, off⟩ := head
        · cases hread
        · exact ⟨(ih hread).1, fun start => (ih hread).2 _⟩

theorem readIndex_result (hread : readIndex buffer n off fresh = .ok (res, fresh')) : res ≠ .unrecognized :=
  (readIndex_ok hread).1

theorem readIndex_state (hread : readIndex buffer n off fresh = .ok (res, fresh')) :
    fresh' = (indexListings buffer n off).foldl Reading.list fresh :=
  congrArg Prod.snd (Except.ok.inj (hread.symm.trans ((readIndex_ok hread).2 fresh)))

theorem Tracks.list (h : Tracks f login st fresh) (pairs : List (Identifier × UInt32)) :
    Tracks f login (pairs.foldl Reading.list st) (pairs.foldl Reading.list fresh) := by
  induction pairs generalizing st fresh with
  | nil => exact h
  | cons pair pairs ih => exact ih (h.index pair.1 pair.2)

/-- The loop over the entries succeeds or fails, too. -/
theorem readEntries_result {entries entries' : Entries}
    (hread : readEntries identifiers sect buffer n off entries = .ok (res, entries')) :
    res ≠ .unrecognized := by
  induction n generalizing off entries with
  | zero =>
    cases hread
    decide
  | succ n ih =>
    rw [readEntries] at hread
    split at hread
    · cases hread
      decide
    · cases hread
    · split at hread
      · cases hread
        decide
      · dsimp only at hread
        split at hread
        · cases hread
          decide
        · split at hread
          · cases hread
            decide
          · exact ih hread

theorem updateEntriesFromBlock_result {off : Nat} {entries entries' : Entries}
    (hread : updateEntriesFromBlock identifiers sect entries buffer off = .ok (res, entries')) :
    res ≠ .unrecognized := by
  rw [updateEntriesFromBlock] at hread
  split at hread
  · cases hread
    decide
  · exact readEntries_result hread

theorem updateFromIndexBlock_tracks (h : Tracks f login st fresh)
    (hread : updateFromIndexBlock fresh buffer = .ok (res, fresh')) :
    ∃ st', updateFromIndexBlock st buffer = .ok (res, st') ∧ Tracks f login st' fresh' := by
  rw [updateFromIndexBlock] at hread ⊢
  cases hnum : uint32At buffer 0 with
  | none =>
    rw [hnum] at hread
    cases hread
    exact ⟨st, rfl, h⟩
  | some num =>
    rw [hnum] at hread
    dsimp only at hread ⊢
    rw [readIndex_state hread]
    exact ⟨_, (readIndex_ok hread).2 st, h.list _⟩

theorem updateFromPublicBlock_tracks (h : Tracks f login st fresh)
    (hres : res = .success ∨ res = .unrecognized)
    (hread : updateFromPublicBlock g fresh buffer = .ok (res, fresh')) :
    ∃ st', updateFromPublicBlock g st buffer = .ok (res, st') ∧ Tracks f login st' fresh' := by
  rw [updateFromPublicBlock] at hread ⊢
  cases hvalid : validateBuffer g buffer with
  | none =>
    rw [hvalid] at hread
    cases hread
    simp at hres
  | some off =>
    rw [hvalid] at hread
    dsimp only at hread ⊢
    cases hupdate : updateEntriesFromBlock fresh.self.identifiers sectionPublic
        fresh.self.publics buffer off with
    | error e =>
      rw [hupdate] at hread
      cases hread
    | ok pair =>
      obtain ⟨res', publics⟩ := pair
      rw [hupdate] at hread
      cases hread
      cases hres.resolve_right (updateEntriesFromBlock_result hupdate)
      obtain ⟨publics', hread', hover, hlisted⟩ := updateEntriesFromBlock_over h.known
        (by decide) h.publics h.listed hupdate
      rw [hread']
      exact ⟨_, rfl, h.identifiers, h.checks, h.freshChecks, hover, hlisted, h.seen, h.locked,
        h.privates⟩

theorem updateFromDecrypted_tracks {l : GkmSecret} (h : Tracks f (some l) st fresh)
    (hres : res = .success ∨ res = .unrecognized)
    (hread : updateFromDecrypted g fresh.seePrivate buffer = .ok (res, fresh')) :
    ∃ st', updateFromDecrypted g st.seePrivate buffer = .ok (res, st') ∧
      Tracks f (some l) st' fresh' := by
  have hsome : fresh.self.privates ≠ none := by
    intro hnone
    cases (h.locked hnone).1
  obtain ⟨t, ht⟩ := Option.ne_none_iff_exists'.1 hsome
  obtain ⟨hover, hlisted, -⟩ := h.privates t ht
  rw [updateFromDecrypted] at hread ⊢
  cases hvalid : validateBuffer g buffer with
  | none =>
    rw [hvalid] at hread
    cases hread
    simp at hres
  | some off =>
    rw [hvalid] at hread
    dsimp only [Reading.seePrivate] at hread ⊢
    rw [ht] at hread
    cases hupdate : updateEntriesFromBlock fresh.self.identifiers sectionPrivate
        ((some t).getD ∅) buffer off with
    | error e =>
      rw [hupdate] at hread
      cases hread
    | ok pair =>
      obtain ⟨res', privates⟩ := pair
      rw [hupdate] at hread
      cases hread
      cases hres.resolve_right (updateEntriesFromBlock_result hupdate)
      obtain ⟨privates', hread', hover', hlisted'⟩ := updateEntriesFromBlock_over h.known
        (by decide) hover hlisted hupdate
      rw [hread']
      refine ⟨_, rfl, h.identifiers, h.checks, h.freshChecks, h.publics, h.listed, rfl, ?_, ?_⟩
      · intro hnone
        cases hnone
      · intro t' ht'
        cases ht'
        exact ⟨hover', hlisted', fun hnone => by cases hnone⟩

theorem updateFromPrivateBlock_tracks (h : Tracks f login st fresh)
    (hres : res = .success ∨ res = .unrecognized)
    (hread : updateFromPrivateBlock g fresh buffer login = .ok (res, fresh')) :
    ∃ st', updateFromPrivateBlock g st buffer login = .ok (res, st') ∧
      Tracks f login st' fresh' := by
  cases login with
  | none =>
    cases hread
    exact ⟨_, rfl, h.lock⟩
  | some l =>
    rw [updateFromPrivateBlock] at hread ⊢
    cases hdecrypt : decryptBuffer g buffer l with
    | error e =>
      rw [hdecrypt] at hread
      cases hread
    | ok plain =>
      rw [hdecrypt, ok_bind] at hread
      rw [ok_bind]
      cases plain with
      | none =>
        cases hread
        simp at hres
      | some custom => exact updateFromDecrypted_tracks h hres hread

theorem updateFromBlock_tracks (h : Tracks f login st fresh) (hres : res = .success ∨ res = .unrecognized)
    (hread : updateFromBlock g login type buffer fresh = .ok (res, fresh')) :
    ∃ st', updateFromBlock g login type buffer st = .ok (res, st') ∧ Tracks f login st' fresh' := by
  rw [updateFromBlock] at hread ⊢
  split
  · rename_i hindex
    rw [if_pos hindex] at hread
    exact updateFromIndexBlock_tracks h hread
  · rename_i hindex
    rw [if_neg hindex] at hread
    split
    · rename_i hprivate
      rw [if_pos hprivate] at hread
      exact updateFromPrivateBlock_tracks h hres hread
    · rename_i hprivate
      rw [if_neg hprivate] at hread
      split
      · rename_i hpublic
        rw [if_pos hpublic] at hread
        exact updateFromPublicBlock_tracks h hres hread
      · rename_i hpublic
        rw [if_neg hpublic] at hread
        cases hread
        exact ⟨st, rfl, h⟩

/-- A block that is read without an error was understood, or is kept. -/
theorem updateFromAnyBlock_success
    (hread : updateFromAnyBlock g login type buffer st = .ok (.success, fresh)) :
    updateFromBlock g login type buffer st = .ok (.success, fresh) ∨
      ∃ mid, updateFromBlock g login type buffer st = .ok (.unrecognized, mid) ∧
        fresh = { mid with self := { mid.self with
          unknowns := { type, buffer } :: mid.self.unknowns } } := by
  rw [updateFromAnyBlock] at hread
  obtain ⟨⟨res, mid⟩, hblock, hread⟩ := bind_eq_ok.1 hread
  cases res with
  | unrecognized =>
    cases hread
    exact .inr ⟨mid, hblock, rfl⟩
  | success =>
    cases hread
    exact .inl hblock
  | failure => cases hread
  | locked => cases hread

theorem updateFromAnyBlock_tracks (h : Tracks f login st fresh)
    (hread : updateFromAnyBlock g login type buffer fresh = .ok (.success, fresh')) :
    ∃ st', updateFromAnyBlock g login type buffer st = .ok (.success, st') ∧
      Tracks f login st' fresh' := by
  rcases updateFromAnyBlock_success hread with hblock | ⟨mid, hblock, rfl⟩
  · obtain ⟨st', hst', htracks⟩ := updateFromBlock_tracks h (.inl rfl) hblock
    refine ⟨st', ?_, htracks⟩
    rw [updateFromAnyBlock, hst']
    rfl
  · obtain ⟨st', hst', htracks⟩ := updateFromBlock_tracks h (.inr rfl) hblock
    refine ⟨_, ?_, htracks.stash ({ type, buffer } :: st'.self.unknowns) _⟩
    rw [updateFromAnyBlock, hst']
    rfl

end Tracks

/-! ## Runs of blocks -/

/-- Two runs over one sequence of blocks: what each block preserves holds at the end. -/
theorem parseBlocks_simulation {σ τ : Type}
    {f : UInt32 → Bytes → σ → Checked (GkmDataResult × σ)}
    {f' : UInt32 → Bytes → τ → Checked (GkmDataResult × τ)} {R : σ → τ → Prop}
    (hstep : ∀ type buffer s t t', R s t → f' type buffer t = .ok (.success, t') →
      ∃ s', f type buffer s = .ok (.success, s') ∧ R s' t')
    {fuel : Nat} {input : Bytes} {s : σ} {t t' : τ} (h : R s t)
    (hrun : parseBlocks f' fuel input t = .ok (.success, t')) :
    ∃ s', parseBlocks f fuel input s = .ok (.success, s') ∧ R s' t' := by
  induction fuel generalizing input s t with
  | zero =>
    cases hrun
    exact ⟨s, rfl, h⟩
  | succ fuel ih =>
    rw [parseBlocks] at hrun ⊢
    cases hnext : nextBlock input with
    | endOfFile =>
      rw [hnext] at hrun
      cases hrun
      exact ⟨s, rfl, h⟩
    | invalid =>
      rw [hnext] at hrun
      cases hrun
    | block type buffer rest =>
      rw [hnext] at hrun
      dsimp only at hrun ⊢
      obtain ⟨⟨res, mid⟩, hblock, hrun⟩ := bind_eq_ok.1 hrun
      cases res with
      | success =>
        obtain ⟨s', hs', hR⟩ := hstep type buffer s t mid h hblock
        rw [hs', ok_bind]
        exact ih hR hrun
      | failure => cases hrun
      | locked => cases hrun
      | unrecognized => cases hrun

theorem parseFileBlocks_simulation {σ τ : Type}
    {f : UInt32 → Bytes → σ → Checked (GkmDataResult × σ)}
    {f' : UInt32 → Bytes → τ → Checked (GkmDataResult × τ)} {R : σ → τ → Prop}
    (hstep : ∀ type buffer s t t', R s t → f' type buffer t = .ok (.success, t') →
      ∃ s', f type buffer s = .ok (.success, s') ∧ R s' t') {s : σ} {t t' : τ} (h : R s t)
    (hrun : parseFileBlocks f' file t = .ok (.success, t')) :
    ∃ s', parseFileBlocks f file s = .ok (.success, s') ∧ R s' t' := by
  rw [parseFileBlocks] at hrun ⊢
  cases hheader : readAllBytes file fileHeader.length with
  | none =>
    rw [hheader] at hrun
    cases hrun
    exact ⟨s, rfl, h⟩
  | some pair =>
    rw [hheader] at hrun
    dsimp only at hrun ⊢
    split
    · rename_i hne
      rw [if_pos hne] at hrun
      cases hrun
    · rename_i hne
      rw [if_neg hne] at hrun
      exact parseBlocks_simulation hstep h hrun

/-! ## Removing what the file does not list -/

/-- The identifiers `keys` and their entries were removed from `f`. -/
structure Removed (keys : List Identifier) (f f' : GkmMate2File) : Prop where
  identifiers : ∀ id, f'.identifiers.lookup id =
    if id ∈ keys then none else f.identifiers.lookup id
  publics : ∀ id, f'.publics.lookup id =
    if id ∈ keys ∧ f.identifiers.lookup id ≠ some sectionPrivate then none
    else f.publics.lookup id
  privates : ∀ id, (f'.privates.getD ∅).lookup id =
    if id ∈ keys ∧ f.identifiers.lookup id = some sectionPrivate then none
    else (f.privates.getD ∅).lookup id
  locked : f'.privates = none ↔ f.privates = none
  seen : f'.privateSeen = f.privateSeen
  unknowns : f'.unknowns = f.unknowns
  incomplete : f'.incomplete = f.incomplete

theorem Removed.refl (self : GkmMate2File) : Removed [] self self := by
  constructor <;> simp

theorem lookup_erase {β : Identifier → Type} (t : AList β) (key id : Identifier) :
    (t.erase key).lookup id = if id = key then none else t.lookup id := by
  split
  · rename_i heq
    rw [heq, AList.lookup_erase]
  · rename_i hne
    exact AList.lookup_erase_ne hne

theorem getD_map_erase (t : Option Entries) (key : Identifier) :
    (t.map (·.erase key)).getD ∅ = (t.getD ∅).erase key := by
  cases t <;> rfl

theorem removeEachIdentifier_ok {key : Identifier} (hin : self.identifiers.lookup key ≠ none) :
    ∃ self', removeEachIdentifier self key = .ok self' ∧ Removed [key] self self' := by
  obtain ⟨sect, hsect⟩ := Option.ne_none_iff_exists'.1 hin
  rw [removeEachIdentifier, hsect]
  dsimp only
  split
  · rename_i hprivate
    subst hprivate
    refine ⟨_, rfl, ?_, ?_, ?_, ?_, rfl, rfl, rfl⟩
    · intro id
      rw [lookup_erase]
      simp
    · intro id
      rw [if_neg]
      rintro ⟨hid, hne⟩
      cases mem_singleton.1 hid
      exact hne hsect
    · intro id
      rw [getD_map_erase, lookup_erase]
      by_cases hid : id = key
      · rw [hid, hsect]
        simp
      · simp [hid]
    · exact Option.map_eq_none_iff
  · rename_i hprivate
    refine ⟨_, rfl, ?_, ?_, ?_, Iff.rfl, rfl, rfl, rfl⟩
    · intro id
      rw [lookup_erase]
      simp
    · intro id
      rw [lookup_erase]
      by_cases hid : id = key
      · rw [hid, hsect]
        simp [hprivate]
      · simp [hid]
    · intro id
      rw [if_neg]
      rintro ⟨hid, heq⟩
      cases mem_singleton.1 hid
      rw [hsect] at heq
      exact hprivate (Option.some.inj heq)

theorem Removed.cons {key : Identifier} {keys : List Identifier} {self mid self' : GkmMate2File}
    (h : Removed [key] self mid) (h' : Removed keys mid self') (hnot : key ∉ keys) :
    Removed (key :: keys) self self' where
  identifiers := by
    intro id
    rw [h'.identifiers, h.identifiers]
    by_cases heq : id = key
    · simp [heq]
    · simp [heq]
  publics := by
    intro id
    rw [h'.publics, h.publics, h.identifiers]
    by_cases heq : id = key
    · simp [heq, hnot]
    · simp [heq]
  privates := by
    intro id
    rw [h'.privates, h.privates, h.identifiers]
    by_cases heq : id = key
    · simp [heq, hnot]
    · simp [heq]
  locked := h'.locked.trans h.locked
  seen := h'.seen.trans h.seen
  unknowns := h'.unknowns.trans h.unknowns
  incomplete := h'.incomplete.trans h.incomplete

theorem removeIdentifiers_ok {keys : List Identifier} (hnodup : keys.Nodup) (self : GkmMate2File)
    (hin : ∀ id ∈ keys, self.identifiers.lookup id ≠ none) :
    ∃ self', removeIdentifiers keys self = .ok self' ∧ Removed keys self self' := by
  induction keys generalizing self with
  | nil => exact ⟨self, rfl, Removed.refl self⟩
  | cons key keys ih =>
    obtain ⟨hnot, hnodup⟩ := nodup_cons.1 hnodup
    obtain ⟨mid, hmid, hremoved⟩ := removeEachIdentifier_ok (hin key mem_cons_self)
    obtain ⟨self', hself', hremoved'⟩ := ih hnodup mid (by
      intro id hid
      have hne : id ≠ key := by
        rintro rfl
        exact hnot hid
      rw [hremoved.identifiers, if_neg (by simpa using hne)]
      exact hin id (mem_cons_of_mem _ hid))
    refine ⟨self', ?_, hremoved.cons hremoved' hnot⟩
    rw [removeIdentifiers, hmid, ok_bind, hself']

/-! ## The whole read -/

theorem gkmMate2FileReadFd_eq_success {g : Gcrypt} {f r : GkmMate2File} {login : Option GkmSecret} :
    gkmMate2FileReadFd g f file login = .ok (.success, r) ↔
      ∃ st, parseFileBlocks (updateFromAnyBlock g login) file (startRead f) = .ok (.success, st) ∧
        finishRead st = .ok (.success, r) := by
  rw [gkmMate2FileReadFd_eq]
  constructor
  · intro h
    obtain ⟨⟨res, st⟩, hparse, h⟩ := bind_eq_ok.1 h
    cases res with
    | success => exact ⟨st, hparse, h⟩
    | failure => cases h
    | locked => cases h
    | unrecognized => cases h
  · rintro ⟨st, hparse, h⟩
    rw [hparse, ok_bind]
    exact h

theorem mem_checksOf : id ∈ checksOf identifiers ↔ id ∈ identifiers := by
  rw [AList.mem_keys, AList.mem_keys]
  simp [checksOf, AList.keys, List.keys, Function.comp_def]

theorem tracks_start (f : GkmMate2File) (login : Option GkmSecret) :
    Tracks f login (startRead f) (startRead gkmMate2FileNew) where
  identifiers := by
    intro id
    rfl
  checks := by
    intro id
    rw [startRead, mem_checksOf]
    simp [startRead, gkmMate2FileNew]
  freshChecks := rfl
  publics := overlays_empty f.publics
  listed := by
    intro id _
    rfl
  seen := rfl
  locked := by
    intro hnone
    cases hnone
  privates := by
    intro t ht
    cases ht
    exact ⟨overlays_empty _, fun _ _ => rfl, fun _ => rfl⟩

/-- A section after the read: what is gone is removed, the rest is laid over what was there. -/
def Relaid (gone : Identifier → Prop) (old table fresh : EntryMap) : Prop :=
  ∀ id, (gone id ∧ table id = none ∧ fresh id = none) ∨
    (¬ gone id ∧ table id = overlay (old id) (fresh id))

theorem Relaid.eq_iff {gone : Identifier → Prop} {old table fresh : EntryMap}
    (h : Relaid gone old table fresh) :
    table = fresh ↔ ∀ id, gone id ∨ Covered (old id) (fresh id) := by
  constructor
  · rintro rfl id
    rcases h id with ⟨hgone, -⟩ | ⟨-, heq⟩
    · exact .inl hgone
    · exact .inr (overlay_eq_iff.1 heq.symm)
  · intro hall
    funext id
    rcases h id with ⟨-, hnone, hnone'⟩ | ⟨hgone, heq⟩
    · rw [hnone, hnone']
    · rw [heq, overlay_eq_iff.2 ((hall id).resolve_left hgone)]

/-- The file `r` that a read into `f` leaves, beside what a fresh read leaves. -/
structure Reread (f r fresh : GkmMate2File) : Prop where
  identifiers : r.contents.identifiers = fresh.contents.identifiers
  publics : Relaid (Gone f.contents fresh.contents False) (entryMap f.publics) (entryMap r.publics)
    (entryMap fresh.publics)
  locked : fresh.privates = none → r.privates = none
  privates : ∀ t, fresh.privates = some t → ∃ t', r.privates = some t' ∧
    Relaid (Gone f.contents fresh.contents True) (entryMap (f.privates.getD ∅)) (entryMap t')
      (entryMap t)

section Finish

variable {f : GkmMate2File} {st fresh : Reading} {login : Option GkmSecret}

theorem Tracks.mem_checks (h : Tracks f login st fresh) :
    id ∈ st.checks.keys ↔
      fresh.self.identifiers.lookup id = none ∧ f.identifiers.lookup id ≠ none := by
  rw [← AList.mem_keys, h.checks, ← AList.lookup_isSome, Option.isSome_iff_ne_none, and_comm]

theorem Tracks.lookup_of_mem_checks (h : Tracks f login st fresh) (hid : id ∈ st.checks.keys) :
    st.self.identifiers.lookup id = f.identifiers.lookup id := by
  rw [h.identifiers, (h.mem_checks.1 hid).1]
  rfl

theorem Tracks.gone_iff (h : Tracks f login st fresh) {priv : Prop} :
    Gone f.contents fresh.self.contents priv id ↔
      id ∈ st.checks.keys ∧ (st.self.identifiers.lookup id = some sectionPrivate ↔ priv) := by
  constructor
  · rintro ⟨hnone, sect, hsect, hpriv⟩
    dsimp only [GkmMate2File.contents] at hnone hsect
    have hmem : id ∈ st.checks.keys := h.mem_checks.2 ⟨hnone, by simp [hsect]⟩
    refine ⟨hmem, ?_⟩
    rw [h.lookup_of_mem_checks hmem, hsect, Option.some.injEq]
    exact hpriv
  · rintro ⟨hmem, hpriv⟩
    obtain ⟨hnone, hsome⟩ := h.mem_checks.1 hmem
    obtain ⟨sect, hsect⟩ := Option.ne_none_iff_exists'.1 hsome
    rw [h.lookup_of_mem_checks hmem, hsect, Option.some.injEq] at hpriv
    exact ⟨hnone, sect, hsect, hpriv⟩

/-- An entry that is gone has no entry in a table of a fresh read either. -/
theorem relaid_of_listed {priv : Prop} {entries entries' t : Entries} (hover : Overlays old entries t)
    (hlisted : Listed fresh.self.identifiers t)
    (hgone : ∀ id, Gone f.contents fresh.self.contents priv id → entries'.lookup id = none)
    (hkept : ∀ id, ¬ Gone f.contents fresh.self.contents priv id →
      entries'.lookup id = entries.lookup id) :
    Relaid (Gone f.contents fresh.self.contents priv) old (entryMap entries') (entryMap t) := by
  intro id
  by_cases hid : Gone f.contents fresh.self.contents priv id
  · left
    refine ⟨hid, ?_, ?_⟩
    · rw [entryMap, hgone id hid]
      rfl
    · rw [entryMap, hlisted id hid.1]
      rfl
  · right
    refine ⟨hid, ?_⟩
    rw [← hover id, entryMap, hkept id hid]
    rfl

section

variable (h : Tracks f login st fresh)
  (hremoved : Removed st.checks.keys { st.self with incomplete := false } self)

include h hremoved

theorem Tracks.relaid_publics :
    Relaid (Gone f.contents fresh.self.contents False) (entryMap f.publics) (entryMap self.publics)
      (entryMap fresh.self.publics) := by
  apply relaid_of_listed h.publics h.listed
  · intro id hgone
    obtain ⟨hmem, hpriv⟩ := h.gone_iff.1 hgone
    rw [hremoved.publics, if_pos ⟨hmem, hpriv.1⟩]
  · intro id hgone
    rw [hremoved.publics, if_neg]
    rintro ⟨hmem, hpriv⟩
    exact hgone (h.gone_iff.2 ⟨hmem, ⟨hpriv, False.elim⟩⟩)

theorem Tracks.relaid_privates {t : Entries} (ht : fresh.self.privates = some t) :
    Relaid (Gone f.contents fresh.self.contents True) (entryMap (f.privates.getD ∅))
      (entryMap (self.privates.getD ∅)) (entryMap t) := by
  obtain ⟨hover, hlisted, -⟩ := h.privates t ht
  apply relaid_of_listed hover hlisted
  · intro id hgone
    obtain ⟨hmem, hpriv⟩ := h.gone_iff.1 hgone
    rw [hremoved.privates, if_pos ⟨hmem, hpriv.2 trivial⟩]
  · intro id hgone
    rw [hremoved.privates, if_neg]
    rintro ⟨hmem, hpriv⟩
    exact hgone (h.gone_iff.2 ⟨hmem, ⟨fun _ => trivial, fun _ => hpriv⟩⟩)

theorem Tracks.identifiers_eq (id : Identifier) :
    self.identifiers.lookup id = fresh.self.identifiers.lookup id := by
  rw [hremoved.identifiers]
  split
  · rename_i hmem
    exact (h.mem_checks.1 hmem).1.symm
  · rename_i hmem
    show st.self.identifiers.lookup id = _
    rw [h.identifiers]
    cases hfresh : fresh.self.identifiers.lookup id with
    | some sect => rfl
    | none =>
      by_contra hne
      exact hmem (h.mem_checks.2 ⟨hfresh, hne⟩)

end

/-- The end of a fresh read: there is nothing to remove. -/
theorem Tracks.finish_fresh (h : Tracks f login st fresh) :
    finishRead fresh = .ok (.success, { fresh.self with incomplete := false }) := by
  rw [finishRead, h.freshChecks, AList.keys_empty, removeIdentifiers, ok_bind, if_neg]
  · rfl
  · rintro ⟨hnone, hfalse⟩
    have htrue := (h.locked (Option.isNone_iff_eq_none.1 hnone)).2.2
    rw [show fresh.self.privateSeen = false from hfalse] at htrue
    cases htrue

theorem finishRead_tracks (h : Tracks f login st fresh) :
    ∃ r, finishRead st = .ok (.success, r) ∧
      Reread f r { fresh.self with incomplete := false } := by
  obtain ⟨self, hself, hremoved⟩ := removeIdentifiers_ok st.checks.keys_nodup
    { st.self with incomplete := false } (by
      intro id hid
      rw [h.lookup_of_mem_checks hid]
      exact (h.mem_checks.1 hid).2)
  have hids : ∀ id, self.identifiers.lookup id = fresh.self.identifiers.lookup id :=
    h.identifiers_eq hremoved
  have hpublics := h.relaid_publics hremoved
  rw [finishRead, hself, ok_bind]
  split
  · rename_i hcond
    -- nothing was loaded, and there was no private block: an empty table is put there
    have hnone : self.privates = none := Option.isNone_iff_eq_none.1 hcond.1
    refine ⟨_, rfl, funext hids, hpublics, ?_, ?_⟩
    · intro hlocked
      have htrue := (h.locked hlocked).2.2
      rw [← h.seen, ← hremoved.seen, hcond.2] at htrue
      cases htrue
    · intro t ht
      have hrelaid := h.relaid_privates hremoved ht
      rw [hnone] at hrelaid
      exact ⟨∅, rfl, hrelaid⟩
  · rename_i hcond
    refine ⟨_, rfl, funext hids, hpublics, ?_, ?_⟩
    · intro hlocked
      exact hremoved.locked.2 (h.locked hlocked).2.1
    · intro t ht
      have hrelaid := h.relaid_privates hremoved ht
      have hsome : self.privates ≠ none := by
        intro hnone
        have hseen := (h.privates t ht).2.2 (hremoved.locked.1 hnone)
        rw [← hremoved.seen] at hseen
        exact hcond ⟨Option.isNone_iff_eq_none.2 hnone, hseen⟩
      obtain ⟨t', ht'⟩ := Option.ne_none_iff_exists'.1 hsome
      rw [ht'] at hrelaid
      exact ⟨t', ht', hrelaid⟩

end Finish

/-- Where a fresh read gets through the blocks, a read into `f` does. -/
theorem parseFileBlocks_tracks {g : Gcrypt} {login : Option GkmSecret} {fresh : Reading}
    (h : parseFileBlocks (updateFromAnyBlock g login) file (startRead gkmMate2FileNew) =
      .ok (.success, fresh)) (f : GkmMate2File) :
    ∃ st, parseFileBlocks (updateFromAnyBlock g login) file (startRead f) = .ok (.success, st) ∧
      Tracks f login st fresh := by
  have hstep : ∀ type buffer s t t', Tracks f login s t →
      updateFromAnyBlock g login type buffer t = .ok (.success, t') →
        ∃ s', updateFromAnyBlock g login type buffer s = .ok (.success, s') ∧
          Tracks f login s' t' :=
    fun _ _ _ _ _ htracks hread => updateFromAnyBlock_tracks htracks hread
  exact parseFileBlocks_simulation hstep (tracks_start f login) h

/-- Where a fresh read succeeds, a read into `f` does, and leaves what the file says laid over
`f`. -/
theorem gkmMate2FileReadFd_reread {g : Gcrypt} {login : Option GkmSecret} {fresh : GkmMate2File}
    (h : gkmMate2FileReadFd g gkmMate2FileNew file login = .ok (.success, fresh)) (f : GkmMate2File) :
    ∃ r, gkmMate2FileReadFd g f file login = .ok (.success, r) ∧ Reread f r fresh := by
  obtain ⟨st0, hparse, hfinish⟩ := gkmMate2FileReadFd_eq_success.1 h
  obtain ⟨st, hst, htracks⟩ := parseFileBlocks_tracks hparse f
  obtain ⟨r, hr, hreread⟩ := finishRead_tracks htracks
  rw [htracks.finish_fresh] at hfinish
  cases hfinish
  exact ⟨r, gkmMate2FileReadFd_eq_success.2 ⟨st, hst, hr⟩, hreread⟩

theorem getD_contents_privates (f : GkmMate2File) :
    (f.contents.privates.getD fun _ => none) = entryMap (f.privates.getD ∅) := by
  rw [GkmMate2File.contents]
  cases f.privates <;> rfl

theorem Reread.contents_eq_iff {f r fresh : GkmMate2File} (h : Reread f r fresh) :
    r.contents = fresh.contents ↔ Covers f.contents fresh.contents := by
  constructor
  · intro heq
    constructor
    · exact h.publics.eq_iff.1 (congrArg Contents.publics heq)
    · intro m hm
      obtain ⟨t, ht, rfl⟩ := Option.map_eq_some_iff.1 hm
      obtain ⟨t', ht', hrelaid⟩ := h.privates t ht
      rw [getD_contents_privates]
      apply hrelaid.eq_iff.1
      have hpriv : r.privates.map entryMap = fresh.privates.map entryMap :=
        congrArg Contents.privates heq
      rw [ht, ht'] at hpriv
      exact Option.some.inj hpriv
  · intro hcovers
    have hpub : entryMap r.publics = entryMap fresh.publics := h.publics.eq_iff.2 hcovers.publics
    have hpriv : r.privates.map entryMap = fresh.privates.map entryMap := by
      cases ht : fresh.privates with
      | none => rw [h.locked ht]
      | some t =>
        obtain ⟨t', ht', hrelaid⟩ := h.privates t ht
        rw [ht']
        refine congrArg some (hrelaid.eq_iff.2 ?_)
        rw [← getD_contents_privates]
        apply hcovers.privates
        rw [GkmMate2File.contents, ht]
        rfl
    have hids := h.identifiers
    rw [GkmMate2File.contents, GkmMate2File.contents, Contents.mk.injEq]
    exact ⟨hids, hpub, hpriv⟩

/-- A read into `f` gives what the file describes exactly when the file describes something by
itself and covers what was in `f`. -/
theorem gkmMate2FileReadFd_exact_iff {g : Gcrypt} {f r : GkmMate2File} {file : Bytes}
    {login : Option GkmSecret} (h : gkmMate2FileReadFd g f file login = .ok (.success, r)) :
    Describes g file login r.contents ↔ ∃ c, Describes g file login c ∧ Covers f.contents c := by
  constructor
  · rintro ⟨fresh, hfresh, heq⟩
    obtain ⟨r', hr', hreread⟩ := gkmMate2FileReadFd_reread hfresh f
    rw [h] at hr'
    cases hr'
    exact ⟨fresh.contents, ⟨fresh, hfresh, rfl⟩, hreread.contents_eq_iff.1 heq.symm⟩
  · rintro ⟨_, ⟨fresh, hfresh, rfl⟩, hcovers⟩
    obtain ⟨r', hr', hreread⟩ := gkmMate2FileReadFd_reread hfresh f
    rw [h] at hr'
    cases hr'
    exact ⟨fresh, hfresh, (hreread.contents_eq_iff.2 hcovers).symm⟩

section Sample

/-- The bytes of the sample keystore. -/
def sampleStore : Bytes :=
  match gkmMate2FileWriteFd sampleGcrypt sampleFile emptyFd (some sampleLogin) sampleNonce with
  | .ok (_, fd) => fd.written
  | .error _ => []

/-- The sample keystore in memory, with one attribute more on its public entry. -/
def staleFile : GkmMate2File :=
  { sampleFile with
    publics := AList.singleton samplePublicId
      (AList.insert 0x102 [7] (AList.singleton 3 [65] : Attributes)) }

/-- An attribute of an entry of the public section. -/
def publicValue (f : GkmMate2File) (id : Identifier) (type : UInt64) : Option Bytes :=
  (f.publics.lookup id).bind fun attributes => attributes.lookup type

theorem publicValue_eq (f : GkmMate2File) (id : Identifier) (type : UInt64) :
    publicValue f id type = (f.contents.publics id).bind fun attributes => attributes type := by
  show _ = (entryMap f.publics id).bind _
  rw [publicValue, entryMap]
  cases f.publics.lookup id <;> rfl

theorem Covers.refl (c : Contents) : Covers c c where
  publics _ := .inr fun m hm => ⟨m, hm, fun _ h => h⟩
  privates t ht id := .inr fun m hm => ⟨m, by simpa [ht] using hm, fun _ h => h⟩

/-- The file is read again where it was read before. -/
theorem gkmMate2FileReadFd_exact_iff_sample : ∃ f r, publicValue f samplePublicId 3 = some [65] ∧
    gkmMate2FileReadFd sampleGcrypt f sampleStore (some sampleLogin) = .ok (.success, r) ∧
      Describes sampleGcrypt sampleStore (some sampleLogin) r.contents := by
  obtain ⟨⟨res, f⟩, h, hres⟩ := exists_of_resultOf
    (x := gkmMate2FileReadFd sampleGcrypt gkmMate2FileNew sampleStore (some sampleLogin))
    (f := fun p => (p.1, publicValue p.2 samplePublicId 3)) (b := (.success, some [65])) (by decide +kernel)
  obtain ⟨rfl, hvalue⟩ := Prod.mk.inj hres
  obtain ⟨r, hr, -⟩ := gkmMate2FileReadFd_reread h f
  exact ⟨f, r, hvalue, hr, (gkmMate2FileReadFd_exact_iff hr).2 ⟨_, ⟨f, h, rfl⟩, Covers.refl _⟩⟩

/-- The attribute that the file does not have is still there after the read. -/
theorem gkmMate2FileReadFd_attribute_survives :
    ¬ ∀ (g : Gcrypt), g.Sound → ∀ (f r : GkmMate2File) (file : Bytes)
      (login : Option GkmSecret), gkmMate2FileReadFd g f file login = .ok (.success, r) →
        Describes g file login r.contents := by
  intro hall
  obtain ⟨⟨res, r⟩, h, hres⟩ := exists_of_resultOf
    (x := gkmMate2FileReadFd sampleGcrypt staleFile sampleStore (some sampleLogin))
    (f := fun r => (r.1, publicValue r.2 samplePublicId 0x102)) (b := (.success, some [7]))
    (by decide +kernel)
  simp only [Prod.mk.injEq] at hres
  obtain ⟨rfl, hstale⟩ := hres
  obtain ⟨fresh, hfresh, heq⟩ := hall sampleGcrypt sampleGcrypt_sound staleFile r sampleStore
    (some sampleLogin) h
  obtain ⟨⟨res, fresh'⟩, h', hnone⟩ := exists_of_resultOf
    (x := gkmMate2FileReadFd sampleGcrypt gkmMate2FileNew sampleStore (some sampleLogin))
    (f := fun r => publicValue r.2 samplePublicId 0x102) (b := none) (by decide +kernel)
  rw [hfresh] at h'
  cases h'
  rw [publicValue_eq, ← heq, ← publicValue_eq] at hstale
  rw [hnone] at hstale
  cases hstale

end Sample

end MateKeyring.Mate2
