import MateKeyring.Mate2.Reread

/-!
# The blocks of a keystore file

`fileBlocks` splits a file into its blocks, without a look at what they hold; a read is a run over
them (`parseFileBlocks_eq`). `listings` has the identifiers that the index blocks list, and
`entryNames` those of the entries in a block of entries.
-/

set_option autoImplicit false

namespace MateKeyring.Mate2

open Lib Egg List

variable {pairs : List (Identifier × UInt32)} {buffer : Bytes}
  {identifiers : Identifiers} {blocks : List UnknownBlock}
  {entries entries' : Entries} {id : Identifier} {sect : UInt32} {σ : Type} {n off : Nat}

variable {res : GkmDataResult} {login : Option GkmSecret} {st st' : Reading} {g : Gcrypt} {block : UnknownBlock}

/-! ## Splitting a file -/

/-- The blocks of the input, and how it ends. -/
def splitBlocks : Nat → Bytes → List UnknownBlock × GkmDataResult
  | 0, _ => ([], .success)
  | fuel + 1, input =>
    match nextBlock input with
    | .endOfFile => ([], .success)
    | .invalid => ([], .failure)
    | .block type buffer rest =>
      let (blocks, last) := splitBlocks fuel rest
      ({ type, buffer } :: blocks, last)

/-- The blocks of a file, and how it ends. -/
def fileBlocks (file : Bytes) : List UnknownBlock × GkmDataResult :=
  match readAllBytes file fileHeader.length with
  | none => ([], .success)
  | some (header, input) =>
    if header ≠ fileHeader then ([], .unrecognized) else splitBlocks (input.length + 1) input

/-- The blocks are given to a function until it returns something else than success. -/
def runBlocks {σ : Type} (f : UInt32 → Bytes → σ → Checked (GkmDataResult × σ))
    (last : GkmDataResult) : List UnknownBlock → σ → Checked (GkmDataResult × σ)
  | [], st => .ok (last, st)
  | block :: blocks, st => do
      match ← f block.type block.buffer st with
      | (.success, st) => runBlocks f last blocks st
      | (res, st) => pure (res, st)

theorem parseBlocks_eq (f : UInt32 → Bytes → σ → Checked (GkmDataResult × σ)) (fuel : Nat)
    (input : Bytes) (st : σ) :
    parseBlocks f fuel input st =
      runBlocks f (splitBlocks fuel input).2 (splitBlocks fuel input).1 st := by
  induction fuel generalizing input st with
  | zero => rfl
  | succ fuel ih =>
    rw [parseBlocks, splitBlocks]
    cases nextBlock input with
    | endOfFile => rfl
    | invalid => rfl
    | block type buffer rest =>
      dsimp only
      rw [runBlocks]
      congr 1
      funext pair
      obtain ⟨res, st⟩ := pair
      cases res with
      | success => exact ih rest st
      | failure => rfl
      | locked => rfl
      | unrecognized => rfl

/-- A read gives the blocks of the file to its function, one after the other. -/
theorem parseFileBlocks_eq (f : UInt32 → Bytes → σ → Checked (GkmDataResult × σ))
    (file : Bytes) (st : σ) :
    parseFileBlocks f file st = runBlocks f (fileBlocks file).2 (fileBlocks file).1 st := by
  rw [parseFileBlocks, fileBlocks]
  cases readAllBytes file fileHeader.length with
  | none => rfl
  | some pair =>
    dsimp only
    split
    · rfl
    · exact parseBlocks_eq f _ _ st

section

variable {f : UInt32 → Bytes → σ → Checked (GkmDataResult × σ)} {last : GkmDataResult}

/-- What each block of the list preserves holds at the end, whatever the result is. -/
theorem runBlocks_invariant {I : σ → Prop}
    (hstep : ∀ block ∈ blocks, ∀ st res st', I st → f block.type block.buffer st = .ok (res, st') →
      I st') {st st' : σ} (h : I st)
    (hrun : runBlocks f last blocks st = .ok (res, st')) : I st' := by
  induction blocks generalizing st with
  | nil =>
    cases hrun
    exact h
  | cons block blocks ih =>
    obtain ⟨⟨res', mid⟩, hblock, hrun⟩ := bind_eq_ok.1 hrun
    have hmid := hstep block mem_cons_self st res' mid h hblock
    cases res' with
    | success =>
      exact ih (forall_mem_cons.1 hstep).2 hmid hrun
    | failure =>
      cases hrun
      exact hmid
    | locked =>
      cases hrun
      exact hmid
    | unrecognized =>
      cases hrun
      exact hmid

/-- A run that succeeds goes through all blocks. -/
theorem runBlocks_success {st st' : σ} (hrun : runBlocks f last blocks st = .ok (.success, st')) :
    Processes f blocks st st' := by
  induction blocks generalizing st with
  | nil =>
    cases hrun
    rfl
  | cons block blocks ih =>
    obtain ⟨⟨res', mid⟩, hblock, hrun⟩ := bind_eq_ok.1 hrun
    cases res' with
    | success => exact ⟨mid, hblock, ih hrun⟩
    | failure => cases hrun
    | locked => cases hrun
    | unrecognized => cases hrun

end

/-! ## What the blocks list -/

/-- What a block lists; only an index block does. -/
def UnknownBlock.listings (block : UnknownBlock) : List (Identifier × UInt32) :=
  if block.type = fileBlockIndex then
    match uint32At block.buffer 0 with
    | none => []
    | some (count, offset) => indexListings block.buffer count offset
  else []

/-- What the file lists. -/
def listings (file : Bytes) : List (Identifier × UInt32) :=
  (fileBlocks file).1.flatMap UnknownBlock.listings

/-- The names of the entries in a block of entries. -/
def entryNamesAt (buffer : Bytes) : Nat → Nat → List Identifier
  | 0, _ => []
  | n + 1, offset =>
    match stringAt buffer offset with
    | some (some str, offset) =>
      match uint32At buffer offset with
      | none => [str]
      | some (nAttrs, offset) =>
        match (readAttributes buffer nAttrs offset ∅).2 with
        | none => [str]
        | some offset => str :: entryNamesAt buffer n offset
    | _ => []

/-- The names of the entries, in a block whose hash is right. -/
def entryNames (g : Gcrypt) (buffer : Bytes) : List Identifier :=
  match validateBuffer g buffer with
  | none => []
  | some offset =>
    match uint32At buffer offset with
    | none => []
    | some (nEntries, offset) => entryNamesAt buffer nEntries offset

/-- The names of the public entries of a file. -/
def publicNames (g : Gcrypt) (file : Bytes) : List Identifier :=
  (fileBlocks file).1.flatMap fun block =>
    if block.type = fileBlockPublic then entryNames g block.buffer else []

/-- The plain text of a private block, if the login opens it. -/
def openPrivate (g : Gcrypt) (login : Option GkmSecret) (block : UnknownBlock) : Option Bytes :=
  if block.type = fileBlockPrivate then
    login.bind fun login =>
      ((resultOf (decryptBuffer g block.buffer login)).join).filter
        fun custom => (validateBuffer g custom).isSome
  else none

/-- The names of the private entries of a file, for a login that opens it. -/
def privateNames (g : Gcrypt) (login : Option GkmSecret) (file : Bytes) : List Identifier :=
  (fileBlocks file).1.flatMap fun block => ((openPrivate g login block).map (entryNames g)).getD []

/-! ## What a block does to the tables -/

theorem mem_iff_lookup {β : Identifier → Type} {t : AList β} : id ∈ t ↔ t.lookup id ≠ none := by
  rw [← AList.lookup_isSome, Option.isSome_iff_ne_none]

/-- Where the attributes of an entry end does not depend on those it had. -/
theorem readAttributes_offset (buffer : Bytes) (n off : Nat) (attributes : Attributes) :
    (readAttributes buffer n off attributes).2 = (readAttributes buffer n off ∅).2 := by
  have hover : AttributesOver (some fun type => attributes.lookup type) attributes ∅ :=
    fun type => rfl
  exact (readAttributes_over buffer n off hover).2

/-- Entries that were read: those in the block, and they were listed for the section. -/
structure EntriesRead (identifiers : Identifiers) (sect : UInt32)
    (names : List Identifier) (res : GkmDataResult) (entries entries' : Entries) : Prop where
  bounded : ∀ id, id ∈ entries' → id ∈ entries ∨ identifiers.lookup id = some sect
  kept : ∀ id, id ∈ entries → id ∈ entries'
  complete : res = .success → ∀ id ∈ names, id ∈ entries'

theorem EntriesRead.refl (identifiers : Identifiers) (sect : UInt32)
    (entries : Entries) {names : List Identifier}
    (h : res = .success → names = []) : EntriesRead identifiers sect names res entries entries where
  bounded := fun _ hmem => .inl hmem
  kept := fun _ hmem => hmem
  complete := by
    intro hres id hid
    rw [h hres] at hid
    cases hid

/-- One more entry is read in front of others. -/
theorem EntriesRead.insert {names : List Identifier} {str : Identifier}
    {attributes : Attributes} (hstr : identifiers.lookup str = some sect)
    (h : EntriesRead identifiers sect names res (entries.insert str attributes) entries') :
    EntriesRead identifiers sect (str :: names) res entries entries' where
  bounded := by
    intro id hmem
    rcases h.bounded id hmem with hmem | hlook
    · rcases (AList.mem_insert _).1 hmem with rfl | hmem
      · exact .inr hstr
      · exact .inl hmem
    · exact .inr hlook
  kept := fun id hmem => h.kept id ((AList.mem_insert _).2 (.inr hmem))
  complete := by
    intro hres id hid
    rcases mem_cons.1 hid with rfl | hid
    · exact h.kept id ((AList.mem_insert _).2 (.inl rfl))
    · exact h.complete hres id hid

theorem readEntries_read (hsect : sect ≠ 0)
    (hread : readEntries identifiers sect buffer n off entries = .ok (res, entries')) :
    EntriesRead identifiers sect (entryNamesAt buffer n off) res entries entries' := by
  induction n generalizing off entries with
  | zero =>
    cases hread
    exact EntriesRead.refl _ _ _ fun _ => rfl
  | succ n ih =>
    rw [readEntries] at hread
    rw [entryNamesAt]
    cases hname : stringAt buffer off with
    | none =>
      rw [hname] at hread
      cases hread
      exact EntriesRead.refl _ _ _ (fun h => by cases h)
    | some head =>
      rw [hname] at hread
      obtain ⟨_ | str, off⟩ := head
      · cases hread
      · dsimp only at hread ⊢
        split at hread
        · cases hread
          exact EntriesRead.refl _ _ _ (fun h => by cases h)
        · rename_i hfound
          have hstr : identifiers.lookup str = some sect := by
            cases hlook : identifiers.lookup str with
            | none =>
              rw [hlook] at hfound
              exact absurd (Ne.symm hsect) hfound
            | some sect' =>
              rw [hlook] at hfound
              exact congrArg some (not_not.1 hfound)
          cases hnum : uint32At buffer off with
          | none =>
            rw [hnum] at hread
            cases hread
            exact EntriesRead.insert hstr (EntriesRead.refl _ _ _ fun _ => rfl)
          | some num =>
            rw [hnum] at hread
            dsimp only at hread ⊢
            rw [← readAttributes_offset buffer num.1 num.2 ((entries.lookup str).getD ∅)]
            generalize readAttributes buffer num.1 num.2 ((entries.lookup str).getD ∅) = x
              at hread ⊢
            obtain ⟨attrs, _ | off⟩ := x
            · cases hread
              exact EntriesRead.insert hstr (EntriesRead.refl _ _ _ fun _ => rfl)
            · exact EntriesRead.insert hstr (ih hread)

theorem updateEntriesFromBlock_read (hsect : sect ≠ 0) {off : Nat}
    (hvalid : validateBuffer g buffer = some off)
    (hread : updateEntriesFromBlock identifiers sect entries buffer off = .ok (res, entries')) :
    EntriesRead identifiers sect (entryNames g buffer) res entries entries' := by
  rw [updateEntriesFromBlock] at hread
  rw [entryNames, hvalid]
  dsimp only
  cases hnum : uint32At buffer off with
  | none =>
    rw [hnum] at hread
    cases hread
    exact EntriesRead.refl _ _ _ fun _ => rfl
  | some num =>
    rw [hnum] at hread
    exact readEntries_read hsect hread

/-- What reading a block does to the tables, whatever its result is. -/
structure BlockRead (g : Gcrypt) (login : Option GkmSecret) (block : UnknownBlock)
    (res : GkmDataResult) (st st' : Reading) : Prop where
  listed : ∀ id sect, st'.self.identifiers.lookup id = some sect →
    st.self.identifiers.lookup id = some sect ∨ (id, sect) ∈ block.listings
  kept : ∀ id, st.self.identifiers.lookup id ≠ none → st'.self.identifiers.lookup id ≠ none
  checks : ∀ id, id ∈ st'.checks → id ∈ st.checks
  seen : ∀ id, id ∈ st.checks → id ∈ st'.checks ∨ ∃ sect, (id, sect) ∈ block.listings
  publics : ∀ id, id ∈ st'.self.publics →
    id ∈ st.self.publics ∨ st.self.identifiers.lookup id = some sectionPublic
  publicsKept : ∀ id, id ∈ st.self.publics → id ∈ st'.self.publics
  privates : ∀ t', st'.self.privates = some t' → ∀ id, id ∈ t' →
    (∃ t, st.self.privates = some t ∧ id ∈ t) ∨ st.self.identifiers.lookup id = some sectionPrivate
  privatesKept : ∀ t t', st.self.privates = some t → st'.self.privates = some t' →
    ∀ id, id ∈ t → id ∈ t'
  unlocks : st.self.privates = none → st'.self.privates ≠ none → (openPrivate g login block).isSome
  locks : st'.self.privates = none →
    st.self.privates = none ∨ (login = none ∧ block.type = fileBlockPrivate)
  locked : login = none → block.type = fileBlockPrivate → st'.self.privates = none
  privateSeen : st'.self.privateSeen = (st.self.privateSeen || block.type = fileBlockPrivate)
  listedAll : res = .success ∨ res = .unrecognized →
    ∀ id sect, (id, sect) ∈ block.listings → st'.self.identifiers.lookup id ≠ none
  publicsAll : res = .success ∨ res = .unrecognized → block.type = fileBlockPublic →
    ∀ id ∈ entryNames g block.buffer, id ∈ st'.self.publics
  privatesAll : res = .success ∨ res = .unrecognized →
    ∀ custom, openPrivate g login block = some custom →
      ∃ t', st'.self.privates = some t' ∧ ∀ id ∈ entryNames g custom, id ∈ t'

/-- An index that was read: only identifiers and the checks are different. -/
structure IndexRead (pairs : List (Identifier × UInt32)) (res : GkmDataResult)
    (st st' : Reading) : Prop where
  listed : ∀ id sect, st'.self.identifiers.lookup id = some sect →
    st.self.identifiers.lookup id = some sect ∨ (id, sect) ∈ pairs
  kept : ∀ id, st.self.identifiers.lookup id ≠ none → st'.self.identifiers.lookup id ≠ none
  checks : ∀ id, id ∈ st'.checks → id ∈ st.checks
  seen : ∀ id, id ∈ st.checks → id ∈ st'.checks ∨ ∃ sect, (id, sect) ∈ pairs
  complete : res = .success → ∀ id sect, (id, sect) ∈ pairs → st'.self.identifiers.lookup id ≠ none
  publics : st'.self.publics = st.self.publics
  privates : st'.self.privates = st.self.privates
  privateSeen : st'.self.privateSeen = st.self.privateSeen
  unknowns : st'.self.unknowns = st.self.unknowns

theorem IndexRead.refl (st : Reading) (h : res = .success → pairs = []) :
    IndexRead pairs res st st where
  listed := fun _ _ hlook => .inl hlook
  kept := fun _ hlook => hlook
  checks := fun _ hmem => hmem
  seen := fun _ hmem => .inl hmem
  complete := by
    intro hres id sect hmem
    rw [h hres] at hmem
    cases hmem
  publics := rfl
  privates := rfl
  privateSeen := rfl
  unknowns := rfl

/-- One more identifier is read in front of others. -/
theorem IndexRead.insert (h : IndexRead pairs res
      { self := { st.self with identifiers := st.self.identifiers.insert id sect },
        checks := st.checks.erase id } st') : IndexRead ((id, sect) :: pairs) res st st' where
  listed := by
    intro other sect' hlook
    rcases h.listed other sect' hlook with hlook | hmem
    · by_cases heq : other = id
      · subst heq
        rw [AList.lookup_insert] at hlook
        cases hlook
        exact .inr mem_cons_self
      · rw [AList.lookup_insert_ne heq] at hlook
        exact .inl hlook
    · exact .inr (mem_cons_of_mem _ hmem)
  kept := by
    intro other hlook
    apply h.kept other
    by_cases heq : other = id
    · rw [heq, AList.lookup_insert]
      exact Option.some_ne_none _
    · rwa [AList.lookup_insert_ne heq]
  checks := fun other hmem => (AList.mem_erase.1 (h.checks other hmem)).2
  seen := by
    intro other hmem
    by_cases heq : other = id
    · exact .inr ⟨sect, heq ▸ mem_cons_self⟩
    · rcases h.seen other (AList.mem_erase.2 ⟨heq, hmem⟩) with hmem | ⟨sect', hmem⟩
      · exact .inl hmem
      · exact .inr ⟨sect', mem_cons_of_mem _ hmem⟩
  complete := by
    intro hres other sect' hmem
    rcases mem_cons.1 hmem with heq | hmem
    · cases heq
      apply h.kept
      rw [AList.lookup_insert]
      exact Option.some_ne_none _
    · exact h.complete hres other sect' hmem
  publics := h.publics
  privates := h.privates
  privateSeen := h.privateSeen
  unknowns := h.unknowns

theorem readIndex_read
    (hread : readIndex buffer n off st = .ok (res, st')) :
    IndexRead (indexListings buffer n off) res st st' := by
  rw [readIndex_state hread]
  clear hread
  induction indexListings buffer n off generalizing st with
  | nil => exact IndexRead.refl _ fun _ => rfl
  | cons pair pairs ih => exact IndexRead.insert ih

section BlockRead

variable {g : Gcrypt} {login : Option GkmSecret} {block : UnknownBlock} {res : GkmDataResult}
  {st st' : Reading}

theorem openPrivate_eq_none (htype : block.type ≠ fileBlockPrivate) :
    openPrivate g login block = none := by
  rw [openPrivate, if_neg htype]

theorem listings_eq_nil (htype : block.type ≠ fileBlockIndex) : block.listings = [] := by
  rw [UnknownBlock.listings, if_neg htype]

/-- A block that leaves the tables as they are, if it lists nothing. -/
theorem BlockRead.refl (hindex : block.listings = []) (hprivate : block.type ≠ fileBlockPrivate)
    (hpublic : block.type = fileBlockPublic → res ≠ .success ∧ res ≠ .unrecognized) (st : Reading) :
    BlockRead g login block res st st where
  listed := fun _ _ hlook => .inl hlook
  kept := fun _ hlook => hlook
  checks := fun _ hmem => hmem
  seen := fun _ hmem => .inl hmem
  publics := fun _ hmem => .inl hmem
  publicsKept := fun _ hmem => hmem
  privates := fun t' ht' _ hmem => .inl ⟨t', ht', hmem⟩
  privatesKept := by
    intro t t' ht ht' id hmem
    rw [ht] at ht'
    cases ht'
    exact hmem
  unlocks := fun hnone hsome => absurd hnone hsome
  locks := .inl
  locked := fun _ h => absurd h hprivate
  privateSeen := by simp [hprivate]
  listedAll := by
    intro _ id sect hmem
    rw [hindex] at hmem
    cases hmem
  publicsAll := by
    intro hres htype
    rcases hres with hres | hres
    · exact absurd hres (hpublic htype).1
    · exact absurd hres (hpublic htype).2
  privatesAll := by
    intro _ custom hopen
    rw [openPrivate_eq_none hprivate] at hopen
    cases hopen

theorem blockRead_index (htype : block.type = fileBlockIndex)
    (hread : updateFromIndexBlock st block.buffer = .ok (res, st')) :
    BlockRead g login block res st st' := by
  have hprivate : block.type ≠ fileBlockPrivate := by
    rw [htype]
    decide
  have hpublic : block.type ≠ fileBlockPublic := by
    rw [htype]
    decide
  rw [updateFromIndexBlock] at hread
  have hlistings : block.listings = match uint32At block.buffer 0 with
      | none => []
      | some (count, offset) => indexListings block.buffer count offset := by
    rw [UnknownBlock.listings, if_pos htype]
  cases hnum : uint32At block.buffer 0 with
  | none =>
    rw [hnum] at hread hlistings
    cases hread
    exact BlockRead.refl hlistings hprivate (fun h => absurd h hpublic) st
  | some num =>
    rw [hnum] at hread hlistings
    have hindex := readIndex_read hread
    have hres := readIndex_result hread
    dsimp only at hlistings
    rw [← hlistings] at hindex
    exact
      { listed := hindex.listed
        kept := hindex.kept
        checks := hindex.checks
        seen := hindex.seen
        publics := by
          intro id hmem
          rw [hindex.publics] at hmem
          exact .inl hmem
        publicsKept := by
          intro id hmem
          rwa [hindex.publics]
        privates := by
          intro t' ht' id hmem
          rw [hindex.privates] at ht'
          exact .inl ⟨t', ht', hmem⟩
        privatesKept := by
          intro t t' ht ht' id hmem
          rw [hindex.privates, ht] at ht'
          cases ht'
          exact hmem
        unlocks := by
          rw [hindex.privates]
          exact fun hnone hsome => absurd hnone hsome
        locks := by
          rw [hindex.privates]
          exact .inl
        locked := fun _ h => absurd h hprivate
        privateSeen := by simp [hindex.privateSeen, hprivate]
        listedAll := fun h => hindex.complete (h.resolve_right hres)
        publicsAll := fun _ h => absurd h hpublic
        privatesAll := by
          intro _ custom hopen
          rw [openPrivate_eq_none hprivate] at hopen
          cases hopen }

theorem blockRead_public (htype : block.type = fileBlockPublic)
    (hread : updateFromPublicBlock g st block.buffer = .ok (res, st')) :
    BlockRead g login block res st st' := by
  have hprivate : block.type ≠ fileBlockPrivate := by
    rw [htype]
    decide
  have hindex : block.type ≠ fileBlockIndex := by
    rw [htype]
    decide
  rw [updateFromPublicBlock] at hread
  cases hvalid : validateBuffer g block.buffer with
  | none =>
    rw [hvalid] at hread
    cases hread
    exact BlockRead.refl (listings_eq_nil hindex) hprivate (fun _ => ⟨by decide, by decide⟩) _
  | some off =>
    rw [hvalid] at hread
    obtain ⟨⟨res', publics⟩, hupdate, hread⟩ := bind_eq_ok.1 hread
    cases hread
    have hentries := updateEntriesFromBlock_read (by decide) hvalid hupdate
    have hres := updateEntriesFromBlock_result hupdate
    have hbase : BlockRead g login block .failure st st :=
      BlockRead.refl (listings_eq_nil hindex) hprivate (fun _ => ⟨by decide, by decide⟩) st
    exact
      { hbase with
        publics := hentries.bounded
        publicsKept := hentries.kept
        listedAll := by
          intro _ id sect hmem
          rw [listings_eq_nil hindex] at hmem
          cases hmem
        publicsAll := fun h _ => hentries.complete (h.resolve_right hres)
        privatesAll := by
          intro _ custom hopen
          rw [openPrivate_eq_none hprivate] at hopen
          cases hopen }

theorem openPrivate_of_decrypt {l : GkmSecret} {custom : Bytes}
    (htype : block.type = fileBlockPrivate)
    (hdecrypt : decryptBuffer g block.buffer l = .ok (some custom)) :
    openPrivate g (some l) block = if (validateBuffer g custom).isSome then some custom else none := by
  rw [openPrivate, if_pos htype, Option.bind_some, hdecrypt]
  rfl

/-- A private block that could not be opened is only seen. -/
theorem blockRead_seePrivate {l : GkmSecret} (htype : block.type = fileBlockPrivate)
    (hres : res ≠ .success ∧ res ≠ .unrecognized) (st : Reading) :
    BlockRead g (some l) block res st st.seePrivate where
  listed := fun _ _ hlook => .inl hlook
  kept := fun _ hlook => hlook
  checks := fun _ hmem => hmem
  seen := fun _ hmem => .inl hmem
  publics := fun _ hmem => .inl hmem
  publicsKept := fun _ hmem => hmem
  privates := fun t' ht' _ hmem => .inl ⟨t', ht', hmem⟩
  privatesKept := by
    intro t t' ht ht' id hmem
    rw [show st.seePrivate.self.privates = st.self.privates from rfl, ht] at ht'
    cases ht'
    exact hmem
  unlocks := fun hnone hsome => absurd hnone hsome
  locks := .inl
  locked := by simp
  privateSeen := by simp [Reading.seePrivate, htype]
  listedAll := by simp [hres]
  publicsAll := by simp [hres]
  privatesAll := by simp [hres]

theorem blockRead_private (htype : block.type = fileBlockPrivate)
    (hread : updateFromPrivateBlock g st block.buffer login = .ok (res, st')) :
    BlockRead g login block res st st' := by
  have hindex : block.type ≠ fileBlockIndex := by
    rw [htype]
    decide
  have hpublic : block.type ≠ fileBlockPublic := by
    rw [htype]
    decide
  have hlistings := listings_eq_nil hindex
  cases login with
  | none =>
    cases hread
    exact
      { listed := fun _ _ hlook => .inl hlook
        kept := fun _ hlook => hlook
        checks := fun _ hmem => hmem
        seen := fun _ hmem => .inl hmem
        publics := fun _ hmem => .inl hmem
        publicsKept := fun _ hmem => hmem
        privates := by simp
        privatesKept := by simp
        unlocks := fun _ hsome => absurd rfl hsome
        locks := fun _ => .inr ⟨rfl, htype⟩
        locked := fun _ _ => rfl
        privateSeen := by simp [htype]
        listedAll := by simp [hlistings]
        publicsAll := fun _ h => absurd h hpublic
        privatesAll := by simp [openPrivate] }
  | some l =>
    rw [updateFromPrivateBlock] at hread
    obtain ⟨plain, hdecrypt, hread⟩ := bind_eq_ok.1 hread
    cases plain with
    | none =>
      cases hread
      exact blockRead_seePrivate htype ⟨by decide, by decide⟩ st
    | some custom =>
      dsimp only at hread
      rw [updateFromDecrypted] at hread
      have hopen := openPrivate_of_decrypt htype hdecrypt
      cases hvalid : validateBuffer g custom with
      | none =>
        rw [hvalid] at hread
        cases hread
        exact blockRead_seePrivate htype ⟨by decide, by decide⟩ st
      | some off =>
        rw [hvalid] at hread hopen
        obtain ⟨⟨res', privates⟩, hupdate, hread⟩ := bind_eq_ok.1 hread
        cases hread
        have hentries := updateEntriesFromBlock_read (by decide) hvalid hupdate
        have hres := updateEntriesFromBlock_result hupdate
        have hbase : BlockRead g (some l) block .failure st st.seePrivate :=
          blockRead_seePrivate htype ⟨by decide, by decide⟩ st
        exact
          { hbase with
            privates := by
              intro t' ht' id hmem
              cases ht'
              rcases hentries.bounded id hmem with hmem | hlook
              · left
                cases hold : st.self.privates with
                | none =>
                  rw [show st.seePrivate.self.privates = st.self.privates from rfl, hold] at hmem
                  cases hmem
                | some t =>
                  rw [show st.seePrivate.self.privates = st.self.privates from rfl, hold] at hmem
                  exact ⟨t, rfl, hmem⟩
              · exact .inr hlook
            privatesKept := by
              intro t t' ht ht' id hmem
              cases ht'
              apply hentries.kept
              rw [show st.seePrivate.self.privates = st.self.privates from rfl, ht]
              exact hmem
            unlocks := by
              intro _ _
              rw [hopen]
              rfl
            locks := by simp
            locked := by simp
            listedAll := by simp [hlistings]
            publicsAll := fun _ h => absurd h hpublic
            privatesAll := by
              intro h custom' hopen'
              rw [hopen] at hopen'
              cases hopen'
              exact ⟨privates, rfl, hentries.complete (h.resolve_right hres)⟩ }

/-- What a read does with a block. -/
theorem updateFromBlock_read
    (hread : updateFromBlock g login block.type block.buffer st = .ok (res, st')) :
    BlockRead g login block res st st' := by
  rw [updateFromBlock] at hread
  split at hread
  · rename_i htype
    exact blockRead_index htype hread
  · rename_i hindex
    split at hread
    · rename_i htype
      exact blockRead_private htype hread
    · rename_i hprivate
      split at hread
      · rename_i htype
        exact blockRead_public htype hread
      · rename_i hpublic
        cases hread
        exact BlockRead.refl (listings_eq_nil hindex) hprivate (fun h => absurd h hpublic) st

theorem updateFromAnyBlock_read
    (hread : updateFromAnyBlock g login block.type block.buffer st = .ok (res, st')) :
    BlockRead g login block res st st' := by
  rw [updateFromAnyBlock] at hread
  obtain ⟨⟨res', mid⟩, hblock, hread⟩ := bind_eq_ok.1 hread
  have h := updateFromBlock_read hblock
  cases res' with
  | unrecognized =>
    cases hread
    exact
      { h with
        listedAll := fun _ => h.listedAll (.inr rfl)
        publicsAll := fun _ => h.publicsAll (.inr rfl)
        privatesAll := fun _ => h.privatesAll (.inr rfl) }
  | success =>
    cases hread
    exact h
  | failure =>
    cases hread
    exact h
  | locked =>
    cases hread
    exact h

end BlockRead

/-! ## What a whole read does to the tables -/

/-- What reading all the blocks without an error does to the tables. -/
structure FileRead (g : Gcrypt) (login : Option GkmSecret) (blocks : List UnknownBlock)
    (st st' : Reading) : Prop where
  listed : ∀ id sect, st'.self.identifiers.lookup id = some sect →
    st.self.identifiers.lookup id = some sect ∨ (id, sect) ∈ blocks.flatMap UnknownBlock.listings
  kept : ∀ id, st.self.identifiers.lookup id ≠ none → st'.self.identifiers.lookup id ≠ none
  publics : ∀ id, id ∈ st'.self.publics →
    id ∈ st.self.publics ∨ st.self.identifiers.lookup id = some sectionPublic ∨
      (id, sectionPublic) ∈ blocks.flatMap UnknownBlock.listings
  publicsKept : ∀ id, id ∈ st.self.publics → id ∈ st'.self.publics
  privates : ∀ t', st'.self.privates = some t' → ∀ id, id ∈ t' →
    (∃ t, st.self.privates = some t ∧ id ∈ t) ∨
      st.self.identifiers.lookup id = some sectionPrivate ∨
      (id, sectionPrivate) ∈ blocks.flatMap UnknownBlock.listings
  privatesKept : ∀ t, st.self.privates = some t → login ≠ none →
    ∃ t', st'.self.privates = some t' ∧ ∀ id, id ∈ t → id ∈ t'
  unlocks : st.self.privates = none → st'.self.privates ≠ none →
    ∃ block ∈ blocks, (openPrivate g login block).isSome
  locks : st'.self.privates = none →
    st.self.privates = none ∨ ∃ block ∈ blocks, block.type = fileBlockPrivate
  locked : login = none → (∃ block ∈ blocks, block.type = fileBlockPrivate) →
    st'.self.privates = none
  seenKept : st.self.privateSeen = true → st'.self.privateSeen = true
  seen : (∃ block ∈ blocks, block.type = fileBlockPrivate) → st'.self.privateSeen = true
  listedAll : ∀ id sect, (id, sect) ∈ blocks.flatMap UnknownBlock.listings →
    st'.self.identifiers.lookup id ≠ none
  publicsAll : ∀ block ∈ blocks, block.type = fileBlockPublic →
    ∀ id ∈ entryNames g block.buffer, id ∈ st'.self.publics
  privatesAll : ∀ block ∈ blocks, ∀ custom, openPrivate g login block = some custom →
    ∃ t', st'.self.privates = some t' ∧ ∀ id ∈ entryNames g custom, id ∈ t'

theorem openPrivate_login
    {custom : Bytes} (h : openPrivate g login block = some custom) : login ≠ none := by
  rintro rfl
  simp [openPrivate] at h

theorem FileRead.refl (g : Gcrypt) (login : Option GkmSecret) (st : Reading) :
    FileRead g login [] st st where
  listed := fun _ _ hlook => .inl hlook
  kept := fun _ hlook => hlook
  publics := fun _ hmem => .inl hmem
  publicsKept := fun _ hmem => hmem
  privates := fun t' ht' _ hmem => .inl ⟨t', ht', hmem⟩
  privatesKept := fun t ht _ => ⟨t, ht, fun _ hmem => hmem⟩
  unlocks := fun hnone hsome => absurd hnone hsome
  locks := .inl
  locked := by simp
  seenKept := fun hseen => hseen
  seen := by simp
  listedAll := by simp
  publicsAll := by simp
  privatesAll := by simp

theorem FileRead.cons
    {blocks : List UnknownBlock} {st mid st' : Reading}
    (h : BlockRead g login block .success st mid) (h' : FileRead g login blocks mid st') :
    FileRead g login (block :: blocks) st st' where
  listed := by
    intro id sect hlook
    rw [flatMap_cons, mem_append]
    rcases h'.listed id sect hlook with hlook | hmem
    · rcases h.listed id sect hlook with hlook | hmem
      · exact .inl hlook
      · exact .inr (.inl hmem)
    · exact .inr (.inr hmem)
  kept := fun id hlook => h'.kept id (h.kept id hlook)
  publics := by
    intro id hmem
    rw [flatMap_cons, mem_append]
    rcases h'.publics id hmem with hmem | hlook | hmem
    · rcases h.publics id hmem with hmem | hlook
      · exact .inl hmem
      · exact .inr (.inl hlook)
    · rcases h.listed id _ hlook with hlook | hmem
      · exact .inr (.inl hlook)
      · exact .inr (.inr (.inl hmem))
    · exact .inr (.inr (.inr hmem))
  publicsKept := fun id hmem => h'.publicsKept id (h.publicsKept id hmem)
  privates := by
    intro t' ht' id hmem
    rw [flatMap_cons, mem_append]
    rcases h'.privates t' ht' id hmem with ⟨t, ht, hmem⟩ | hlook | hmem
    · rcases h.privates t ht id hmem with hold | hlook
      · exact .inl hold
      · exact .inr (.inl hlook)
    · rcases h.listed id _ hlook with hlook | hmem
      · exact .inr (.inl hlook)
      · exact .inr (.inr (.inl hmem))
    · exact .inr (.inr (.inr hmem))
  privatesKept := by
    intro t ht hlogin
    cases hmid : mid.self.privates with
    | none =>
      rcases h.locks hmid with hnone | ⟨hnone, -⟩
      · rw [ht] at hnone
        cases hnone
      · exact absurd hnone hlogin
    | some t₁ =>
      obtain ⟨t', ht', hkept⟩ := h'.privatesKept t₁ hmid hlogin
      exact ⟨t', ht', fun id hmem => hkept id (h.privatesKept t t₁ ht hmid id hmem)⟩
  unlocks := by
    intro hnone hsome
    by_cases hmid : mid.self.privates = none
    · obtain ⟨other, hmem, hopen⟩ := h'.unlocks hmid hsome
      exact ⟨other, mem_cons_of_mem _ hmem, hopen⟩
    · exact ⟨block, mem_cons_self, h.unlocks hnone hmid⟩
  locks := by
    intro hnone
    rcases h'.locks hnone with hmid | ⟨other, hmem, htype⟩
    · rcases h.locks hmid with hold | ⟨-, htype⟩
      · exact .inl hold
      · exact .inr ⟨block, mem_cons_self, htype⟩
    · exact .inr ⟨other, mem_cons_of_mem _ hmem, htype⟩
  locked := by
    rintro hlogin ⟨other, hmem, htype⟩
    rcases mem_cons.1 hmem with rfl | hmem
    · by_contra hsome
      -- without a login nothing is opened again
      obtain ⟨_, _, hopen⟩ := h'.unlocks (h.locked hlogin htype) hsome
      obtain ⟨custom, hcustom⟩ := Option.isSome_iff_exists.1 hopen
      exact openPrivate_login hcustom hlogin
    · exact h'.locked hlogin ⟨other, hmem, htype⟩
  seenKept := by
    intro hseen
    apply h'.seenKept
    rw [h.privateSeen, hseen]
    rfl
  seen := by
    rintro ⟨other, hmem, htype⟩
    rcases mem_cons.1 hmem with rfl | hmem
    · apply h'.seenKept
      rw [h.privateSeen]
      simp [htype]
    · exact h'.seen ⟨other, hmem, htype⟩
  listedAll := by
    intro id sect hmem
    rw [flatMap_cons, mem_append] at hmem
    rcases hmem with hmem | hmem
    · exact h'.kept id (h.listedAll (.inl rfl) id sect hmem)
    · exact h'.listedAll id sect hmem
  publicsAll := by
    intro other hmem htype id hid
    rcases mem_cons.1 hmem with rfl | hmem
    · exact h'.publicsKept id (h.publicsAll (.inl rfl) htype id hid)
    · exact h'.publicsAll other hmem htype id hid
  privatesAll := by
    intro other hmem custom hopen
    rcases mem_cons.1 hmem with rfl | hmem
    · obtain ⟨t, ht, hnames⟩ := h.privatesAll (.inl rfl) custom hopen
      obtain ⟨t', ht', hkept⟩ := h'.privatesKept t ht (openPrivate_login hopen)
      exact ⟨t', ht', fun id hid => hkept id (hnames id hid)⟩
    · exact h'.privatesAll other hmem custom hopen

/-- The tables after a read without an error. -/
theorem fileRead_of_processes
    (h : Processes (updateFromAnyBlock g login) blocks st st') :
    FileRead g login blocks st st' := by
  induction blocks generalizing st with
  | nil =>
    cases h
    exact FileRead.refl g login _
  | cons block blocks ih =>
    obtain ⟨mid, hblock, hrest⟩ := h
    exact FileRead.cons (updateFromAnyBlock_read hblock) (ih hrest)

theorem parseFileBlocks_read {file : Bytes}
    (h : parseFileBlocks (updateFromAnyBlock g login) file st = .ok (.success, st')) :
    FileRead g login (fileBlocks file).1 st st' := by
  rw [parseFileBlocks_eq] at h
  exact fileRead_of_processes (runBlocks_success h)

/-! ## What the index says -/

/-- The section that was listed last for an identifier, or the one it starts with. -/
def lastListed (pairs : List (Identifier × UInt32)) (id : Identifier) (start : Option UInt32) :
    Option UInt32 :=
  pairs.foldl (fun sect pair => if pair.1 = id then some pair.2 else sect) start

/-- The section a file lists an identifier for. -/
def fileIndex (file : Bytes) (id : Identifier) : Option UInt32 :=
  lastListed (listings file) id none

theorem lastListed_append (pairs pairs' : List (Identifier × UInt32)) (id : Identifier)
    (start : Option UInt32) :
    lastListed (pairs ++ pairs') id start = lastListed pairs' id (lastListed pairs id start) :=
  foldl_append

theorem lastListed_of_not_mem (h : id ∉ pairs.map Prod.fst) (start : Option UInt32) :
    lastListed pairs id start = start := by
  induction pairs generalizing start with
  | nil => rfl
  | cons pair pairs ih =>
    simp only [map_cons, mem_cons, not_or] at h
    rw [lastListed, foldl_cons, if_neg (Ne.symm h.1)]
    exact ih h.2 start

/-- Where the identifier is listed, it does not matter what it starts with. -/
theorem lastListed_of_mem (h : id ∈ pairs.map Prod.fst) (start start' : Option UInt32) :
    lastListed pairs id start = lastListed pairs id start' := by
  induction pairs generalizing start start' with
  | nil => cases h
  | cons pair pairs ih =>
    by_cases hmem : id ∈ pairs.map Prod.fst
    · exact ih hmem _ _
    · have heq : pair.1 = id := by
        rcases mem_cons.1 h with heq | hmem'
        · exact heq.symm
        · exact absurd hmem' hmem
      rw [lastListed, lastListed, foldl_cons, foldl_cons, if_pos heq, if_pos heq]

/-- The identifiers after these were listed. -/
structure IndexTaken (pairs : List (Identifier × UInt32)) (st st' : Reading) : Prop where
  identifiers : ∀ id, st'.self.identifiers.lookup id =
    lastListed pairs id (st.self.identifiers.lookup id)
  checks : ∀ id, id ∈ st'.checks ↔ id ∈ st.checks ∧ id ∉ pairs.map Prod.fst

theorem IndexTaken.refl (hself : st'.self.identifiers = st.self.identifiers)
    (hchecks : st'.checks = st.checks) : IndexTaken [] st st' where
  identifiers := by
    intro id
    rw [hself]
    rfl
  checks := by
    intro id
    rw [hchecks]
    simp

theorem IndexTaken.append {pairs pairs' : List (Identifier × UInt32)} {st mid st' : Reading}
    (h : IndexTaken pairs st mid) (h' : IndexTaken pairs' mid st') :
    IndexTaken (pairs ++ pairs') st st' where
  identifiers := by
    intro id
    rw [h'.identifiers, h.identifiers, lastListed_append]
  checks := by
    intro id
    rw [h'.checks, h.checks, map_append, mem_append, not_or, and_assoc]

theorem indexTaken_insert (st : Reading) (id : Identifier) (sect : UInt32) :
    IndexTaken [(id, sect)] st
      { self := { st.self with identifiers := st.self.identifiers.insert id sect },
        checks := st.checks.erase id } where
  identifiers := by
    intro other
    by_cases heq : id = other
    · subst heq
      simp [lastListed]
    · rw [AList.lookup_insert_ne (Ne.symm heq)]
      simp [lastListed, heq]
  checks := by
    intro other
    rw [AList.mem_erase]
    simp [and_comm]

theorem indexTaken_foldl (st : Reading) (pairs : List (Identifier × UInt32)) :
    IndexTaken pairs st (pairs.foldl Reading.list st) := by
  induction pairs generalizing st with
  | nil => exact IndexTaken.refl rfl rfl
  | cons pair pairs ih => exact (indexTaken_insert st pair.1 pair.2).append (ih _)

theorem updateFromIndexBlock_taken
    (htype : block.type = fileBlockIndex) (hres : res = .success ∨ res = .unrecognized)
    (hread : updateFromIndexBlock st block.buffer = .ok (res, st')) :
    IndexTaken block.listings st st' := by
  rw [updateFromIndexBlock] at hread
  rw [UnknownBlock.listings, if_pos htype]
  cases hnum : uint32At block.buffer 0 with
  | none =>
    rw [hnum] at hread
    cases hread
    exact IndexTaken.refl rfl rfl
  | some num =>
    rw [hnum] at hread
    rw [readIndex_state hread]
    exact indexTaken_foldl st _

/-- A public block leaves the identifiers and the unknown blocks alone. -/
theorem updateFromPublicBlock_frame
    (hread : updateFromPublicBlock g st buffer = .ok (res, st')) :
    st'.self.identifiers = st.self.identifiers ∧ st'.checks = st.checks ∧
      st'.self.unknowns = st.self.unknowns ∧ res ≠ .unrecognized := by
  rw [updateFromPublicBlock] at hread
  split at hread
  · cases hread
    exact ⟨rfl, rfl, rfl, by decide⟩
  · obtain ⟨⟨res', publics⟩, hupdate, hread⟩ := bind_eq_ok.1 hread
    cases hread
    exact ⟨rfl, rfl, rfl, updateEntriesFromBlock_result hupdate⟩

/-- So does a private block; without a login it is not understood. -/
theorem updateFromPrivateBlock_frame
    (hread : updateFromPrivateBlock g st buffer login = .ok (res, st')) :
    st'.self.identifiers = st.self.identifiers ∧ st'.checks = st.checks ∧
      st'.self.unknowns = st.self.unknowns ∧ (res = .unrecognized ↔ login = none) := by
  cases login with
  | none =>
    cases hread
    exact ⟨rfl, rfl, rfl, by simp⟩
  | some l =>
    rw [updateFromPrivateBlock] at hread
    obtain ⟨plain, -, hread⟩ := bind_eq_ok.1 hread
    cases plain with
    | none =>
      cases hread
      exact ⟨rfl, rfl, rfl, by simp⟩
    | some custom =>
      dsimp only at hread
      rw [updateFromDecrypted] at hread
      split at hread
      · cases hread
        exact ⟨rfl, rfl, rfl, by simp⟩
      · obtain ⟨⟨res', privates⟩, hupdate, hread⟩ := bind_eq_ok.1 hread
        cases hread
        have hres := updateEntriesFromBlock_result hupdate
        exact ⟨rfl, rfl, rfl, by simp [hres]⟩

theorem updateFromBlock_taken
    (hres : res = .success ∨ res = .unrecognized)
    (hread : updateFromBlock g login block.type block.buffer st = .ok (res, st')) :
    IndexTaken block.listings st st' := by
  rw [updateFromBlock] at hread
  split at hread
  · rename_i htype
    exact updateFromIndexBlock_taken htype hres hread
  · rename_i hindex
    rw [listings_eq_nil hindex]
    split at hread
    · obtain ⟨hids, hchecks, -⟩ := updateFromPrivateBlock_frame hread
      exact IndexTaken.refl hids hchecks
    · split at hread
      · obtain ⟨hids, hchecks, -⟩ := updateFromPublicBlock_frame hread
        exact IndexTaken.refl hids hchecks
      · cases hread
        exact IndexTaken.refl rfl rfl

theorem updateFromAnyBlock_taken
    (hread : updateFromAnyBlock g login block.type block.buffer st = .ok (.success, st')) :
    IndexTaken block.listings st st' := by
  rcases updateFromAnyBlock_success hread with hblock | ⟨mid, hblock, rfl⟩
  · exact updateFromBlock_taken (.inl rfl) hblock
  · have h := updateFromBlock_taken (.inr rfl) hblock
    exact ⟨h.identifiers, h.checks⟩

theorem processes_taken
    (h : Processes (updateFromAnyBlock g login) blocks st st') :
    IndexTaken (blocks.flatMap UnknownBlock.listings) st st' := by
  induction blocks generalizing st with
  | nil =>
    cases h
    exact IndexTaken.refl rfl rfl
  | cons block blocks ih =>
    obtain ⟨mid, hblock, hrest⟩ := h
    rw [flatMap_cons]
    exact (updateFromAnyBlock_taken hblock).append (ih hrest)

/-- What comes after the blocks of a read that went well: the identifiers that were not seen are
removed, and a missing private table is put in place when there was no private block. -/
theorem finishRead_ok (st : Reading) (hin : ∀ id ∈ st.checks, st.self.identifiers.lookup id ≠ none) :
    ∃ r, Removed st.checks.keys { st.self with incomplete := false } r ∧
      finishRead st = .ok (.success,
        if r.privates = none ∧ r.privateSeen = false then { r with privates := some ∅ } else r) := by
  obtain ⟨r, hr, hremoved⟩ := removeIdentifiers_ok st.checks.keys_nodup
    { st.self with incomplete := false }
    (fun id hid => hin id (AList.mem_keys.2 hid))
  refine ⟨r, hremoved, ?_⟩
  rw [finishRead, hr, ok_bind]
  cases hpriv : r.privates with
  | none =>
    cases hseen : r.privateSeen with
    | false => rfl
    | true => rfl
  | some t => rfl

/-- After a read, the identifiers are those that the file lists. -/
theorem gkmMate2FileReadFd_identifiers {f r : GkmMate2File} {file : Bytes}
    (h : gkmMate2FileReadFd g f file login = .ok (.success, r))
    (id : Identifier) : r.identifiers.lookup id = fileIndex file id := by
  obtain ⟨st, hparse, hfinish⟩ := gkmMate2FileReadFd_eq_success.1 h
  rw [parseFileBlocks_eq] at hparse
  have htaken : IndexTaken (listings file) (startRead f) st :=
    processes_taken (runBlocks_success hparse)
  have hchecks : ∀ id, id ∈ st.checks ↔
      f.identifiers.lookup id ≠ none ∧ id ∉ (listings file).map Prod.fst := by
    intro id
    rw [htaken.checks, startRead, mem_checksOf, mem_iff_lookup]
  have hids : st.self.identifiers.lookup id =
      lastListed (listings file) id (f.identifiers.lookup id) := htaken.identifiers id
  obtain ⟨r', hremoved, hr'⟩ := finishRead_ok st (by
    intro other hmem
    obtain ⟨hold, hnot⟩ := (hchecks other).1 hmem
    rw [htaken.identifiers, lastListed_of_not_mem hnot]
    exact hold)
  rw [hr'] at hfinish
  have hr : r.identifiers = r'.identifiers := by
    cases hfinish
    split <;> rfl
  rw [hr, hremoved.identifiers, fileIndex]
  by_cases hlisted : id ∈ (listings file).map Prod.fst
  · rw [if_neg]
    · rw [lastListed_of_mem hlisted none (f.identifiers.lookup id)]
      exact hids
    · rw [← AList.mem_keys, hchecks]
      exact fun hmem => hmem.2 hlisted
  · rw [lastListed_of_not_mem hlisted]
    rw [lastListed_of_not_mem hlisted] at hids
    split
    · rfl
    · rename_i hmem
      rw [← AList.mem_keys, hchecks, not_and, not_not] at hmem
      show st.self.identifiers.lookup id = none
      rw [hids]
      by_contra hne
      exact hlisted (hmem hne)

end MateKeyring.Mate2
