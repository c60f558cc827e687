import MateKeyring.Mate2.Blocks

/-!
# Rewriting a locked keystore

Without a login the private block of a keystore cannot be read. It is kept as an unknown block and
written back where its type puts it, and the index is written from the identifiers in memory. So the
private block survives changes to the public section, and the private identifiers stay listed, unless
`gkm_mate2_file_create_entry` is given one of them for the public section.
-/

set_option autoImplicit false

namespace MateKeyring.Mate2

open Lib Egg List

variable {file : Bytes} {f : GkmMate2File} {g : Gcrypt} {block : UnknownBlock}
  {blocks : List UnknownBlock} {st st' : Reading} {nonce : Nonce}

/-- The private blocks of a file. -/
def privateBlocks (file : Bytes) : List UnknownBlock :=
  (fileBlocks file).1.filter fun block => block.type = fileBlockPrivate

/-! ## The blocks that are kept -/

/-- A read without a login keeps these blocks on the list of the unknown ones. -/
structure Keeps (block : UnknownBlock) (unknowns unknowns' : List UnknownBlock) : Prop where
  members : ∀ b ∈ unknowns', b ∈ unknowns ∨ (b = block ∧ b.Opaque)
  privates : unknowns'.filter (fun b => b.type = fileBlockPrivate) =
    ([block].filter fun b => b.type = fileBlockPrivate) ++
      unknowns.filter fun b => b.type = fileBlockPrivate

theorem keeps_nothing (htype : block.type ≠ fileBlockPrivate) (unknowns : List UnknownBlock) :
    Keeps block unknowns unknowns where
  members := fun _ hmem => .inl hmem
  privates := by simp [htype]

theorem keeps_block (hkept : block.Opaque) (unknowns : List UnknownBlock) :
    Keeps block unknowns (block :: unknowns) where
  members := by
    intro b hmem
    rcases mem_cons.1 hmem with rfl | hmem
    · exact .inr ⟨rfl, hkept⟩
    · exact .inl hmem
  privates := by
    by_cases htype : block.type = fileBlockPrivate
    · simp [htype]
    · simp [htype]

theorem uint32At_eq_none_iff {bs : Bytes} : uint32At bs 0 = none ↔ bs.length < 4 := by
  rw [uint32At, Option.map_eq_none_iff, BigEndian.readAt_eq_none_iff]

theorem updateFromBlock_keeps {res : GkmDataResult}
    (hread : updateFromBlock g none block.type block.buffer st = .ok (res, st')) :
    st'.self.unknowns = st.self.unknowns ∧ (res = .unrecognized → block.Opaque) ∧
      (res = .success → block.type ≠ fileBlockPrivate) := by
  rw [updateFromBlock] at hread
  split at hread
  · rename_i hindex
    rw [updateFromIndexBlock] at hread
    cases hnum : uint32At block.buffer 0 with
    | none =>
      rw [hnum] at hread
      cases hread
      refine ⟨rfl, fun _ => .inr (.inl ⟨hindex, uint32At_eq_none_iff.1 hnum⟩), ?_⟩
      intro hres
      cases hres
    | some num =>
      rw [hnum] at hread
      refine ⟨(readIndex_read hread).unknowns, fun hres => absurd hres (readIndex_result hread), ?_⟩
      intro _
      rw [hindex]
      decide
  · rename_i hindex
    split at hread
    · rename_i hprivate
      obtain ⟨-, -, hunknowns, hres⟩ := updateFromPrivateBlock_frame hread
      refine ⟨hunknowns, fun _ => .inr (.inr hprivate), ?_⟩
      intro hsuccess
      rw [hsuccess] at hres
      exact absurd (hres.2 rfl) (by decide)
    · rename_i hprivate
      split at hread
      · obtain ⟨-, -, hunknowns, hres⟩ := updateFromPublicBlock_frame hread
        exact ⟨hunknowns, fun h => absurd h hres, fun _ => hprivate⟩
      · rename_i hpublic
        cases hread
        exact ⟨rfl, fun _ => .inl ⟨hindex, hprivate, hpublic⟩, fun _ => hprivate⟩

theorem updateFromAnyBlock_keeps
    (hread : updateFromAnyBlock g none block.type block.buffer st = .ok (.success, st')) :
    Keeps block st.self.unknowns st'.self.unknowns := by
  rcases updateFromAnyBlock_success hread with hblock | ⟨mid, hblock, rfl⟩
  · obtain ⟨hunknowns, -, htype⟩ := updateFromBlock_keeps hblock
    rw [hunknowns]
    exact keeps_nothing (htype rfl) _
  · obtain ⟨hunknowns, hkept, -⟩ := updateFromBlock_keeps hblock
    dsimp only
    rw [hunknowns]
    exact keeps_block (hkept rfl) _

theorem processes_keeps (h : Processes (updateFromAnyBlock g none) blocks st st') :
    (∀ b ∈ st'.self.unknowns, b ∈ st.self.unknowns ∨ (b ∈ blocks ∧ b.Opaque)) ∧
      st'.self.unknowns.filter (fun b => b.type = fileBlockPrivate) =
        (blocks.filter fun b => b.type = fileBlockPrivate).reverse ++
          st.self.unknowns.filter fun b => b.type = fileBlockPrivate := by
  induction blocks generalizing st with
  | nil =>
    cases h
    exact ⟨fun _ hmem => .inl hmem, by simp⟩
  | cons block blocks ih =>
    obtain ⟨mid, hblock, hrest⟩ := h
    have hkeeps := updateFromAnyBlock_keeps hblock
    obtain ⟨hmembers, hprivates⟩ := ih hrest
    constructor
    · intro b hmem
      rcases hmembers b hmem with hmem | ⟨hmem, hkept⟩
      · rcases hkeeps.members b hmem with hmem | ⟨rfl, hkept⟩
        · exact .inl hmem
        · exact .inr ⟨mem_cons_self, hkept⟩
      · exact .inr ⟨mem_cons_of_mem _ hmem, hkept⟩
    · rw [hprivates, hkeeps.privates]
      by_cases htype : block.type = fileBlockPrivate
      · simp [htype]
      · simp [htype]

/-! ## The size of the blocks in a file -/

theorem eggBufferDecodeUint32_lt (ptr : Bytes) : eggBufferDecodeUint32 ptr < 2 ^ 32 := by
  have h₀ := (ptr.getD 0 0).toNat_lt
  have h₁ := (ptr.getD 1 0).toNat_lt
  have h₂ := (ptr.getD 2 0).toNat_lt
  have h₃ := (ptr.getD 3 0).toNat_lt
  rw [eggBufferDecodeUint32]
  omega

theorem nextBlock_size {input buffer rest : Bytes} {type : UInt32}
    (h : nextBlock input = .block type buffer rest) : buffer.length + 8 < 2 ^ 32 := by
  rw [nextBlock] at h
  split at h
  · cases h
  · rename_i header tail hheader
    have hlt := eggBufferDecodeUint32_lt header
    rw [blockOfLength] at h
    split at h
    · cases h
    · split at h
      · cases h
      · rename_i hbytes
        cases h
        rw [readAllBytes] at hbytes
        split at hbytes
        · cases hbytes
          rw [length_take]
          omega
        · cases hbytes

theorem splitBlocks_size (fuel : Nat) (input : Bytes) :
    ∀ block ∈ (splitBlocks fuel input).1, block.buffer.length + 8 < 2 ^ 32 := by
  induction fuel generalizing input with
  | zero =>
    intro block hblock
    cases hblock
  | succ fuel ih =>
    rw [splitBlocks]
    cases hnext : nextBlock input with
    | endOfFile =>
      intro block hblock
      cases hblock
    | invalid =>
      intro block hblock
      cases hblock
    | block type buffer rest =>
      intro block hblock
      rcases mem_cons.1 hblock with rfl | hblock
      · exact nextBlock_size hnext
      · exact ih rest block hblock

theorem fileBlocks_size (file : Bytes) :
    ∀ block ∈ (fileBlocks file).1, block.buffer.length + 8 < 2 ^ 32 := by
  rw [fileBlocks]
  split
  · intro block hblock
    cases hblock
  · split
    · intro block hblock
      cases hblock
    · exact splitBlocks_size _ _

/-- Blocks that stand one after the other are found again. -/
theorem splitBlocks_frames (hsize : ∀ block ∈ blocks, block.buffer.length + 8 < 2 ^ 32) {fuel : Nat}
    (hfuel : blocks.length < fuel) :
    splitBlocks fuel (blocks.flatMap frameBytes) = (blocks, .success) := by
  induction blocks generalizing fuel with
  | nil =>
    obtain ⟨fuel, rfl⟩ : ∃ n, fuel = n + 1 := ⟨fuel - 1, by omega⟩
    rfl
  | cons block blocks ih =>
    obtain ⟨fuel, rfl⟩ : ∃ n, fuel = n + 1 := ⟨fuel - 1, by omega⟩
    rw [flatMap_cons, splitBlocks, nextBlock_frame (hsize block mem_cons_self)]
    dsimp only
    rw [ih (forall_mem_cons.1 hsize).2 (by simpa using hfuel)]

theorem fileBlocks_frames (hsize : ∀ block ∈ blocks, block.buffer.length + 8 < 2 ^ 32) :
    fileBlocks (fileHeader ++ blocks.flatMap frameBytes) = (blocks, .success) := by
  have hfuel : blocks.length < (blocks.flatMap frameBytes).length + 1 := by
    have hle := length_le_length_flatMap (f := frameBytes) blocks (by
      intro block
      simp only [frameBytes, length_append, BigEndian.length_encode]
      omega)
    omega
  rw [fileBlocks, readAllBytes_append rfl]
  dsimp only
  rw [if_neg (by simp), splitBlocks_frames hsize hfuel]

/-! ## The state of a locked store -/

/-- A store that was read without a login: the private blocks of the file are kept, and its private
identifiers are listed. -/
structure LockedStore (file : Bytes) (f : GkmMate2File) : Prop where
  privates : f.privates = none
  unknowns : ∀ b ∈ f.unknowns, b.Opaque ∧ b.buffer.length + 8 < 2 ^ 32
  kept : f.unknowns.filter (fun b => b.type = fileBlockPrivate) = (privateBlocks file).reverse
  listed : ∀ id, fileIndex file id = some sectionPrivate →
    f.identifiers.lookup id = some sectionPrivate

theorem exists_of_privateBlocks (h : privateBlocks file ≠ []) :
    ∃ block ∈ (fileBlocks file).1, block.type = fileBlockPrivate := by
  obtain ⟨block, hblock⟩ := exists_mem_of_ne_nil _ h
  obtain ⟨hmem, htype⟩ := mem_filter.1 hblock
  exact ⟨block, hmem, by simpa using htype⟩

theorem lockedStore_of_read {f₀ f : GkmMate2File}
    (hread : gkmMate2FileReadFd g f₀ file none = .ok (.success, f)) (hprivate : privateBlocks file ≠ []) :
    LockedStore file f := by
  have hids := gkmMate2FileReadFd_identifiers hread
  obtain ⟨st, hparse, hfinish⟩ := gkmMate2FileReadFd_eq_success.1 hread
  have hfileread := parseFileBlocks_read hparse
  have hblock := exists_of_privateBlocks hprivate
  rw [parseFileBlocks_eq] at hparse
  have hprocesses := runBlocks_success hparse
  obtain ⟨hmembers, hfilter⟩ := processes_keeps hprocesses
  have htaken := processes_taken hprocesses
  obtain ⟨r, hremoved, hr⟩ := finishRead_ok st (by
    intro id hmem
    obtain ⟨hold, hnot⟩ := (htaken.checks id).1 hmem
    rw [htaken.identifiers, lastListed_of_not_mem hnot]
    exact mem_iff_lookup.1 (mem_checksOf.1 hold))
  have hseen : r.privateSeen = true := hremoved.seen.trans (hfileread.seen hblock)
  rw [hr, if_neg (by simp [hseen])] at hfinish
  cases hfinish
  have hunknowns : f.unknowns = st.self.unknowns := hremoved.unknowns
  constructor
  · exact hremoved.locked.2 (hfileread.locked rfl hblock)
  · intro b hb
    rw [hunknowns] at hb
    rcases hmembers b hb with hold | ⟨hmem, hkept⟩
    · cases hold
    · exact ⟨hkept, fileBlocks_size file b hmem⟩
  · rw [hunknowns, hfilter, privateBlocks]
    exact append_nil _
  · intro id hlisted
    rw [hids, hlisted]

/-- A read that fails leaves a store that is not written. -/
theorem incomplete_of_read {f₀ f : GkmMate2File} {login : Option GkmSecret} {res : GkmDataResult}
    (hread : gkmMate2FileReadFd g f₀ file login = .ok (res, f)) (hres : res ≠ .success) :
    f.incomplete = true := by
  rw [gkmMate2FileReadFd_eq] at hread
  obtain ⟨⟨res', st⟩, -, hread⟩ := bind_eq_ok.1 hread
  rw [endRead] at hread
  split at hread
  · rw [finishRead] at hread
    obtain ⟨self, -, hread⟩ := bind_eq_ok.1 hread
    split at hread
    · cases hread
      exact absurd rfl hres
    · cases hread
      exact absurd rfl hres
  · cases hread
    rfl

/-! ## Operations on the public section -/

/-- The operations on the public section. -/
inductive PublicOp where
  | create (identifier : Identifier)
  | destroy (identifier : Identifier)
  | write (identifier : Identifier) (type : UInt64) (value : Bytes)

/-- An operation: its result and the file after it. -/
def PublicOp.run : PublicOp → GkmMate2File → GkmDataResult × GkmMate2File
  | .create identifier, self => gkmMate2FileCreateEntry self identifier sectionPublic
  | .destroy identifier, self => gkmMate2FileDestroyEntry self identifier
  | .write identifier type value, self => gkmMate2FileWriteValue self identifier type value

/-- An entry is not created for an identifier of the private section, unless this is refused. -/
def PublicOp.Spares : PublicOp → GkmMate2File → Prop
  | .create identifier, f =>
    f.identifiers.lookup identifier = some sectionPrivate → identifier ∈ f.publics
  | .destroy _, _ => True
  | .write _ _ _, _ => True

/-- One operation that spares the private identifiers. -/
def SparingStep (f f' : GkmMate2File) : Prop :=
  ∃ op : PublicOp, op.Spares f ∧ (op.run f).2 = f'

/-- What the operations on the public section leave as it is. -/
structure Spared (f f' : GkmMate2File) : Prop where
  privates : f'.privates = f.privates
  unknowns : f'.unknowns = f.unknowns
  incomplete : f'.incomplete = f.incomplete
  listed : ∀ id, f.identifiers.lookup id = some sectionPrivate →
    f'.identifiers.lookup id = some sectionPrivate

theorem Spared.refl (f : GkmMate2File) : Spared f f := ⟨rfl, rfl, rfl, fun _ hlook => hlook⟩

theorem sectionEntries_public (f : GkmMate2File) :
    sectionEntries f sectionPublic = some f.publics := rfl

theorem create_spared {id : Identifier} (h : (PublicOp.create id).Spares f) :
    Spared f (gkmMate2FileCreateEntry f id sectionPublic).2 := by
  rw [gkmMate2FileCreateEntry, sectionEntries_public]
  dsimp only
  split
  · exact Spared.refl f
  · rename_i hnew
    refine ⟨rfl, rfl, rfl, ?_⟩
    intro other hlook
    have hne : other ≠ id := by
      rintro rfl
      exact hnew (AList.lookup_isSome.2 (h hlook))
    show (f.identifiers.insert id sectionPublic).lookup other = _
    rw [AList.lookup_insert_ne hne]
    exact hlook

theorem destroy_spared (hlocked : f.privates = none) (id : Identifier) :
    Spared f (gkmMate2FileDestroyEntry f id).2 := by
  rw [gkmMate2FileDestroyEntry, gkmMate2FileLookupEntry]
  cases hlook : f.identifiers.lookup id with
  | none => exact Spared.refl f
  | some sect =>
    dsimp only
    by_cases hsect : sect = sectionPrivate
    · rw [sectionEntries, if_pos hsect, hlocked]
      exact Spared.refl f
    · rw [sectionEntries, if_neg hsect]
      have hlisted : ∀ other, f.identifiers.lookup other = some sectionPrivate →
          (f.identifiers.erase id).lookup other = some sectionPrivate := by
        intro other hother
        have hne : other ≠ id := by
          rintro rfl
          rw [hlook] at hother
          exact hsect (Option.some.inj hother)
        rw [AList.lookup_erase_ne hne]
        exact hother
      dsimp only
      split
      · exact ⟨rfl, rfl, rfl, hlisted⟩
      · rw [setSectionEntries, if_neg hsect]
        exact ⟨rfl, rfl, rfl, hlisted⟩

theorem write_spared (hlocked : f.privates = none) (id : Identifier) (type : UInt64) (value : Bytes) :
    Spared f (gkmMate2FileWriteValue f id type value).2 := by
  rw [gkmMate2FileWriteValue, identifierToAttributes]
  cases hlook : f.identifiers.lookup id with
  | none => exact Spared.refl f
  | some sect =>
    dsimp only
    by_cases hsect : sect = sectionPrivate
    · rw [sectionEntries, if_pos hsect, hlocked]
      exact Spared.refl f
    · rw [sectionEntries, if_neg hsect]
      dsimp only
      cases f.publics.lookup id with
      | none => exact Spared.refl f
      | some attributes =>
        dsimp only
        rw [setSectionEntries, if_neg hsect]
        exact ⟨rfl, rfl, rfl, fun _ hlook => hlook⟩

theorem LockedStore.spared {f f' : GkmMate2File} (h : LockedStore file f) (hspared : Spared f f') :
    LockedStore file f' where
  privates := hspared.privates.trans h.privates
  unknowns := by
    rw [hspared.unknowns]
    exact h.unknowns
  kept := by
    rw [hspared.unknowns]
    exact h.kept
  listed := fun id hlisted => hspared.listed id (h.listed id hlisted)

theorem LockedStore.step {file : Bytes} {f f' : GkmMate2File} (h : LockedStore file f)
    (hstep : SparingStep f f') : LockedStore file f' := by
  obtain ⟨op, hspares, rfl⟩ := hstep
  cases op with
  | create id => exact h.spared (create_spared hspares)
  | destroy id => exact h.spared (destroy_spared h.privates id)
  | write id type value => exact h.spared (write_spared h.privates id type value)

theorem LockedStore.run {f f' : GkmMate2File} (h : LockedStore file f)
    (hrun : Relation.ReflTransGen SparingStep f f') : LockedStore file f' := by
  induction hrun with
  | refl => exact h
  | tail _ hstep ih => exact ih.step hstep

theorem setSectionEntries_incomplete (f : GkmMate2File) (sect : UInt32) (entries : Entries) :
    (setSectionEntries f sect entries).incomplete = f.incomplete := by
  rw [setSectionEntries]
  split
  · rfl
  · rfl

/-- Only a read sets or clears the flag. -/
theorem PublicOp.run_incomplete (op : PublicOp) (f : GkmMate2File) :
    (op.run f).2.incomplete = f.incomplete := by
  cases op with
  | create id =>
    rw [PublicOp.run, gkmMate2FileCreateEntry]
    split
    · rfl
    · split
      · rfl
      · exact setSectionEntries_incomplete _ _ _
  | destroy id =>
    rw [PublicOp.run, gkmMate2FileDestroyEntry]
    split
    · rfl
    · split
      · rfl
      · dsimp only
        split
        · rfl
        · exact setSectionEntries_incomplete _ _ _
  | write id type value =>
    rw [PublicOp.run, gkmMate2FileWriteValue]
    split
    · rfl
    · exact setSectionEntries_incomplete _ _ _

theorem run_incomplete {f f' : GkmMate2File} (h : Relation.ReflTransGen SparingStep f f') :
    f'.incomplete = f.incomplete := by
  induction h with
  | refl => rfl
  | tail _ hstep ih =>
    obtain ⟨op, -, rfl⟩ := hstep
    rw [PublicOp.run_incomplete, ih]

/-! ## The file that is written -/

/-- What is written without a login is within the limits of the format. -/
structure GkmMate2File.PublicFits (g : Gcrypt) (f : GkmMate2File) : Prop where
  ids : ShortIds f.identifiers
  publicIds : ShortIds f.publics
  index : (indexBytes f.identifiers).length + 8 < 2 ^ 32
  publics : (blockBytes g f.publics).length + 8 < 2 ^ 32

/-- Blocks of one type keep their order when the blocks are sorted. -/
theorem filter_sortUnknownsByType (unknowns : List UnknownBlock) (type : UInt32) :
    (sortUnknownsByType unknowns).filter (fun b => b.type = type) =
      unknowns.filter fun b => b.type = type := by
  have hperm : (sortUnknownsByType unknowns).Perm unknowns := perm_insertionSort _ _
  have hpairwise : (unknowns.filter fun b => b.type = type).Pairwise fun a b => a.type ≤ b.type := by
    apply pairwise_of_forall_mem_list
    intro a ha b hb
    have htype : a.type = type := by simpa using (mem_filter.1 ha).2
    have htype' : b.type = type := by simpa using (mem_filter.1 hb).2
    rw [htype, htype']
    exact UInt32.le_refl type
  have hsub := (sublist_insertionSort hpairwise filter_sublist).filter
    fun b => b.type = type
  rw [filter_filter] at hsub
  simp only [Bool.and_self] at hsub
  exact (hsub.eq_of_length (hperm.filter _).length_eq.symm).symm

/-- A block that is kept does not list anything. -/
theorem UnknownBlock.Opaque.listings_eq (h : block.Opaque) : block.listings = [] := by
  rcases h with ⟨hindex, -, -⟩ | ⟨hindex, hlen⟩ | hprivate
  · exact listings_eq_nil hindex
  · rw [UnknownBlock.listings, if_pos hindex, uint32At_eq_none_iff.2 hlen]
  · apply listings_eq_nil
    rw [hprivate]
    decide

theorem flatMap_listings_eq_nil (h : ∀ b ∈ blocks, b.Opaque) :
    blocks.flatMap UnknownBlock.listings = [] := by
  rw [flatMap_eq_nil_iff]
  exact fun b hb => (h b hb).listings_eq

/-- The index block lists the identifiers. -/
theorem lastListed_index {identifiers : Identifiers}
    (hids : ShortIds identifiers) (hlen : (indexBytes identifiers).length + 8 < 2 ^ 32)
    (id : Identifier) :
    lastListed (UnknownBlock.listings { type := fileBlockIndex, buffer := indexBytes identifiers })
      id none = identifiers.lookup id := by
  have hread : updateFromIndexBlock (startRead gkmMate2FileNew) (indexBytes identifiers) =
      .ok (.success, indexed (startRead gkmMate2FileNew) identifiers.entries) :=
    updateFromIndexBlock_index hids (by omega) rfl
  have htaken : IndexTaken
      (UnknownBlock.listings { type := fileBlockIndex, buffer := indexBytes identifiers })
      (startRead gkmMate2FileNew) (indexed (startRead gkmMate2FileNew) identifiers.entries) :=
    updateFromIndexBlock_taken rfl (.inl rfl) hread
  have hlook : (indexed (startRead gkmMate2FileNew) identifiers.entries).self.identifiers.lookup id =
      identifiers.lookup id := lookup_indexed rfl identifiers id
  rw [← hlook]
  exact (htaken.identifiers id).symm

/-- Without a login nothing is made of the private entries that are not there. -/
theorem prepared_locked {own : List UnknownBlock} (hlocked : f.privates = none)
    (h : Prepared g f none nonce fileBlockPrivate own) : own = [] := by
  have hprepare : prepareBlock g f none nonce fileBlockPrivate (eggBufferInitFull 8192 gRealloc) =
      .ok (.unrecognized, eggBufferInitFull 8192 gRealloc) := by
    rw [prepareBlock, if_neg (by decide), if_pos rfl, writePrivateToBlock.eq_def, hlocked]
  rcases h with ⟨b, hb, -⟩ | ⟨b, -, hown⟩
  · rw [hprepare] at hb
    cases hb
  · exact hown

/-- The index block of a file. -/
def indexBlock (f : GkmMate2File) : UnknownBlock :=
  { type := fileBlockIndex, buffer := indexBytes f.identifiers }

/-- The public block of a file. -/
def publicBlock (g : Gcrypt) (f : GkmMate2File) : UnknownBlock :=
  { type := fileBlockPublic, buffer := blockBytes g f.publics }

/-- The blocks that are written: the index, the public block, and the unknown ones around them. -/
theorem LockedStore.write_blocks (hg : g.Sound) (h : LockedStore file f) (hfits : f.PublicFits g)
    {fd fd' : OutFd} (hfd : fd.written = [])
    (hwrite : gkmMate2FileWriteFd g f fd none nonce = .ok (.success, fd')) :
    ∃ u v w, sortUnknownsByType f.unknowns = u ++ (v ++ w) ∧
      (fileBlocks fd'.written).1 = u ++ (indexBlock f :: (v ++ (publicBlock g f :: w))) := by
  obtain ⟨-, u₁, u₂, u₃, u₄, own₁, own₂, own₃, hsorted, h₁, h₂, h₃, hwritten⟩ :=
    gkmMate2FileWriteFd_ok hwrite
  obtain ⟨-, -, rfl⟩ := prepared_public hg hfits.publicIds h₃
  cases prepared_index hfits.ids h₁
  cases prepared_locked h.privates h₂
  have hunk : ∀ b, b ∈ u₁ ∨ b ∈ u₂ ∨ b ∈ u₃ ∨ b ∈ u₄ → b.buffer.length + 8 < 2 ^ 32 := by
    intro b hb
    refine (h.unknowns b (mem_sortUnknownsByType.1 ?_)).2
    rw [hsorted]
    simpa only [mem_append] using hb
  have hsize : ∀ b ∈ u₁ ++ (indexBlock f :: ((u₂ ++ u₃) ++ (publicBlock g f :: u₄))),
      b.buffer.length + 8 < 2 ^ 32 := by
    intro b hb
    simp only [mem_append, mem_cons] at hb
    rcases hb with hb | rfl | (hb | hb) | rfl | hb
    · exact hunk b (.inl hb)
    · exact hfits.index
    · exact hunk b (.inr (.inl hb))
    · exact hunk b (.inr (.inr (.inl hb)))
    · exact hfits.publics
    · exact hunk b (.inr (.inr (.inr hb)))
  refine ⟨u₁, u₂ ++ u₃, u₄, by rw [hsorted, append_assoc], ?_⟩
  have hframes : fd'.written = fileHeader ++
      (u₁ ++ (indexBlock f :: ((u₂ ++ u₃) ++ (publicBlock g f :: u₄)))).flatMap frameBytes := by
    rw [hwritten, hfd]
    simp [indexBlock, publicBlock]
  rw [hframes, fileBlocks_frames hsize]

theorem indexBlock_type (f : GkmMate2File) : (indexBlock f).type = fileBlockIndex := rfl

theorem publicBlock_type (g : Gcrypt) (f : GkmMate2File) :
    (publicBlock g f).type = fileBlockPublic := rfl

section

variable {u v w : List UnknownBlock}
  (hblocks : (fileBlocks file).1 = u ++ (indexBlock f :: (v ++ (publicBlock g f :: w))))

include hblocks

/-- What the written file lists is what its index block lists. -/
theorem listings_of_blocks (hkept : ∀ b, b ∈ u ∨ b ∈ v ∨ b ∈ w → b.Opaque) : listings file =
    (indexBlock f).listings := by
  have hu : u.flatMap UnknownBlock.listings = [] :=
    flatMap_listings_eq_nil fun b hb => hkept b (.inl hb)
  have hv : v.flatMap UnknownBlock.listings = [] :=
    flatMap_listings_eq_nil fun b hb => hkept b (.inr (.inl hb))
  have hw : w.flatMap UnknownBlock.listings = [] :=
    flatMap_listings_eq_nil fun b hb => hkept b (.inr (.inr hb))
  have hown : (publicBlock g f).listings = [] := by
    apply listings_eq_nil
    rw [publicBlock_type]
    decide
  rw [listings, hblocks, flatMap_append, flatMap_cons, flatMap_append,
    flatMap_cons, hu, hv, hw, hown, nil_append, nil_append, nil_append,
    append_nil]

/-- The private blocks of the written file are those that were kept. -/
theorem privateBlocks_of_blocks :
    privateBlocks file = (u ++ (v ++ w)).filter fun b => b.type = fileBlockPrivate := by
  have hindex : ¬ (indexBlock f).type = fileBlockPrivate := by
    rw [indexBlock_type]
    decide
  have hpublic : ¬ (publicBlock g f).type = fileBlockPrivate := by
    rw [publicBlock_type]
    decide
  rw [privateBlocks, hblocks]
  simp only [filter_append, filter_cons, hindex, hpublic, decide_false,
    Bool.false_eq_true, if_false]

end

theorem LockedStore.write (hg : g.Sound) (h : LockedStore file f) (hfits : f.PublicFits g) {fd fd' : OutFd}
    (hfd : fd.written = []) (hwrite : gkmMate2FileWriteFd g f fd none nonce = .ok (.success, fd')) :
    privateBlocks fd'.written = (privateBlocks file).reverse ∧
      ∀ id, fileIndex file id = some sectionPrivate →
        fileIndex fd'.written id = some sectionPrivate := by
  obtain ⟨u, v, w, hsorted, hblocks⟩ := h.write_blocks hg hfits hfd hwrite
  have hkept : ∀ b, b ∈ u ∨ b ∈ v ∨ b ∈ w → b.Opaque := by
    intro b hb
    refine (h.unknowns b (mem_sortUnknownsByType.1 ?_)).1
    rw [hsorted]
    simpa only [mem_append] using hb
  constructor
  · rw [privateBlocks_of_blocks hblocks, ← h.kept, ← filter_sortUnknownsByType f.unknowns, hsorted]
  · intro id hlisted
    have hindex : lastListed (indexBlock f).listings id none = f.identifiers.lookup id :=
      lastListed_index hfits.ids hfits.index id
    rw [fileIndex, listings_of_blocks hblocks hkept, hindex]
    exact h.listed id hlisted

/-- After a read without a login and changes to the public section that spare the private
identifiers, what is written has the private blocks of the file as they were, and lists its private
identifiers for their section. -/
theorem locked_rewrite {g : Gcrypt} (hg : g.Sound) {f₀ f f' : GkmMate2File} {file : Bytes}
    {res : GkmDataResult} (hread : gkmMate2FileReadFd g f₀ file none = .ok (res, f))
    (hprivate : privateBlocks file ≠ []) (hrun : Relation.ReflTransGen SparingStep f f')
    (hfits : f'.PublicFits g) {nonce : Nonce} {fd fd' : OutFd} (hfd : fd.written = [])
    (hwrite : gkmMate2FileWriteFd g f' fd none nonce = .ok (.success, fd')) :
    privateBlocks fd'.written = (privateBlocks file).reverse ∧
      ∀ id, fileIndex file id = some sectionPrivate →
        fileIndex fd'.written id = some sectionPrivate := by
  have hres : res = .success := by
    by_contra hne
    have hincomplete := (gkmMate2FileWriteFd_ok hwrite).1
    rw [run_incomplete hrun, incomplete_of_read hread hne] at hincomplete
    cases hincomplete
  subst hres
  exact ((lockedStore_of_read hread hprivate).run hrun).write hg hfits hfd hwrite

section Sample

/-- The file after a read. -/
def fileOf (r : Checked (GkmDataResult × GkmMate2File)) : GkmMate2File :=
  ((resultOf r).map Prod.snd).getD gkmMate2FileNew

/-- The sample keystore, read without a login. -/
def lockedSample : GkmMate2File :=
  fileOf (gkmMate2FileReadFd sampleGcrypt gkmMate2FileNew sampleStore none)

theorem lockedSample_read :
    gkmMate2FileReadFd sampleGcrypt gkmMate2FileNew sampleStore none =
      .ok (.success, lockedSample) := by
  obtain ⟨⟨res, f⟩, h, hres⟩ := exists_of_resultOf
    (x := gkmMate2FileReadFd sampleGcrypt gkmMate2FileNew sampleStore none)
    (f := Prod.fst) (b := .success) (by decide +kernel)
  cases hres
  have hf : lockedSample = f := congrArg fileOf h
  rw [hf, h]

/-- `c.cer`. -/
def otherPublicId : Identifier := ⟨[99, 46, 99, 101, 114], by decide⟩

/-- The sample after an entry was created and destroyed again. -/
def rewrittenSample : GkmMate2File :=
  ((PublicOp.destroy otherPublicId).run ((PublicOp.create otherPublicId).run lockedSample).2).2

theorem rewrittenSample_run : Relation.ReflTransGen SparingStep lockedSample rewrittenSample := by
  have hcreate : SparingStep lockedSample ((PublicOp.create otherPublicId).run lockedSample).2 := by
    refine ⟨.create otherPublicId, ?_, rfl⟩
    intro hlook
    revert hlook
    decide +kernel
  have hdestroy : SparingStep ((PublicOp.create otherPublicId).run lockedSample).2
      rewrittenSample := ⟨.destroy otherPublicId, trivial, rfl⟩
  exact (Relation.ReflTransGen.single hcreate).tail hdestroy

theorem rewrittenSample_fits : rewrittenSample.PublicFits sampleGcrypt where
  ids := by
    rw [ShortIds]
    decide +kernel
  publicIds := by
    rw [ShortIds]
    decide +kernel
  index := by decide +kernel
  publics := by decide +kernel

/-- The locked sample is written back after a change, with its private block and with its private
identifier. -/
theorem locked_rewrite_sample : ∃ fd',
    gkmMate2FileWriteFd sampleGcrypt rewrittenSample emptyFd none sampleNonce =
        .ok (.success, fd') ∧
      privateBlocks sampleStore ≠ [] ∧
      privateBlocks fd'.written = (privateBlocks sampleStore).reverse ∧
      ∀ id, fileIndex sampleStore id = some sectionPrivate →
        fileIndex fd'.written id = some sectionPrivate := by
  obtain ⟨⟨res, fd'⟩, h, hres⟩ := exists_of_resultOf
    (x := gkmMate2FileWriteFd sampleGcrypt rewrittenSample emptyFd none sampleNonce)
    (f := Prod.fst) (b := .success) (by decide +kernel)
  cases hres
  have hprivate : privateBlocks sampleStore ≠ [] := by decide +kernel
  have hfd : emptyFd.written = [] := rfl
  have hrewrite := locked_rewrite sampleGcrypt_sound lockedSample_read hprivate
    rewrittenSample_run rewrittenSample_fits hfd h
  exact ⟨fd', h, hprivate, hrewrite⟩

/-- The private identifier of the sample is created in the public section, and loses its section in
the index. -/
theorem locked_rewrite_moves :
    ¬ ∀ (g : Gcrypt), g.Sound → ∀ (f₀ f : GkmMate2File) (file : Bytes) (res : GkmDataResult)
      (ops : List PublicOp) (nonce : Nonce) (fd fd' : OutFd),
      gkmMate2FileReadFd g f₀ file none = .ok (res, f) → privateBlocks file ≠ [] →
      fd.written = [] →
      gkmMate2FileWriteFd g (ops.foldl (fun f op => (op.run f).2) f) fd none nonce =
        .ok (.success, fd') →
      privateBlocks fd'.written = (privateBlocks file).reverse ∧
        ∀ id, fileIndex file id = some sectionPrivate →
          fileIndex fd'.written id = some sectionPrivate := by
  intro hall
  obtain ⟨⟨res, fd'⟩, h, hres⟩ := exists_of_resultOf
    (x := gkmMate2FileWriteFd sampleGcrypt
      ([PublicOp.create samplePrivateId].foldl (fun f op => (op.run f).2) lockedSample) emptyFd
      none sampleNonce)
    (f := fun r => (r.1, fileIndex r.2.written samplePrivateId))
    (b := (.success, some sectionPublic)) (by decide +kernel)
  simp only [Prod.mk.injEq] at hres
  obtain ⟨rfl, hmoved⟩ := hres
  obtain ⟨-, hlisted⟩ := hall sampleGcrypt sampleGcrypt_sound gkmMate2FileNew lockedSample
    sampleStore .success [PublicOp.create samplePrivateId] sampleNonce emptyFd fd'
    lockedSample_read (by decide +kernel) rfl h
  have hprivate := hlisted samplePrivateId (by decide +kernel)
  rw [hmoved] at hprivate
  exact absurd hprivate (by decide)

end Sample

end MateKeyring.Mate2
