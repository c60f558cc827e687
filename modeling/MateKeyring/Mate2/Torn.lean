import MateKeyring.Mate2.Accesses

/-!
# Keystores that were cut off

A keystore file of which only the first bytes are left. `read_all_bytes` says with one result that the file
ended and that it was cut off; `parse_file_blocks` takes the failure for the end of the file at two places,
for the header of the file and for the header of a block, and for damage only at the third one, behind the
header of a block. `torn_rejected_iff` says which cuts are therefore noticed.
-/

set_option autoImplicit false

namespace MateKeyring.Mate2

open Lib Egg List

variable {input : Bytes} {file : Bytes}

/-! ## Boundaries -/

/-- The length that the block at an offset declares, with its header. -/
def declaredLength (file : Bytes) (s : Nat) : Nat := eggBufferDecodeUint32 (file.drop s)

/-- From one boundary of a file the blocks that follow lead to another one. -/
inductive Leads (file : Bytes) : Nat → Nat → Prop where
  | refl (s : Nat) : Leads file s s
  | block (s t : Nat) : s + 8 ≤ file.length → 8 ≤ declaredLength file s →
      s + declaredLength file s ≤ file.length → Leads file (s + declaredLength file s) t → Leads file s t

/-- A block of the file ends here, or its header does. -/
def Boundary (file : Bytes) (k : Nat) : Prop := Leads file fileHeader.length k

/-- The file is cut off behind the header of a block, and not all of the block is there. -/
def TornFrom (file : Bytes) (s k : Nat) : Prop :=
  ∃ t, Leads file s t ∧ t + 8 ≤ k ∧ (declaredLength file t < 8 ∨ k < t + declaredLength file t)

/-- The file is cut off inside of a block. -/
def InBlock (file : Bytes) (k : Nat) : Prop := TornFrom file fileHeader.length k

theorem Leads.le {s t : Nat} (h : Leads file s t) : s ≤ t := by
  induction h with
  | refl s => exact Nat.le_refl s
  | block s t _ hlong _ _ ih => omega

/-- The cut is inside of the block that starts here, or of a later one. -/
theorem tornFrom_iff {s k : Nat} (hk : k ≤ file.length) (hheader : s + 8 ≤ k) :
    TornFrom file s k ↔ declaredLength file s < 8 ∨ k < s + declaredLength file s ∨
      TornFrom file (s + declaredLength file s) k := by
  constructor
  · rintro ⟨t, hleads, hbefore, htorn⟩
    cases hleads with
    | refl =>
      rcases htorn with hshort | hcut
      · exact .inl hshort
      · exact .inr (.inl hcut)
    | block _ _ _ _ _ hmore => exact .inr (.inr ⟨t, hmore, hbefore, htorn⟩)
  · intro h
    rcases Nat.lt_or_ge (declaredLength file s) 8 with hshort | hlong
    · exact ⟨s, .refl s, hheader, .inl hshort⟩
    · rcases Nat.lt_or_ge k (s + declaredLength file s) with hcut | hwhole
      · exact ⟨s, .refl s, hheader, .inr hcut⟩
      · rcases h with hshort | hcut | ⟨t, hleads, hbefore, htorn⟩
        · omega
        · omega
        · exact ⟨t, .block s t (by omega) hlong (by omega) hleads, hbefore, htorn⟩

/-! ## The blocks of a file that was cut off -/

/-- Four bytes of the input are enough for a number. -/
theorem decodeUint32_take {bytes : Bytes} {n : Nat} (h : 4 ≤ n) :
    eggBufferDecodeUint32 (bytes.take n) = eggBufferDecodeUint32 bytes := by
  have hget : ∀ i < 4, (bytes.take n).getD i 0 = bytes.getD i 0 := by
    intro i hi
    rw [getD_eq_getElem?_getD, getD_eq_getElem?_getD, getElem?_take_of_lt (by omega)]
  rw [eggBufferDecodeUint32, eggBufferDecodeUint32, hget 0 (by decide), hget 1 (by decide),
    hget 2 (by decide), hget 3 (by decide)]

/-- What a round finds where there are eight bytes more. -/
theorem nextBlock_of_header (h : 8 ≤ input.length) :
    nextBlock input = blockOfLength (input.drop 8) (eggBufferDecodeUint32 (input.take 8))
      (UInt32.ofNat (eggBufferDecodeUint32 ((input.take 8).drop 4))) := by
  rw [nextBlock, readAllBytes, if_pos h]

theorem nextBlock_of_end (h : ¬ 8 ≤ input.length) : nextBlock input = .endOfFile := by
  rw [nextBlock, readAllBytes, if_neg h]

/-- Where the block is all there. -/
theorem blockOfLength_of_room {length : Nat} (type : UInt32) (hlong : ¬ length < 8)
    (hroom : length - 8 ≤ input.length) :
    blockOfLength input length type = .block type (input.take (length - 8)) (input.drop (length - 8)) := by
  rw [blockOfLength, if_neg hlong, readAllBytes, if_pos hroom]

theorem blockOfLength_of_cut {length : Nat} (type : UInt32) (hcut : length < 8 ∨ input.length < length - 8) :
    blockOfLength input length type = .invalid := by
  rw [blockOfLength]
  by_cases hshort : length < 8
  · rw [if_pos hshort]
  · rw [if_neg hshort, readAllBytes, if_neg (Nat.not_le.2 (hcut.resolve_left hshort))]

/-- The end is taken for that of the file unless the cut is inside of a block. -/
theorem splitBlocks_success_iff (file : Bytes) (fuel s k : Nat) (hk : k ≤ file.length) (hs : s ≤ k)
    (hfuel : k - s < fuel) :
    (splitBlocks fuel ((file.take k).drop s)).2 = .success ↔ ¬ TornFrom file s k := by
  induction fuel generalizing s with
  | zero => exact absurd hfuel (Nat.not_lt_zero _)
  | succ fuel ih =>
    have hlength : ((file.take k).drop s).length = k - s := by
      rw [length_drop, length_take, Nat.min_eq_left hk]
    rw [splitBlocks]
    by_cases hheader : 8 ≤ k - s
    · have hdeclared : eggBufferDecodeUint32 (((file.take k).drop s).take 8) = declaredLength file s := by
        rw [decodeUint32_take (by decide), drop_take, decodeUint32_take (by omega), declaredLength]
      have hrest : (((file.take k).drop s).drop 8).length = k - s - 8 := by
        rw [length_drop, hlength]
      rw [nextBlock_of_header (hlength ▸ hheader), hdeclared, tornFrom_iff hk (by omega)]
      clear hdeclared
      generalize declaredLength file s = len
      by_cases hshort : len < 8
      · rw [blockOfLength_of_cut _ (.inl hshort)]
        exact iff_of_false (fun h => by cases h) (not_not.2 (.inl hshort))
      · by_cases hcut : k < s + len
        · rw [blockOfLength_of_cut _ (.inr (by omega))]
          exact iff_of_false (fun h => by cases h) (not_not.2 (.inr (.inl hcut)))
        · have hdrop : ((((file.take k).drop s).drop 8).drop (len - 8)) = (file.take k).drop (s + len) := by
            rw [drop_drop, drop_drop]
            congr 1
            omega
          rw [blockOfLength_of_room _ hshort (by omega), hdrop]
          have hlater := ih (s + len) (by omega) (by omega)
          rw [← or_assoc, not_or]
          exact hlater.trans ⟨fun hnot => ⟨not_or.2 ⟨hshort, hcut⟩, hnot⟩, And.right⟩
    · rw [nextBlock_of_end (hlength ▸ hheader)]
      refine ⟨fun _ => ?_, fun _ => rfl⟩
      rintro ⟨t, hleads, hbefore, -⟩
      have := hleads.le
      omega

/-- The blocks of a file with a good header, and how it ends. -/
theorem fileBlocks_success_iff (hfile : file.take fileHeader.length = fileHeader) {k : Nat}
    (hk : k ≤ file.length) : (fileBlocks (file.take k)).2 = .success ↔ ¬ InBlock file k := by
  rw [fileBlocks, readAllBytes, length_take, Nat.min_eq_left hk]
  by_cases hheader : fileHeader.length ≤ k
  · rw [if_pos hheader, take_take, Nat.min_eq_left hheader, hfile]
    dsimp only
    rw [if_neg (not_not.2 rfl), length_drop, length_take, Nat.min_eq_left hk]
    exact splitBlocks_success_iff file _ _ k hk hheader (Nat.lt_succ_self _)
  · rw [if_neg hheader]
    refine ⟨fun _ => ?_, fun _ => rfl⟩
    rintro ⟨t, hleads, hbefore, -⟩
    have := hleads.le
    omega

/-! ## Reading it -/

section

variable {σ : Type} {f : UInt32 → Bytes → σ → Checked (GkmDataResult × σ)} {last : GkmDataResult}
  {blocks : List UnknownBlock} {st st' : σ}

/-- A run that succeeds comes to a good end. -/
theorem last_of_runBlocks (h : runBlocks f last blocks st = .ok (.success, st')) : last = .success := by
  induction blocks generalizing st with
  | nil => exact congrArg Prod.fst (Except.ok.inj h)
  | cons block blocks ih =>
    rw [runBlocks] at h
    obtain ⟨⟨res, mid⟩, -, h⟩ := bind_eq_ok.1 h
    cases res with
    | success => exact ih h
    | failure => cases h
    | locked => cases h
    | unrecognized => cases h

theorem runBlocks_of_processes (h : Processes f blocks st st') :
    runBlocks f last blocks st = .ok (last, st') := by
  induction blocks generalizing st with
  | nil =>
    cases h
    rfl
  | cons block blocks ih =>
    obtain ⟨mid, hblock, hrest⟩ := h
    rw [runBlocks, hblock, ok_bind]
    exact ih hrest

end

/-- A read succeeds if the file ends well and its blocks are read. -/
theorem gkmMate2FileReadFd_success_iff (g : Gcrypt) (self : GkmMate2File) (file : Bytes)
    (login : Option GkmSecret) :
    (∃ r, gkmMate2FileReadFd g self file login = .ok (.success, r)) ↔
      (fileBlocks file).2 = .success ∧
        ∃ st, Processes (updateFromAnyBlock g login) (fileBlocks file).1 (startRead self) st := by
  constructor
  · rintro ⟨r, hread⟩
    obtain ⟨st, hparse, -⟩ := gkmMate2FileReadFd_eq_success.1 hread
    rw [parseFileBlocks_eq] at hparse
    exact ⟨last_of_runBlocks hparse, st, runBlocks_success hparse⟩
  · rintro ⟨hlast, st, hprocesses⟩
    have htaken := processes_taken hprocesses
    obtain ⟨r, -, hfinish⟩ := finishRead_ok st (by
      intro id hmem
      obtain ⟨hold, hnot⟩ := (htaken.checks id).1 hmem
      rw [htaken.identifiers, lastListed_of_not_mem hnot]
      exact mem_iff_lookup.1 (mem_checksOf.1 hold))
    refine ⟨_, gkmMate2FileReadFd_eq_success.2 ⟨st, ?_, hfinish⟩⟩
    rw [parseFileBlocks_eq, runBlocks_of_processes hprocesses, hlast]

/-- A file that was written starts with its header. -/
theorem header_of_written {g : Gcrypt} {f : GkmMate2File} {login : Option GkmSecret} {nonce : Nonce}
    {fd fd' : OutFd} (hfd : fd.written = [])
    (h : gkmMate2FileWriteFd g f fd login nonce = .ok (.success, fd')) :
    fd'.written.take fileHeader.length = fileHeader := by
  obtain ⟨-, u₁, u₂, u₃, u₄, own₁, own₂, own₃, -, -, -, -, hwritten⟩ := gkmMate2FileWriteFd_ok h
  rw [hwritten, hfd, nil_append, take_left]

/-- A keystore that was cut off is rejected exactly if the cut is inside of a block, or the reader does not get
through the whole blocks in front of the cut; and no read looks at bytes outside of a block. -/
theorem torn_rejected_iff (g : Gcrypt) (f : GkmMate2File) (login : Option GkmSecret) (nonce : Nonce)
    (fd fd' : OutFd) (hfd : fd.written = [])
    (hwrite : gkmMate2FileWriteFd g f fd login nonce = .ok (.success, fd')) (k : Nat)
    (hk : k < fd'.written.length) :
    (∀ self login', (∀ r, gkmMate2FileReadFd g self (fd'.written.take k) login' ≠ .ok (.success, r)) ↔
      InBlock fd'.written k ∨
        ∀ st, ¬ Processes (updateFromAnyBlock g login') (fileBlocks (fd'.written.take k)).1
          (startRead self) st) ∧
      ∀ self file login', Accesses.InBounds (Accesses.gkmMate2FileReadFd g self file login') := by
  refine ⟨fun self login' => ?_, fun self file login' => Accesses.gkmMate2FileReadFd_inside g self file login'⟩
  have hends := fileBlocks_success_iff (header_of_written hfd hwrite) (Nat.le_of_lt hk)
  have hread := gkmMate2FileReadFd_success_iff g self (fd'.written.take k) login'
  rw [hends] at hread
  rw [← not_exists, hread, not_and_or, not_not, not_exists]

section Sample

/-- There is no whole block in front of such a cut. -/
theorem fileBlocks_of_short (hfile : file.take fileHeader.length = fileHeader) {k : Nat}
    (hk : k ≤ file.length) (hshort : k < fileHeader.length + 8) : fileBlocks (file.take k) = ([], .success) := by
  rw [fileBlocks, readAllBytes, length_take, Nat.min_eq_left hk]
  by_cases hheader : fileHeader.length ≤ k
  · rw [if_pos hheader, take_take, Nat.min_eq_left hheader, hfile]
    dsimp only
    rw [if_neg (not_not.2 rfl), splitBlocks, nextBlock_of_end]
    rw [length_drop, length_take, Nat.min_eq_left hk]
    omega
  · rw [if_neg hheader]

theorem torn_rejected_sample : ∃ fd',
    gkmMate2FileWriteFd sampleGcrypt sampleFile emptyFd (some sampleLogin) sampleNonce = .ok (.success, fd') ∧
      40 < fd'.written.length ∧
      ((∀ self login', (∀ r, gkmMate2FileReadFd sampleGcrypt self (fd'.written.take 40) login' ≠
          .ok (.success, r)) ↔
        InBlock fd'.written 40 ∨
          ∀ st, ¬ Processes (updateFromAnyBlock sampleGcrypt login') (fileBlocks (fd'.written.take 40)).1
            (startRead self) st) ∧
        ∀ self file login', Accesses.InBounds (Accesses.gkmMate2FileReadFd sampleGcrypt self file login')) := by
  obtain ⟨⟨res, fd'⟩, hwrite, hres⟩ := exists_of_resultOf
    (x := gkmMate2FileWriteFd sampleGcrypt sampleFile emptyFd (some sampleLogin) sampleNonce)
    (f := fun r => (r.1, decide (40 < r.2.written.length))) (b := (.success, true)) (by decide +kernel)
  simp only [Prod.mk.injEq, decide_eq_true_eq] at hres
  obtain ⟨rfl, hlength⟩ := hres
  exact ⟨fd', hwrite, hlength, torn_rejected_iff sampleGcrypt sampleFile (some sampleLogin) sampleNonce emptyFd
    fd' rfl hwrite 40 hlength⟩

/-- One byte of the header of the sample is a keystore, and so are its header and four bytes of the header of
its first block. -/
theorem torn_keystore_accepted : ∃ fd',
    gkmMate2FileWriteFd sampleGcrypt sampleFile emptyFd (some sampleLogin) sampleNonce = .ok (.success, fd') ∧
      (1 < fd'.written.length ∧ ¬ Boundary fd'.written 1 ∧
        ∃ r, gkmMate2FileReadFd sampleGcrypt gkmMate2FileNew (fd'.written.take 1) (some sampleLogin) =
          .ok (.success, r)) ∧
      (27 < fd'.written.length ∧ ¬ Boundary fd'.written 27 ∧
        ∃ r, gkmMate2FileReadFd sampleGcrypt gkmMate2FileNew (fd'.written.take 27) (some sampleLogin) =
          .ok (.success, r)) := by
  obtain ⟨⟨res, fd'⟩, hwrite, hres⟩ := exists_of_resultOf
    (x := gkmMate2FileWriteFd sampleGcrypt sampleFile emptyFd (some sampleLogin) sampleNonce)
    (f := fun r => (r.1, decide (40 < r.2.written.length))) (b := (.success, true)) (by decide +kernel)
  simp only [Prod.mk.injEq, decide_eq_true_eq] at hres
  obtain ⟨rfl, hlength⟩ := hres
  have hsize : fileHeader.length = 23 := rfl
  have hheader := header_of_written rfl hwrite
  have hread : ∀ k < 31, ∃ r, gkmMate2FileReadFd sampleGcrypt gkmMate2FileNew (fd'.written.take k)
      (some sampleLogin) = .ok (.success, r) := by
    intro k hk
    have hblocks := fileBlocks_of_short hheader (k := k) (by omega) (by omega)
    refine (gkmMate2FileReadFd_success_iff _ _ _ _).2 ?_
    rw [hblocks]
    exact ⟨rfl, _, rfl⟩
  have hinside : ∀ k, k ≠ 23 → k < 31 → ¬ Boundary fd'.written k := by
    intro k hne hk h
    cases h with
    | refl => exact hne rfl
    | block _ _ _ hlong _ hmore =>
      have := hmore.le
      omega
  exact ⟨fd', hwrite, ⟨by omega, hinside 1 (by decide) (by decide), hread 1 (by decide)⟩,
    by omega, hinside 27 (by decide) (by decide), hread 27 (by decide)⟩

end Sample

end MateKeyring.Mate2
