import MateKeyring.Gkm.Files

/-!
# Atomicity of transactions on files

A transaction on files that failed leads back to the files before it, and one that succeeded leaves
the requested files and no temporary ones, as long as no call fails between the making of a temporary
link and the end of its operation (`file_transaction`): a temporary link that is renamed onto another
name of the same inode stays.
-/

set_option autoImplicit false

namespace MateKeyring.Gkm

open Function (update update_eq_self update_of_ne update_self)
open Lib Egg List
open Rpc (CkRv ckrOk ckrDeviceError)

variable {m : Path → Option Bytes} {name : Option Path} {filename : Path}
  {files files' : Files} {op : FileOp} {names : List (Option Path)} {ops : List FileOp}
  {s' : FileState} {p : Path}

variable {s s' : FileState}

variable {t : GkmTransaction FileComplete} {calls : Nat → RandomCall} {data beyond : Bytes}

/-! ## Names -/

theorem rdropWhile_append_of_forall {α : Type} {p : α → Bool} {a b : List α} (h : ∀ x ∈ b, p x = true) :
    (a ++ b).rdropWhile p = a.rdropWhile p := by
  induction b using List.reverseRecOn with
  | nil => rw [append_nil]
  | append_singleton b x ih =>
    rw [← append_assoc, rdropWhile_concat_pos _ _ _ (h x (by simp))]
    exact ih fun y hy => h y (by simp [hy])

/-- The original name of a temporary link. -/
theorem originalName_temporaryName (filename : Path) (number : Nat) :
    originalName (temporaryName filename number) = some filename := by
  have hsplit : temporaryName filename number =
      (filename ++ [46]) ++ (ascii "temp-" ++ decimal number) := by
    simp only [temporaryName, append_assoc]
    rfl
  have hrest : ∀ x ∈ ascii "temp-" ++ decimal number, decide (x ≠ 46) = true := by
    intro x hx
    rw [decide_eq_true_eq]
    rcases mem_append.1 hx with hx | hx
    · rintro rfl
      exact absurd hx (by decide)
    · rintro rfl
      exact absurd (isDigit_of_mem_decimal hx) (by decide)
  rw [originalName, if_pos (by rw [hsplit]; simp), hsplit, rdropWhile_append_of_forall hrest,
    rdropWhile_concat_neg _ _ _ (by decide), dropLast_concat]

/-! ## What the operations do -/

/-- The temporary links that a transaction has made. -/
def temporaries (t : GkmTransaction FileComplete) : List Path :=
  t.completes.filterMap fun complete =>
    match complete with
    | .newFile _ => none
    | .linkTemporary path => some path

theorem temporaries_newFile (t : GkmTransaction FileComplete) (path : Path) :
    temporaries (gkmTransactionAdd t (.newFile path)) = temporaries t := rfl

theorem temporaries_linkTemporary (t : GkmTransaction FileComplete) (path : Path) :
    temporaries (gkmTransactionAdd t (.linkTemporary path)) = path :: temporaries t := rfl

theorem linkTemporaryLoop_cases {files : Files} {n i : Nat} {r : Linked}
    (h : linkTemporaryLoop files filename calls n i = .ok r) :
    (∃ number inode, files.names filename = some inode ∧
      files.names (temporaryName filename number) = none ∧
      r = .temporary (temporaryName filename number)
        (files.set (temporaryName filename number) (some inode))) ∨
    (files.names filename = none ∧ r = .missing) ∨ r = .failed := by
  induction n generalizing i with
  | zero => cases h
  | succ n ih =>
    rw [linkTemporaryLoop] at h
    cases hfails : (calls i).fails with
    | true =>
      simp only [Directory.link, hfails, if_true] at h
      cases h
      exact .inr (.inr rfl)
    | false =>
      cases hold : files.names filename with
      | none =>
        simp only [Directory.link, hfails, hold, Bool.false_eq_true, if_false] at h
        cases h
        exact .inr (.inl ⟨rfl, rfl⟩)
      | some inode =>
        cases hnew : files.names (temporaryName filename (calls i).number) with
        | none =>
          simp only [Directory.link, hfails, hold, hnew, Bool.false_eq_true, if_false,
            Option.isSome_none] at h
          cases h
          exact .inl ⟨(calls i).number, inode, rfl, hnew, rfl⟩
        | some j =>
          simp only [Directory.link, hfails, hold, hnew, Bool.false_eq_true, if_false,
            Option.isSome_some, if_true] at h
          rw [← hold]
          exact ih h

/-- A temporary link is made, or there is no such file, or the transaction fails. -/
theorem beginLinkTemporaryIfExists_cases
    {r : Option Bool × FileState} (h : beginLinkTemporaryIfExists s filename calls = .ok r) :
    (∃ number inode, s.1.names filename = some inode ∧
      s.1.names (temporaryName filename number) = none ∧
      r = (some true, s.1.set (temporaryName filename number) (some inode),
        gkmTransactionAdd s.2 (.linkTemporary (temporaryName filename number)))) ∨
    (s.1.names filename = none ∧ r = (some false, s)) ∨
    r = (none, s.1, gkmTransactionFail s.2 ckrDeviceError) := by
  obtain ⟨linked, hl, h⟩ := bind_eq_ok.1 h
  rcases linkTemporaryLoop_cases hl with ⟨number, inode, ho, hn, rfl⟩ | ⟨ho, rfl⟩ | rfl
  · cases h
    exact .inl ⟨number, inode, ho, hn, rfl⟩
  · cases h
    exact .inr (.inl ⟨ho, rfl⟩)
  · cases h
    exact .inr (.inr rfl)

theorem gMkstemp_some {filename template : Path} {calls : Nat → MkstempCall} {n i : Nat}
    (h : gMkstemp files filename calls n i = (some files', template)) :
    files.names template = none ∧ files' = files.put template [] := by
  induction n generalizing i with
  | zero => cases h
  | succ n ih =>
    rw [gMkstemp] at h
    split at h
    · rename_i created hc
      cases h
      exact Directory.create_eq_ok hc
    · exact ih h
    · cases h

/-- The first `write` writes everything, or it fails. -/
def WriteCalls.WritesWhole (calls : WriteCalls) (data : Bytes) : Prop :=
  data = [] ∨ ∀ c ∈ calls.write.head?, c = .error ∨ c = .wrote data.length

/-- A call of `write_to_file` fails, up to the closing of the file. -/
def WriteCalls.Fails (calls : WriteCalls) (files : Files) (filename : Path) (data : Bytes) : Prop :=
  (gMkstemp files filename calls.mkstemp 100 0).1 = none ∨
    (data ≠ [] ∧ calls.write.head? = some .error) ∨ calls.fsync = true ∨ calls.close = true

theorem writeLoop_whole {calls : List WriteCall} {data beyond bytes : Bytes} {ok : Bool}
    (hw : data = [] ∨ ∀ c ∈ calls.head?, c = .error ∨ c = .wrote data.length)
    (h : writeLoop (data ++ beyond) data.length calls = .ok (ok, bytes)) :
    (ok = true ∧ bytes = data) ∨ (ok = false ∧ data ≠ [] ∧ calls.head? = some .error) := by
  have htake : (data ++ beyond).take data.length = data := take_left' rfl
  cases hn : data.length with
  | zero =>
    have hdata : data = [] := length_eq_zero_iff.1 hn
    subst hdata
    rw [length_nil, writeLoop] at h
    cases h
    exact .inl ⟨rfl, rfl⟩
  | succ n =>
    have hne : data ≠ [] := fun h => by simp [h] at hn
    have hlen : ¬ (data ++ beyond).length < n + 1 := by
      rw [length_append, hn]
      omega
    rw [hn] at h htake
    have hhead := hw.resolve_left hne
    cases calls with
    | nil =>
      rw [writeLoop, if_neg hlen, htake] at h
      cases h
      exact .inl ⟨rfl, rfl⟩
    | cons c calls =>
      rcases hhead c rfl with rfl | rfl
      · cases h
        exact .inr ⟨rfl, hne, rfl⟩
      · rw [writeLoop, if_neg hlen, hn, Nat.min_self, htake] at h
        cases h
        exact .inl ⟨rfl, rfl⟩

/-- The file is replaced by a new one, or it is not and the files are as before. -/
theorem writeToFile_cases {calls : WriteCalls} {ok : Bool}
    (hwf : files.WellFormed) (hrename : calls.rename = false) (hw : calls.WritesWhole data)
    (hclean : calls.Fails files filename data → calls.unlink = false ∧
      ((gMkstemp files filename calls.mkstemp 100 0).1 = none →
        files.names (gMkstemp files filename calls.mkstemp 100 0).2 = none))
    (h : writeToFile files filename data beyond calls = .ok (ok, files')) :
    (ok = true ∧ files' = files.put filename data) ∨
    (ok = false ∧ calls.Fails files filename data ∧ Directory.Same files' files ∧
      files'.WellFormed) := by
  unfold writeToFile at h
  cases hmk : gMkstemp files filename calls.mkstemp 100 0 with
  | mk created template =>
    cases created with
    | none =>
      have hfails : calls.Fails files filename data := .inl (by rw [hmk])
      have hunused : files.names template = none := by
        simpa [hmk] using (hclean hfails).2 (by rw [hmk])
      simp only [hmk, Directory.unlink_missing hunused] at h
      cases h
      exact .inr ⟨rfl, hfails, Directory.Same.refl _, hwf⟩
    | some created =>
      obtain ⟨htemplate, rfl⟩ := gMkstemp_some hmk
      simp only [hmk] at h
      obtain ⟨⟨closed, bytes⟩, hclose, h⟩ := bind_eq_ok.1 h
      obtain ⟨⟨written, bytes'⟩, hloop, hclosed⟩ := bind_eq_ok.1 hclose
      cases hclosed
      simp only [Directory.fill_put, hrename, hwf.rename_put htemplate] at h
      cases hend : written && !calls.fsync && !calls.close with
      | true =>
        rw [hend] at h
        cases h
        rcases writeLoop_whole hw hloop with ⟨-, rfl⟩ | ⟨rfl, -⟩
        · exact .inl ⟨rfl, rfl⟩
        · cases hend
      | false =>
        have hfails : calls.Fails files filename data := by
          rcases writeLoop_whole hw hloop with ⟨rfl, -⟩ | ⟨-, hdata, hhead⟩
          · cases hsync : calls.fsync with
            | true => exact .inr (.inr (.inl hsync))
            | false =>
              have hclosefails : calls.close = true := by simpa [hsync] using hend
              exact .inr (.inr (.inr hclosefails))
          · exact .inr (.inl ⟨hdata, hhead⟩)
        rw [hend, (hclean hfails).1] at h
        cases h
        exact .inr ⟨rfl, hfails, hwf.unlink_put htemplate _, (hwf.put _ _).unlink _ _⟩

/-- When an operation can be undone. It does not name a temporary link of the transaction; after it
made such a link none of its calls fails; a new file is written at once and can be renamed, and
where it cannot be written its temporary file is removed again and nothing else is. -/
def FileOp.Sound (op : FileOp) (s : FileState) : Prop :=
  match op with
  | .write filename data _ calls =>
    filename ∉ temporaries s.2 ∧ calls.rename = false ∧ calls.WritesWhole data ∧
      ∀ linked s', beginLinkTemporaryIfExists s filename calls.link = .ok (some linked, s') →
        calls.Fails s'.1 filename data →
          linked = false ∧ calls.unlink = false ∧
            ((gMkstemp s'.1 filename calls.mkstemp 100 0).1 = none →
              s'.1.names (gMkstemp s'.1 filename calls.mkstemp 100 0).2 = none)
  | .remove filename link unlink =>
    filename ∉ temporaries s.2 ∧
      ∀ s', beginLinkTemporaryIfExists s filename link = .ok (some true, s') → unlink = false
  | .unique _ _ _ => True
  | .fail _ => True

/-- The callbacks of an operation that failed: none, or one for a file that is not there. -/
def HarmlessLog (files : Files) (log : List FileComplete) : Prop :=
  log = [] ∨ ∃ path, log = [.newFile path] ∧ files.names path = none

/-- What an operation does that can be undone. -/
inductive FileStep (s : FileState) : FileOp → Option Path → FileState → Prop where
  | failed {op : FileOp} {files : Files} {t : GkmTransaction FileComplete}
      (log : List FileComplete) (hsame : Directory.Same files s.1) (hwf : files.WellFormed)
      (hfailed : t.failed = true) (hlog : t.completes = log ++ s.2.completes)
      (hcompleted : t.completed = false) (hharmless : HarmlessLog files log) :
      FileStep s op none (files, t)
  | nothing : FileStep s (.fail ckrOk) none s
  | missing {filename : Path} {link : Nat → RandomCall} {unlink : Bool}
      (hmissing : s.1.names filename = none) (hname : filename ∉ temporaries s.2) :
      FileStep s (.remove filename link unlink) none s
  | replaced {filename : Path} {data beyond : Bytes} {calls : WriteCalls} (number inode : Nat)
      (hinode : s.1.names filename = some inode)
      (hfresh : s.1.names (temporaryName filename number) = none)
      (hname : filename ∉ temporaries s.2) :
      FileStep s (.write filename data beyond calls) none
        ((s.1.set (temporaryName filename number) (some inode)).put filename data,
          gkmTransactionAdd s.2 (.linkTemporary (temporaryName filename number)))
  | created {filename : Path} {data beyond : Bytes} {calls : WriteCalls}
      (hmissing : s.1.names filename = none) (hname : filename ∉ temporaries s.2) :
      FileStep s (.write filename data beyond calls) none
        (s.1.put filename data, gkmTransactionAdd s.2 (.newFile filename))
  | removed {filename : Path} {link : Nat → RandomCall} {unlink : Bool} (number inode : Nat)
      (hinode : s.1.names filename = some inode)
      (hfresh : s.1.names (temporaryName filename number) = none)
      (hname : filename ∉ temporaries s.2) :
      FileStep s (.remove filename link unlink) none
        ((s.1.set (temporaryName filename number) (some inode)).set filename none,
          gkmTransactionAdd s.2 (.linkTemporary (temporaryName filename number)))
  | unique {directory basename name : Path} {calls : Nat → Bool}
      (hmissing : s.1.names (gBuildFilename directory name) = none) :
      FileStep s (.unique directory basename calls) (some name)
        (s.1.put (gBuildFilename directory name) [],
          gkmTransactionAdd s.2 (.newFile (gBuildFilename directory name)))

theorem uniqueLoop_some {directory basename name : Path} {calls : Nat → Bool} {n seed : Nat}
    (h : uniqueLoop files directory basename calls n seed = some (files', name)) :
    files.names (gBuildFilename directory name) = none ∧
      files' = files.put (gBuildFilename directory name) [] := by
  induction n generalizing seed with
  | zero => cases h
  | succ n ih =>
    rw [uniqueLoop] at h
    split at h
    · rename_i created hc
      cases h
      exact Directory.create_eq_ok hc
    · exact ih h
    · cases h

theorem uniqueName_some {directory basename name : Path} {calls : Nat → Bool}
    (h : uniqueName files directory basename calls = some (files', name)) :
    files.names (gBuildFilename directory name) = none ∧
      files' = files.put (gBuildFilename directory name) [] := by
  unfold uniqueName at h
  split at h
  · rename_i created hc
    cases h
    exact Directory.create_eq_ok hc
  · exact uniqueLoop_some h
  · cases h

section Steps

variable {s : FileState} (hf : s.2.failed = false) (hc : s.2.completed = false)

include hf hc

omit hf in
/-- A failure before anything was changed. -/
theorem FileStep.of_fail (hwf : s.1.WellFormed) {result : CkRv} (hr : result ≠ ckrOk) :
    FileStep s op none (s.1, gkmTransactionFail s.2 result) :=
  .failed [] (Directory.Same.refl _) hwf (gkmTransactionFail_failed hc hr)
    (gkmTransactionFail_completes _ _) (by simpa using hc) (.inl rfl)

theorem write_step {calls : WriteCalls} (hwf : s.1.WellFormed)
    (hsound : (FileOp.write filename data beyond calls).Sound s)
    (h : gkmTransactionWriteFile s filename data beyond calls = .ok s') :
    FileStep s (.write filename data beyond calls) none s' := by
  obtain ⟨hname, hrename, hwhole, hclean⟩ := hsound
  unfold gkmTransactionWriteFile at h
  rw [hf, if_neg Bool.false_ne_true] at h
  obtain ⟨r, hbegin, h⟩ := bind_eq_ok.1 h
  rcases beginLinkTemporaryIfExists_cases hbegin with ⟨number, inode, hinode, hfresh, rfl⟩ |
    ⟨hmissing, rfl⟩ | rfl
  · obtain ⟨⟨ok, files⟩, hwrite, h⟩ := bind_eq_ok.1 h
    have hwf' := hwf.set (temporaryName filename number) (i := some inode) fun j hj => by
      cases hj
      exact hwf filename inode hinode
    rcases writeToFile_cases hwf' hrename hwhole (fun hfails => (hclean _ _ hbegin hfails).2) hwrite
      with ⟨rfl, rfl⟩ | ⟨-, hfails, -⟩
    · cases h
      exact .replaced number inode hinode hfresh hname
    · cases (hclean _ _ hbegin hfails).1
  · obtain ⟨⟨ok, files⟩, hwrite, h⟩ := bind_eq_ok.1 h
    rcases writeToFile_cases hwf hrename hwhole (fun hfails => (hclean _ _ hbegin hfails).2) hwrite
      with ⟨rfl, rfl⟩ | ⟨rfl, -, hsame, hwf'⟩
    · cases h
      exact .created hmissing hname
    · cases h
      refine .failed [.newFile filename] hsame hwf' ?_ (gkmTransactionFail_completes _ _)
        (by simpa using hc) (.inr ⟨filename, rfl, ?_⟩)
      · exact gkmTransactionFail_failed (by simpa using hc) (by decide)
      · rw [hsame.names, hmissing]
  · cases h
    exact .of_fail hc hwf (by decide)

theorem remove_step {link : Nat → RandomCall} {unlink : Bool} (hwf : s.1.WellFormed)
    (hsound : (FileOp.remove filename link unlink).Sound s)
    (h : gkmTransactionRemoveFile s filename link unlink = .ok s') :
    FileStep s (.remove filename link unlink) none s' := by
  obtain ⟨hname, hunlink⟩ := hsound
  unfold gkmTransactionRemoveFile at h
  rw [hf, if_neg Bool.false_ne_true] at h
  obtain ⟨r, hbegin, h⟩ := bind_eq_ok.1 h
  rcases beginLinkTemporaryIfExists_cases hbegin with ⟨number, inode, hinode, hfresh, rfl⟩ |
    ⟨hmissing, rfl⟩ | rfl
  · have hne : filename ≠ temporaryName filename number := by
      intro heq
      rw [← heq, hinode] at hfresh
      cases hfresh
    have hnames : (s.1.set (temporaryName filename number) (some inode)).names filename =
        some inode := by
      rw [Directory.set_names, update_of_ne hne, hinode]
    simp only [Directory.unlink, hunlink _ hbegin, hnames, Bool.false_eq_true, if_false,
      Option.isNone_some] at h
    cases h
    exact .removed number inode hinode hfresh hname
  · cases h
    exact .missing hmissing hname
  · cases h
    exact .of_fail hc hwf (by decide)

theorem FileOp.run_step (hwf : s.1.WellFormed) (hsound : op.Sound s) (h : op.run s = .ok (name, s')) :
    FileStep s op name s' := by
  cases op with
  | write filename data beyond calls =>
    obtain ⟨s₁, hw, h⟩ := bind_eq_ok.1 h
    cases h
    exact write_step hf hc hwf hsound hw
  | remove filename link unlink =>
    obtain ⟨s₁, hr, h⟩ := bind_eq_ok.1 h
    cases h
    exact remove_step hf hc hwf hsound hr
  | unique directory basename calls =>
    simp only [FileOp.run, gkmTransactionUniqueFile, hf, Bool.false_eq_true, if_false,
      Except.ok.injEq] at h
    cases hu : uniqueName s.1 directory basename calls with
    | none =>
      simp only [hu, Prod.mk.injEq] at h
      obtain ⟨rfl, rfl⟩ := h
      exact .of_fail hc hwf (by decide)
    | some r =>
      obtain ⟨files, n⟩ := r
      obtain ⟨hmissing, rfl⟩ := uniqueName_some hu
      simp only [hu, Prod.mk.injEq] at h
      obtain ⟨rfl, rfl⟩ := h
      exact .unique hmissing
  | fail result =>
    cases h
    by_cases hr : result = ckrOk
    · subst hr
      have hsame : gkmTransactionFail s.2 ckrOk = s.2 := by simp [gkmTransactionFail]
      rw [hsame]
      exact .nothing
    · exact .of_fail hc hwf hr

end Steps

/-! ## Failure -/

/-- Undoing a failed transaction, when no call fails. -/
def fileLog : UndoLog Files FileComplete where
  undo := FileComplete.invoke false true
  same := Directory.Same
  same_refl := Directory.Same.refl
  same_trans := Directory.Same.trans
  undo_congr k files files' h := by
    cases k with
    | newFile path => exact h.unlink path false
    | linkTemporary path =>
      simp only [FileComplete.invoke, if_true]
      split
      · exact h
      · exact h.rename path _ false

/-- A file that was replaced or removed gets its name back from the temporary link. -/
theorem rename_back (inode : Nat) {files before : Files} {filename temporary : Path}
    (htemporary : files.names temporary = some inode) (hmoved : files.names filename ≠ some inode)
    (hother : ∀ p, p ≠ temporary → p ≠ filename → files.names p = before.names p)
    (hfresh : before.names temporary = none) (hinode : before.names filename = some inode)
    (hcontents : ∀ p i, before.names p = some i → files.contents i = before.contents i) :
    Directory.Same (files.orSame (files.rename temporary filename false)) before := by
  unfold Directory.rename
  simp only [htemporary, hmoved, Bool.false_eq_true, if_false]
  have hnames : update (update files.names filename (some inode)) temporary none =
      before.names := by
    funext p
    by_cases ht : p = temporary
    · subst ht
      rw [update_self, hfresh]
    · rw [update_of_ne ht]
      by_cases hp : p = filename
      · subst hp
        rw [update_self, hinode]
      · rw [update_of_ne hp, hother p ht hp]
  refine ⟨hnames, fun p i hp => hcontents p i ?_⟩
  rw [← hnames]
  exact hp

theorem FileStep.undoes (h : FileStep s op name s') (hwf : s.1.WellFormed)
    (hc : s.2.completed = false) :
    s'.2.completed = false ∧ s'.1.WellFormed ∧
      ∃ log, s'.2.completes = log ++ s.2.completes ∧ fileLog.Undoes s.1 log s'.1 := by
  cases h with
  | failed log hsame hwf' _ hlog hcompleted hharmless =>
    refine ⟨hcompleted, hwf', log, hlog, ?_⟩
    rcases hharmless with rfl | ⟨path, rfl, hmissing⟩
    · exact UndoLog.Undoes.of_same hsame
    · refine UndoLog.Undoes.single ?_
      change Directory.Same (Directory.orSame _ _) _
      rw [Directory.unlink_missing hmissing]
      exact hsame
  | nothing => exact ⟨hc, hwf, [], rfl, UndoLog.Undoes.refl _ _⟩
  | missing => exact ⟨hc, hwf, [], rfl, UndoLog.Undoes.refl _ _⟩
  | @replaced filename data _ _ number inode hinode hfresh _ =>
    have hne : temporaryName filename number ≠ filename := by
      intro heq
      rw [heq, hinode] at hfresh
      cases hfresh
    have hwf' : (s.1.set (temporaryName filename number) (some inode)).WellFormed :=
      hwf.set _ fun j hj => by
        cases hj
        exact hwf filename inode hinode
    refine ⟨hc, hwf'.put _ _, [_], rfl, UndoLog.Undoes.single ?_⟩
    simp only [fileLog, FileComplete.invoke, if_true, originalName_temporaryName]
    refine rename_back inode ?_ ?_ (fun p hp hp' => ?_) hfresh hinode fun p i hp => ?_
    · simp [Directory.put, update_of_ne hne]
    · have hlt := hwf filename inode hinode
      simp only [Directory.put, Directory.set_next, update_self, ne_eq, Option.some.injEq]
      exact hlt.ne'
    · simp [Directory.put, update_of_ne hp', update_of_ne hp]
    · have hlt := hwf p i hp
      simp [Directory.put, update_of_ne hlt.ne]
  | created hmissing =>
    exact ⟨hc, hwf.put _ _, [_], rfl, UndoLog.Undoes.single (hwf.unlink_put hmissing _)⟩
  | @removed filename _ _ number inode hinode hfresh _ =>
    have hne : temporaryName filename number ≠ filename := by
      intro heq
      rw [heq, hinode] at hfresh
      cases hfresh
    have hwf' : (s.1.set (temporaryName filename number) (some inode)).WellFormed :=
      hwf.set _ fun j hj => by
        cases hj
        exact hwf filename inode hinode
    refine ⟨hc, hwf'.set _ (fun j hj => by cases hj), [_], rfl, UndoLog.Undoes.single ?_⟩
    simp only [fileLog, FileComplete.invoke, if_true, originalName_temporaryName]
    refine rename_back inode ?_ ?_ (fun p hp hp' => ?_) hfresh hinode fun p i hp => rfl
    · simp [update_of_ne hne]
    · simp
    · simp [update_of_ne hp', update_of_ne hp]
  | unique hmissing =>
    exact ⟨hc, hwf.put _ _, [_], rfl, UndoLog.Undoes.single (hwf.unlink_put hmissing _)⟩

theorem FileOp.run_of_failed (h : op.run s = .ok (name, s')) (hf : s.2.failed = true) : s' = s := by
  cases op with
  | write filename data beyond calls =>
    simp only [FileOp.run, gkmTransactionWriteFile, hf, if_true] at h
    cases h
    rfl
  | remove filename link unlink =>
    simp only [FileOp.run, gkmTransactionRemoveFile, hf, if_true] at h
    cases h
    rfl
  | unique directory basename calls =>
    simp only [FileOp.run, gkmTransactionUniqueFile, hf, if_true] at h
    cases h
    rfl
  | fail result =>
    simp only [FileOp.run, gkmTransactionFail_of_failed hf] at h
    cases h
    rfl

/-- Every operation of a sequence can be undone in the state in which it is run. -/
def SoundRun : List FileOp → FileState → Prop
  | [], _ => True
  | op :: ops, s => op.Sound s ∧ ∀ name s', op.run s = .ok (name, s') → SoundRun ops s'

theorem runFileOps_undoes (hwf : s.1.WellFormed) (hc : s.2.completed = false)
    (hsound : SoundRun ops s) (h : runFileOps ops s = .ok (names, s')) :
    s'.2.completed = false ∧
      ∃ log, s'.2.completes = log ++ s.2.completes ∧ fileLog.Undoes s.1 log s'.1 := by
  induction ops generalizing s names with
  | nil =>
    cases h
    exact ⟨hc, [], rfl, UndoLog.Undoes.refl _ _⟩
  | cons op ops ih =>
    obtain ⟨⟨name, s₁⟩, h₁, h⟩ := bind_eq_ok.1 h
    obtain ⟨⟨names', s₂⟩, h₂, h⟩ := bind_eq_ok.1 h
    cases h
    cases hf : s.2.failed with
    | true =>
      have hs₁ := FileOp.run_of_failed h₁ hf
      have hrest := hsound.2 name s₁ h₁
      subst hs₁
      exact ih hwf hc hrest h₂
    | false =>
      have hstep := FileOp.run_step hf hc hwf hsound.1 h₁
      obtain ⟨hc₁, hwf₁, log₁, hlog₁, hundo₁⟩ := hstep.undoes hwf hc
      obtain ⟨hc', log, hlog, hundo⟩ := ih hwf₁ hc₁ (hsound.2 name s₁ h₁) h₂
      refine ⟨hc', log ++ log₁, ?_, hundo₁.trans hundo⟩
      rw [hlog, hlog₁, append_assoc]

/-! ## Success -/

/-- What an operation that succeeds makes of the files; `name` is what it returns. -/
def FileOp.Fulfils (op : FileOp) (name : Option Path) (m m' : Path → Option Bytes) : Prop :=
  match op with
  | .write filename data _ _ => m' = update m filename (some data)
  | .remove filename _ _ => m' = update m filename none
  | .unique directory _ _ =>
    ∃ n, name = some n ∧ m (gBuildFilename directory n) = none ∧
      m' = update m (gBuildFilename directory n) (some [])
  | .fail _ => m' = m

/-- What a sequence of operations makes of the files. -/
def Fulfilled : List FileOp → List (Option Path) → (Path → Option Bytes) →
    (Path → Option Bytes) → Prop
  | [], [], m, m' => m' = m
  | op :: ops, name :: names, m, m' => ∃ m₁, op.Fulfils name m m₁ ∧ Fulfilled ops names m₁ m'
  | _, _, _, _ => False

/-- The files are those requested so far, apart from the temporary links. -/
structure Tracks (m : Path → Option Bytes) (s : FileState) : Prop where
  wellFormed : s.1.WellFormed
  absent : ∀ t ∈ temporaries s.2, m t = none
  live : ∀ t ∈ temporaries s.2, s.1.names t ≠ none
  rest : ∀ p ∉ temporaries s.2, s.1.read p = m p

theorem Tracks.none_of_missing (h : Tracks m s) (hp : s.1.names p = none) :
    m p = none ∧ p ∉ temporaries s.2 := by
  have hnot : p ∉ temporaries s.2 := fun hmem => h.live p hmem hp
  refine ⟨?_, hnot⟩
  rw [← h.rest p hnot, Directory.read, hp]
  rfl

/-- A new inode under a name that is no temporary link. -/
theorem Tracks.put (h : Tracks m s) (hp : p ∉ temporaries s.2) (b : Bytes)
    (ht : temporaries t = temporaries s.2) :
    Tracks (update m p (some b)) (s.1.put p b, t) where
  wellFormed := h.wellFormed.put p b
  absent q hq := by
    rw [ht] at hq
    rw [update_of_ne (ne_of_mem_of_not_mem hq hp)]
    exact h.absent q hq
  live q hq := by
    rw [ht] at hq
    change update s.1.names p (some s.1.next) q ≠ none
    rw [update_of_ne (ne_of_mem_of_not_mem hq hp)]
    exact h.live q hq
  rest q hq := by
    rw [ht] at hq
    rw [h.wellFormed.read_put]
    by_cases hqp : q = p
    · rw [hqp, update_self, update_self]
    · rw [update_of_ne hqp, update_of_ne hqp]
      exact h.rest q hq

/-- A new temporary link. -/
theorem Tracks.link (h : Tracks m s) {filename path : Path} {inode : Nat}
    (hinode : s.1.names filename = some inode) (hfresh : s.1.names path = none) :
    Tracks m (s.1.set path (some inode), gkmTransactionAdd s.2 (.linkTemporary path)) where
  wellFormed := h.wellFormed.set path fun j hj => by
    cases hj
    exact h.wellFormed filename inode hinode
  absent q hq := by
    rw [temporaries_linkTemporary] at hq
    rcases mem_cons.1 hq with rfl | hq
    · exact (h.none_of_missing hfresh).1
    · exact h.absent q hq
  live q hq := by
    rw [temporaries_linkTemporary] at hq
    rw [Directory.set_names]
    by_cases hp : q = path
    · rw [hp, update_self]
      exact Option.some_ne_none inode
    · rw [update_of_ne hp]
      exact h.live q ((mem_cons.1 hq).resolve_left hp)
  rest q hq := by
    rw [temporaries_linkTemporary, mem_cons, not_or] at hq
    rw [Directory.read, Directory.set_names, update_of_ne hq.1]
    exact h.rest q hq.2

/-- A name that is no temporary link is removed. -/
theorem Tracks.unset (h : Tracks m s) (hp : p ∉ temporaries s.2) :
    Tracks (update m p none) (s.1.set p none, s.2) where
  wellFormed := h.wellFormed.set p fun j hj => by cases hj
  absent q hq := by
    rw [update_of_ne (ne_of_mem_of_not_mem hq hp)]
    exact h.absent q hq
  live q hq := by
    rw [Directory.set_names, update_of_ne (ne_of_mem_of_not_mem hq hp)]
    exact h.live q hq
  rest q hq := by
    by_cases hqp : q = p
    · simp [Directory.read, hqp]
    · rw [Directory.read, Directory.set_names, update_of_ne hqp, update_of_ne hqp]
      exact h.rest q hq

theorem FileStep.fulfils (h : FileStep s op name s') (ht : Tracks m s)
    (hf : s'.2.failed = false) : ∃ m', op.Fulfils name m m' ∧ Tracks m' s' := by
  cases h with
  | failed _ _ _ hfailed =>
    rw [hfailed] at hf
    cases hf
  | nothing => exact ⟨m, rfl, ht⟩
  | @missing filename _ _ hmissing _ =>
    refine ⟨_, rfl, ?_⟩
    rw [← (ht.none_of_missing hmissing).1, update_eq_self]
    exact ht
  | @replaced filename data _ _ number inode hinode hfresh hname =>
    have hnot : filename ∉ temporaries
        (gkmTransactionAdd s.2 (.linkTemporary (temporaryName filename number))) := by
      rw [temporaries_linkTemporary, mem_cons, not_or]
      refine ⟨fun heq => ?_, hname⟩
      rw [← heq, hinode] at hfresh
      cases hfresh
    exact ⟨_, rfl, (ht.link hinode hfresh).put hnot data rfl⟩
  | created hmissing hname => exact ⟨_, rfl, ht.put hname _ (temporaries_newFile _ _)⟩
  | @removed filename _ _ number inode hinode hfresh hname =>
    have hnot : filename ∉ temporaries
        (gkmTransactionAdd s.2 (.linkTemporary (temporaryName filename number))) := by
      rw [temporaries_linkTemporary, mem_cons, not_or]
      refine ⟨fun heq => ?_, hname⟩
      rw [← heq, hinode] at hfresh
      cases hfresh
    exact ⟨_, rfl, (ht.link hinode hfresh).unset hnot⟩
  | unique hmissing =>
    obtain ⟨hnone, hnot⟩ := ht.none_of_missing hmissing
    exact ⟨_, ⟨_, rfl, hnone, rfl⟩, ht.put hnot [] (temporaries_newFile _ _)⟩

theorem FileStep.failed_of (hf : s.2.failed = true) (h : op.run s = .ok (name, s')) :
    s'.2.failed = true := by
  rw [FileOp.run_of_failed h hf]
  exact hf

theorem runFileOps_failed (hf : s.2.failed = true)
    (h : runFileOps ops s = .ok (names, s')) : s'.2.failed = true := by
  induction ops generalizing s names with
  | nil =>
    cases h
    exact hf
  | cons op ops ih =>
    obtain ⟨⟨name, s₁⟩, h₁, h⟩ := bind_eq_ok.1 h
    obtain ⟨⟨names', s₂⟩, h₂, h⟩ := bind_eq_ok.1 h
    cases h
    exact ih (FileStep.failed_of hf h₁) h₂

theorem runFileOps_fulfilled (ht : Tracks m s) (hc : s.2.completed = false)
    (hsound : SoundRun ops s) (h : runFileOps ops s = .ok (names, s')) (hf' : s'.2.failed = false) :
    ∃ m', Fulfilled ops names m m' ∧ Tracks m' s' := by
  induction ops generalizing s names m with
  | nil =>
    cases h
    exact ⟨m, rfl, ht⟩
  | cons op ops ih =>
    obtain ⟨⟨name, s₁⟩, h₁, h⟩ := bind_eq_ok.1 h
    obtain ⟨⟨names', s₂⟩, h₂, h⟩ := bind_eq_ok.1 h
    cases h
    have hf₁ : s₁.2.failed = false := by
      cases hf : s₁.2.failed with
      | false => rfl
      | true => rw [← hf', runFileOps_failed hf h₂]
    have hf : s.2.failed = false := by
      cases hf : s.2.failed with
      | false => rfl
      | true => rw [← hf₁, FileStep.failed_of hf h₁]
    have hstep := FileOp.run_step hf hc ht.wellFormed hsound.1 h₁
    obtain ⟨m₁, hm₁, ht₁⟩ := hstep.fulfils ht hf₁
    obtain ⟨hc₁, -⟩ := hstep.undoes ht.wellFormed hc
    obtain ⟨m', hm', ht'⟩ := ih ht₁ hc₁ (hsound.2 name s₁ h₁) h₂
    exact ⟨m', ⟨m₁, hm₁, hm'⟩, ht'⟩

/-! ## Completion -/

theorem unwind_counted {fails : Nat → Bool} (hfails : ∀ n, fails n = false) (failed : Bool)
    (log : List FileComplete) (files : Files) (n : Nat) :
    (unwind (fun complete (t : Files × Nat) => (complete.invoke (fails t.2) failed t.1, t.2 + 1)) log
      (files, n)).1 = unwind (FileComplete.invoke false failed) log files := by
  induction log generalizing files n with
  | nil => rfl
  | cons k log ih =>
    rw [unwind_cons, unwind_cons, ih, hfails]

theorem completeFiles_eq {fails : Nat → Bool} (hfails : ∀ n, fails n = false)
    (hc : s.2.completed = false) :
    completeFiles fails s = unwind (FileComplete.invoke false s.2.failed) s.2.completes s.1 := by
  rw [completeFiles, gkmTransactionComplete_state hc, unwind_counted hfails]

/-- The callbacks of a successful transaction remove the temporary links. -/
theorem unwind_read (log : List FileComplete) (files : Files) (p : Path) :
    (unwind (FileComplete.invoke false false) log files).read p =
      if .linkTemporary p ∈ log then none else files.read p := by
  induction log generalizing files with
  | nil => simp
  | cons k log ih =>
    rw [unwind_cons, ih]
    cases k with
    | newFile path => simp [FileComplete.invoke]
    | linkTemporary path =>
      by_cases hmem : FileComplete.linkTemporary p ∈ log
      · simp [hmem]
      · cases hn : files.names path with
        | none =>
          simp only [FileComplete.invoke, Bool.false_eq_true, if_false, Directory.unlink_missing hn]
          by_cases hp : p = path
          · subst hp
            simp [hmem, Directory.read, hn]
          · simp [hmem, hp]
        | some i =>
          by_cases hp : p = path
          · subst hp
            simp [hmem, FileComplete.invoke, Directory.unlink, hn, Directory.orSame, Directory.read]
          · simp [hmem, hp, FileComplete.invoke, Directory.unlink, hn, Directory.orSame,
              Directory.read]

theorem mem_temporaries : p ∈ temporaries t ↔ .linkTemporary p ∈ t.completes := by
  unfold temporaries
  rw [mem_filterMap]
  constructor
  · rintro ⟨k, hk, hp⟩
    cases k with
    | newFile path => cases hp
    | linkTemporary path =>
      cases hp
      exact hk
  · intro hp
    exact ⟨_, hp, rfl⟩

/-- A transaction on files whose operations can all be undone, completed without a failing call: if
it failed, the names and contents are those before it; if not, they are exactly those requested. -/
theorem file_transaction {files : Files} (hwf : files.WellFormed) {ops : List FileOp}
    {names : List (Option Path)} {s : FileState}
    (hsound : SoundRun ops (files, gkmTransactionNew))
    (h : runFileOps ops (files, gkmTransactionNew) = .ok (names, s)) {fails : Nat → Bool}
    (hfails : ∀ n, fails n = false) :
    (s.2.failed = true → ∀ p, (completeFiles fails s).read p = files.read p) ∧
      (s.2.failed = false → Fulfilled ops names files.read (completeFiles fails s).read) := by
  obtain ⟨hc, log, hlog, hundo⟩ := runFileOps_undoes hwf rfl hsound h
  rw [completeFiles_eq hfails hc]
  constructor
  · intro hf p
    have hcompletes : s.2.completes = log := by simpa [gkmTransactionNew] using hlog
    rw [hf, hcompletes]
    exact hundo.read p
  · intro hf
    have hstart : Tracks files.read (files, gkmTransactionNew) :=
      { wellFormed := hwf
        absent := fun t ht => by cases ht
        live := fun t ht => by cases ht
        rest := fun _ _ => rfl }
    obtain ⟨m', hm', ht'⟩ := runFileOps_fulfilled hstart rfl hsound h hf
    have hread : (unwind (FileComplete.invoke false s.2.failed) s.2.completes s.1).read = m' := by
      funext p
      rw [hf, unwind_read]
      by_cases hp : .linkTemporary p ∈ s.2.completes
      · rw [if_pos hp, ht'.absent p (mem_temporaries.2 hp)]
      · rw [if_neg hp, ht'.rest p (fun hmem => hp (mem_temporaries.1 hmem))]
    rw [hread]
    exact hm'

/-- A directory with one file `a`. -/
def oneFile : Files where
  names := fun p => if p = ascii "a" then some 0 else none
  contents := fun _ => ascii "x"
  next := 1

/-- Calls that do not fail. -/
def goodCalls : WriteCalls where
  link _ := ⟨0, false⟩
  mkstemp _ := ⟨ascii "AAAAAA", false⟩
  write := []
  fsync := false
  close := false
  unlink := false
  rename := false

theorem oneFile_wellFormed : oneFile.WellFormed := by
  intro p i hp
  simp only [oneFile] at hp
  split at hp
  · cases hp
    exact Nat.one_pos
  · cases hp

theorem write_sound :
    SoundRun [.write (ascii "b") (ascii "y") [] goodCalls] (oneFile, gkmTransactionNew) := by
  refine ⟨⟨by decide, rfl, .inr fun c hc => ?_, fun linked s' hbegin _ => ?_⟩, fun _ _ _ => trivial⟩
  · cases hc
  · rcases beginLinkTemporaryIfExists_cases hbegin with ⟨number, inode, hinode, -⟩ | ⟨-, h⟩ | h
    · cases hinode
    · cases h
      exact ⟨rfl, rfl, fun hnone => by cases hnone⟩
    · cases h

theorem file_transaction_sample :
    ∃ names s, runFileOps [.write (ascii "b") (ascii "y") [] goodCalls]
        (oneFile, gkmTransactionNew) = .ok (names, s) ∧ s.2.failed = false ∧
      (completeFiles (fun _ => false) s).read (ascii "b") = some (ascii "y") := by
  obtain ⟨⟨names, s⟩, h, hf⟩ := exists_of_resultOf (b := false)
    (f := fun r : List (Option Path) × FileState => r.2.2.failed)
    (x := runFileOps [.write (ascii "b") (ascii "y") [] goodCalls] (oneFile, gkmTransactionNew))
    (by decide +kernel)
  refine ⟨names, s, h, hf, ?_⟩
  have hfulfilled := (file_transaction oneFile_wellFormed write_sound h (fun _ => rfl)).2 hf
  cases names with
  | nil => exact hfulfilled.elim
  | cons name names =>
    obtain ⟨m, rfl, hrest⟩ := hfulfilled
    cases names with
    | nil =>
      rw [hrest]
      exact update_self ..
    | cons _ _ => exact hrest.elim

/-- A file that cannot be removed: the temporary link and the file are one inode, and renaming the
one to the other leaves both. -/
theorem file_transaction_leaves_temporary :
    ∃ names s, runFileOps [.remove (ascii "a") (fun _ => ⟨0, false⟩) true]
        (oneFile, gkmTransactionNew) = .ok (names, s) ∧ s.2.failed = true ∧
      oneFile.read (ascii "a.temp-0") = none ∧
      (completeFiles (fun _ => false) s).read (ascii "a.temp-0") = some (ascii "x") := by
  obtain ⟨⟨names, s⟩, h, hread⟩ := exists_of_resultOf (b := (true, some (ascii "x")))
    (f := fun r : List (Option Path) × FileState =>
      (r.2.2.failed, (completeFiles (fun _ => false) r.2).read (ascii "a.temp-0")))
    (x := runFileOps [.remove (ascii "a") (fun _ => ⟨0, false⟩) true] (oneFile, gkmTransactionNew))
    (by decide +kernel)
  obtain ⟨hf, hx⟩ := Prod.mk.inj hread
  exact ⟨names, s, h, hf, by decide, hx⟩

end MateKeyring.Gkm
