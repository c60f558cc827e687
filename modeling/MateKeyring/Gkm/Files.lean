import Mathlib.Data.List.DropRight
import MateKeyring.Gkm.Transaction
import MateKeyring.Lib.CText
import MateKeyring.Lib.Directory

/-!
# Files in a transaction

`gkm_transaction_write_file`, `gkm_transaction_remove_file` and `gkm_transaction_unique_file`. Before
a file is replaced or removed, a temporary hard link to it is made, which is renamed back when the
transaction fails and removed when it succeeds. Each operation has, beside its arguments, what the
system calls within it give: random numbers, and which of the calls fail.
-/

set_option autoImplicit false

namespace MateKeyring.Gkm

open Lib Egg
open Rpc (CkRv ckrOk ckrDeviceError)

/-! ## Names -/

/-- A path. -/
abbrev Path := Bytes

/-- The files of a file system. -/
abbrev Files := Directory Path Bytes

/-- `g_strdup_printf ("%s.temp-%d", filename, number)`. -/
def temporaryName (filename : Path) (number : Nat) : Path :=
  filename ++ (ascii ".temp-" ++ decimal number)

/-- What `complete_link_temporary` takes for the original name: all before the last dot. -/
def originalName (path : Path) : Option Path :=
  if 46 ∈ path then some (path.rdropWhile (· ≠ 46)).dropLast else none

/-- `g_path_get_dirname`. -/
def gPathGetDirname (filename : Path) : Path :=
  if 47 ∈ filename then
    let base := (filename.rdropWhile (· ≠ 47)).rdropWhile (· = 47)
    if base = [] then [47] else base
  else ascii "."

/-- `g_build_filename` of two elements. -/
def gBuildFilename (directory name : Path) : Path :=
  if directory = [] then name
  else if name = [] then directory
  else directory.rdropWhile (· = 47) ++ [47] ++ name.dropWhile (· = 47)

/-- The template of `write_to_file`, with the letters of `g_mkstemp`. -/
def templateName (filename : Path) (letters : Bytes) : Path :=
  gBuildFilename (gPathGetDirname filename) (ascii ".temp-" ++ letters)

/-- `g_strdup_printf ("%s_%d%s%s", base, seed, ext ? "." : "", ext ? ext : "")`. -/
def seededName (basename : Path) (seed : Nat) : Path :=
  match originalName basename with
  | none => basename ++ ascii "_" ++ decimal seed
  | some base => base ++ ascii "_" ++ decimal seed ++ basename.drop base.length

/-! ## What the system calls give -/

/-- A call with a random number in it. -/
structure RandomCall where
  number : Nat
  fails : Bool

/-- A try of `g_mkstemp`. -/
structure MkstempCall where
  letters : Bytes
  fails : Bool

/-- A result of `write`: `EINTR` or `EAGAIN`, another error, or a number of bytes. -/
inductive WriteCall where
  | interrupted
  | error
  | wrote (n : Nat)
  deriving DecidableEq

/-- The system calls of `gkm_transaction_write_file`; a `write` beyond the list writes everything. -/
structure WriteCalls where
  link : Nat → RandomCall
  mkstemp : Nat → MkstempCall
  write : List WriteCall
  fsync : Bool
  close : Bool
  unlink : Bool
  rename : Bool

/-- `MAX_TRIES`. -/
abbrev maxTries : Nat := 100000

/-! ## Callbacks -/

/-- The callbacks of the file operations. -/
inductive FileComplete where
  | newFile (path : Path)
  | linkTemporary (path : Path)
  deriving DecidableEq

/-- `complete_new_file` and `complete_link_temporary`; `fails` is the failure of their one call. -/
def FileComplete.invoke (fails failed : Bool) (complete : FileComplete) (files : Files) : Files :=
  match complete with
  | .newFile path => if failed then files.orSame (files.unlink path fails) else files
  | .linkTemporary path =>
    if failed then
      match originalName path with
      | none => files
      | some original => files.orSame (files.rename path original fails)
    else files.orSame (files.unlink path fails)

/-- Files and transaction. -/
abbrev FileState := Files × GkmTransaction FileComplete

/-! ## Operations -/

/-- How `begin_link_temporary_if_exists` ends. -/
inductive Linked where
  | temporary (path : Path) (files : Files)
  | missing
  | failed

/-- The loop of `begin_link_temporary_if_exists`; `g_assert_not_reached` after it. -/
def linkTemporaryLoop (files : Files) (filename : Path) (calls : Nat → RandomCall) :
    Nat → Nat → Checked Linked
  | 0, _ => .error .assertion
  | n + 1, i =>
    let path := temporaryName filename (calls i).number
    match files.link filename path (calls i).fails with
    | .ok files => .ok (.temporary path files)
    | .error .enoent => .ok .missing
    | .error .eexist => linkTemporaryLoop files filename calls n (i + 1)
    | .error .other => .ok .failed

/-- `begin_link_temporary_if_exists`: `none` when it fails, else whether the file exists. -/
def beginLinkTemporaryIfExists (s : FileState) (filename : Path) (calls : Nat → RandomCall) :
    Checked (Option Bool × FileState) := do
  match ← linkTemporaryLoop s.1 filename calls maxTries 0 with
  | .temporary path files =>
    pure (some true, files, gkmTransactionAdd s.2 (.linkTemporary path))
  | .missing => pure (some false, s)
  | .failed => pure (none, s.1, gkmTransactionFail s.2 ckrDeviceError)

/-- `g_mkstemp`, with the name that it leaves in the template. -/
def gMkstemp (files : Files) (filename : Path) (calls : Nat → MkstempCall) :
    Nat → Nat → Option Files × Path
  | 0, i => (none, templateName filename (calls (i - 1)).letters)
  | n + 1, i =>
    let path := templateName filename (calls i).letters
    match files.create path [] (calls i).fails with
    | .ok files => (some files, path)
    | .error .eexist => gMkstemp files filename calls n (i + 1)
    | .error _ => (none, path)

/-- The loop of `write_sync_close`, from the start of the data in `memory`: whether it ends well, and
what it wrote. `n_data -= MAX (res, n_data)` ends the loop after every call that wrote something, and
adds one to `n_data` after one that was interrupted. -/
def writeLoop (memory : Bytes) : Nat → List WriteCall → Checked (Bool × Bytes)
  | 0, _ => .ok (true, [])
  | n + 1, [] => if memory.length < n + 1 then .error .outOfBounds else .ok (true, memory.take (n + 1))
  | n + 1, .interrupted :: calls => writeLoop memory ((n + 2) % 2 ^ 64) calls
  | _ + 1, .error :: _ => .ok (false, [])
  | n + 1, .wrote k :: _ =>
    if memory.length < n + 1 then .error .outOfBounds else .ok (true, memory.take (min k (n + 1)))

/-- `write_sync_close`; `beyond` is what the memory holds after the data. -/
def writeSyncClose (data beyond : Bytes) (calls : WriteCalls) : Checked (Bool × Bytes) := do
  let (ok, bytes) ← writeLoop (data ++ beyond) data.length calls.write
  pure (ok && !calls.fsync && !calls.close, bytes)

/-- `write_to_file`. -/
def writeToFile (files : Files) (filename : Path) (data beyond : Bytes) (calls : WriteCalls) :
    Checked (Bool × Files) := do
  match gMkstemp files filename calls.mkstemp 100 0 with
  | (none, template) => pure (false, files.orSame (files.unlink template calls.unlink))
  | (some created, template) =>
    let (ok, bytes) ← writeSyncClose data beyond calls
    let filled := created.fill files.next bytes
    if ok then
      match filled.rename template filename calls.rename with
      | .ok renamed => pure (true, renamed)
      | .error _ => pure (false, filled)
    else pure (false, filled.orSame (filled.unlink template calls.unlink))

/-- `gkm_transaction_write_file`. -/
def gkmTransactionWriteFile (s : FileState) (filename : Path) (data beyond : Bytes)
    (calls : WriteCalls) : Checked FileState := do
  if s.2.failed then pure s
  else
    match ← beginLinkTemporaryIfExists s filename calls.link with
    | (none, s) => pure s
    | (some linked, s) =>
      let transaction := if linked then s.2 else gkmTransactionAdd s.2 (.newFile filename)
      let (ok, files) ← writeToFile s.1 filename data beyond calls
      if ok then pure (files, transaction)
      else pure (files, gkmTransactionFail transaction ckrDeviceError)

/-- `gkm_transaction_remove_file`. -/
def gkmTransactionRemoveFile (s : FileState) (filename : Path) (link : Nat → RandomCall)
    (unlink : Bool) : Checked FileState := do
  if s.2.failed then pure s
  else
    match ← beginLinkTemporaryIfExists s filename link with
    | (none, s) => pure s
    | (some false, s) => pure s
    | (some true, s) =>
      match s.1.unlink filename unlink with
      | .ok files => pure (files, s.2)
      | .error _ => pure (s.1, gkmTransactionFail s.2 ckrDeviceError)

/-- The loop of `gkm_transaction_unique_file`, from `seed` on. -/
def uniqueLoop (files : Files) (directory basename : Path) (calls : Nat → Bool) :
    Nat → Nat → Option (Files × Path)
  | 0, _ => none
  | n + 1, seed =>
    let name := seededName basename seed
    match files.create (gBuildFilename directory name) [] (calls seed) with
    | .ok files => some (files, name)
    | .error .eexist => uniqueLoop files directory basename calls n (seed + 1)
    | .error _ => none

/-- The files of `gkm_transaction_unique_file`. -/
def uniqueName (files : Files) (directory basename : Path) (calls : Nat → Bool) :
    Option (Files × Path) :=
  match files.create (gBuildFilename directory basename) [] (calls 0) with
  | .ok files => some (files, basename)
  | .error .eexist => uniqueLoop files directory basename calls (maxTries - 1) 1
  | .error _ => none

/-- `gkm_transaction_unique_file`. The directory is there: the result of `g_mkdir_with_parents` is
compared as `!result < 0`, which is never true. -/
def gkmTransactionUniqueFile (s : FileState) (directory basename : Path) (calls : Nat → Bool) :
    Option Path × FileState :=
  if s.2.failed then (none, s)
  else
    match uniqueName s.1 directory basename calls with
    | none => (none, s.1, gkmTransactionFail s.2 ckrDeviceError)
    | some (files, name) =>
      (some name, files, gkmTransactionAdd s.2 (.newFile (gBuildFilename directory name)))

/-! ## Runs -/

/-- An operation of a transaction on files. -/
inductive FileOp where
  | write (filename : Path) (data beyond : Bytes) (calls : WriteCalls)
  | remove (filename : Path) (link : Nat → RandomCall) (unlink : Bool)
  | unique (directory basename : Path) (calls : Nat → Bool)
  | fail (result : CkRv)

/-- One operation, with the name that it returns. -/
def FileOp.run (op : FileOp) (s : FileState) : Checked (Option Path × FileState) :=
  match op with
  | .write filename data beyond calls => do
      let s ← gkmTransactionWriteFile s filename data beyond calls
      pure (none, s)
  | .remove filename link unlink => do
      let s ← gkmTransactionRemoveFile s filename link unlink
      pure (none, s)
  | .unique directory basename calls => .ok (gkmTransactionUniqueFile s directory basename calls)
  | .fail result => .ok (none, s.1, gkmTransactionFail s.2 result)

/-- A sequence of operations, with the names that they return. -/
def runFileOps : List FileOp → FileState → Checked (List (Option Path) × FileState)
  | [], s => .ok ([], s)
  | op :: ops, s => do
      let (name, s) ← op.run s
      let (names, s) ← runFileOps ops s
      pure (name :: names, s)

/-- The files after the transaction is completed; `fails` says of each callback whether its call
fails. -/
def completeFiles (fails : Nat → Bool) (s : FileState) : Files :=
  (gkmTransactionComplete
    (fun failed complete (t : Files × Nat) => (complete.invoke (fails t.2) failed t.1, t.2 + 1))
    s.2 (s.1, 0)).2.1

end MateKeyring.Gkm
