import MateKeyring.Egg.BufferCodec
import MateKeyring.Egg.Reader

/-!
# Public keys in a blob

`read_public` of `gkm-ssh-openssh.c` reads the name of an algorithm and the numbers of the key, and does not look at
what follows. So a key that is read is the one that is read with more octets behind (`readBlob_append`). A name that
is not known is looked at again for a warning, after it was freed (`readBlob_faults_iff`).
-/

set_option autoImplicit false

namespace MateKeyring.Ssh.Openssh

open Lib Egg BigEndian List

/-! ## Reading -/

/-- `GCRY_PK_RSA` and `GCRY_PK_DSA`. -/
inductive Algo where
  | rsa
  | dsa
  deriving DecidableEq, Repr

/-- `keytype_to_algo` -/
def keytypeToAlgo (salgo : Bytes) : Option Algo :=
  if salgo = ascii "ssh-rsa" then some .rsa
  else if salgo = ascii "ssh-dss" then some .dsa
  else none

/-- The expressions `SEXP_PUBLIC_RSA` and `SEXP_PUBLIC_DSA`. -/
inductive PublicKey where
  | rsa (n e : Nat)
  | dsa (p q g y : Nat)
  deriving DecidableEq, Repr

/-- `gcry_mpi_scan` with `GCRYMPI_FMT_USG`; `none` is an error. -/
abbrev MpiScan := Bytes → Option Nat

variable (scan : MpiScan)

/-- `read_mpi` -/
def readMpi : Reader Nat := do
  let data ← get eggBufferGetByteArray
  match scan (data.getD []) with
  | none => Prog.stop ()
  | some mpi => pure mpi

/-- `read_public_rsa` -/
def readPublicRsa : Reader PublicKey := do
  let e ← readMpi scan
  let n ← readMpi scan
  pure (.rsa n e)

/-- `read_public_dsa` -/
def readPublicDsa : Reader PublicKey := do
  let p ← readMpi scan
  let q ← readMpi scan
  let g ← readMpi scan
  let y ← readMpi scan
  pure (.dsa p q g y)

/-- The warning about a name that is not known, which was freed: no memory of it is left. A null pointer is printed
as such. -/
def warnUnsupported (stype : Option Bytes) : Reader PublicKey :=
  match stype with
  | none => Prog.stop ()
  | some _ => fun _ => .error .outOfBounds

/-- `read_public` -/
def readPublic : Reader PublicKey := do
  let stype ← get eggBufferGetString
  match stype.bind keytypeToAlgo with
  | none => warnUnsupported stype
  | some .rsa => readPublicRsa scan
  | some .dsa => readPublicDsa scan

/-- `read_public` of a blob, from its start; `none` is `FALSE`. -/
def readBlob (blob : Bytes) : Checked (Option PublicKey) :=
  match readPublic scan ⟨eggBufferInitStatic blob, 0⟩ with
  | .error fault => .error fault
  | .ok (.error _, _) => .ok none
  | .ok (.ok key, _) => .ok (some key)

/-! ## More octets behind -/

/-- What is read is read with more octets behind. -/
def Grows {α : Type} (r : Reader α) : Prop :=
  ∀ blob more offset a c, r ⟨eggBufferInitStatic blob, offset⟩ = .ok (.ok a, c) →
    ∃ next, c = ⟨eggBufferInitStatic blob, next⟩ ∧
      r ⟨eggBufferInitStatic (blob ++ more), offset⟩ = .ok (.ok a, ⟨eggBufferInitStatic (blob ++ more), next⟩)

theorem grows_pure {α : Type} (a : α) : Grows (pure a : Reader α) := by
  intro blob more offset a c h
  cases h
  exact ⟨offset, rfl, rfl⟩

theorem grows_stop {α : Type} : Grows (Prog.stop () : Reader α) := by
  intro blob more offset a c h
  exact nomatch h

theorem Grows.bind {α β : Type} {r : Reader α} {f : α → Reader β} (hr : Grows r) (hf : ∀ a, Grows (f a)) :
    Grows (r >>= f) := by
  intro blob more offset b c h
  obtain ⟨a, c', hra, hfa⟩ := Prog.bind_eq_ok.1 h
  obtain ⟨next, rfl, hra'⟩ := hr blob more offset a c' hra
  obtain ⟨last, rfl, hfa'⟩ := hf a blob more next b c hfa
  exact ⟨last, rfl, Prog.bind_eq_ok.2 ⟨a, _, hra', hfa'⟩⟩

section Grow

variable {blob : Bytes} {offset : Nat}

theorem sliceAt_grow {n : Nat} {out : Bytes} (h : sliceAt blob offset n = some out)
    (more : Bytes) : sliceAt (blob ++ more) offset n = some out := by
  obtain ⟨hle, rfl⟩ := sliceAt_eq_some_iff.1 h
  apply sliceAt_eq_some_iff.2
  refine ⟨by rw [length_append]; omega, ?_⟩
  rw [drop_append_of_le_length (by omega), take_append_of_le_length (by rw [length_drop]; omega)]

theorem readAt_grow {k v : Nat} (h : readAt k blob offset = some v) (more : Bytes) :
    readAt k (blob ++ more) offset = some v := by
  obtain ⟨out, hout, rfl⟩ := Option.map_eq_some_iff.1 h
  exact Option.map_eq_some_iff.2 ⟨out, sliceAt_grow hout more, rfl⟩

theorem byteArrayAt_grow {r : Option Bytes × Nat} (h : byteArrayAt blob offset = some r)
    (more : Bytes) : byteArrayAt (blob ++ more) offset = some r := by
  rw [byteArrayAt] at h ⊢
  cases hread : readAt 4 blob offset with
  | none =>
    rw [hread] at h
    cases h
  | some len =>
    rw [hread] at h
    rw [readAt_grow hread more]
    dsimp only at h ⊢
    split at h
    · rename_i hnull
      rw [if_pos hnull, h]
    · rename_i hnull
      rw [if_neg hnull]
      split at h
      · cases h
      · rename_i hlen
        rw [if_neg hlen]
        obtain ⟨out, hout, rfl⟩ := Option.map_eq_some_iff.1 h
        exact Option.map_eq_some_iff.2 ⟨out, sliceAt_grow hout more, rfl⟩

theorem stringAt_grow {r : Option CString × Nat} (h : stringAt blob offset = some r) (more : Bytes) :
    stringAt (blob ++ more) offset = some r := by
  rw [stringAt] at h ⊢
  cases hread : readAt 4 blob offset with
  | none =>
    rw [hread] at h
    cases h
  | some len =>
    rw [hread] at h
    rw [readAt_grow hread more]
    dsimp only at h ⊢
    split at h
    · rename_i hnull
      rw [if_pos hnull, h]
    · rename_i hnull
      rw [if_neg hnull]
      split at h
      · cases h
      · rename_i hlen
        rw [if_neg hlen]
        cases hslice : sliceAt blob (offset + 4) len with
        | none =>
          rw [hslice] at h
          cases h
        | some out =>
          rw [hslice] at h
          rw [sliceAt_grow hslice more]
          exact h

end Grow

section

variable {α : Type} {f : Getter α}

/-- A read that goes on. -/
theorem get_ok {c c' : Cursor}
    {a : α} (h : get f c = .ok (.ok a, c')) : ∃ next, f c.req c.offset = .ok (some (a, next), c'.req) ∧ c'.offset = next := by
  unfold Egg.get at h
  obtain ⟨⟨r, req⟩, hrun, h⟩ := bind_eq_ok.1 h
  cases r with
  | none => exact nomatch h
  | some r =>
    cases h
    exact ⟨r.2, hrun, rfl⟩

theorem get_of_ok {c : Cursor}
    {a : α} {next : Nat} {req : EggBuffer} (h : f c.req c.offset = .ok (some (a, next), req)) :
    get f c = .ok (.ok a, ⟨req, next⟩) := by
  unfold Egg.get
  rw [h]
  rfl

end

/-- How a byte array is read in a blob. -/
theorem getByteArray_ok_iff {blob : Bytes} {offset : Nat} {a : Option Bytes} {c : Cursor} :
    get eggBufferGetByteArray ⟨eggBufferInitStatic blob, offset⟩ = .ok (.ok a, c) ↔
      ∃ next, byteArrayAt blob offset = some (a, next) ∧ c = ⟨eggBufferInitStatic blob, next⟩ := by
  have hrun := eggBufferGetByteArray_eq (eggBufferInitStatic blob) offset
  constructor
  · intro h
    obtain ⟨next, hget, hnext⟩ := get_ok h
    rw [show eggBufferGetByteArray (eggBufferInitStatic blob) offset = _ from hrun] at hget
    cases hat : byteArrayAt blob offset with
    | none =>
      have hbuf : byteArrayAt (eggBufferInitStatic blob).buf offset = none := hat
      rw [hbuf] at hget
      exact nomatch hget
    | some r =>
      have hbuf : byteArrayAt (eggBufferInitStatic blob).buf offset = some r := hat
      rw [hbuf] at hget
      obtain ⟨hr, hreq⟩ := Prod.mk.inj (Except.ok.inj hget)
      obtain ⟨req, place⟩ := c
      cases hr
      cases hreq
      cases hnext
      exact ⟨_, rfl, rfl⟩
  · rintro ⟨next, hat, rfl⟩
    have hbuf : byteArrayAt (eggBufferInitStatic blob).buf offset = some (a, next) := hat
    rw [hbuf] at hrun
    exact get_of_ok hrun

theorem grows_byteArray : Grows (get eggBufferGetByteArray) := by
  intro blob more offset a c h
  obtain ⟨next, hat, rfl⟩ := getByteArray_ok_iff.1 h
  exact ⟨next, rfl, getByteArray_ok_iff.2 ⟨next, byteArrayAt_grow hat more, rfl⟩⟩

/-- How a string is read in a blob. -/
theorem getString_ok_iff {blob : Bytes} {offset : Nat} {a : Option Bytes} {c : Cursor} :
    get eggBufferGetString ⟨eggBufferInitStatic blob, offset⟩ = .ok (.ok a, c) ↔
      ∃ str next, stringAt blob offset = some (str, next) ∧ a = str.map Subtype.val ∧
        c = ⟨eggBufferInitStatic blob, next⟩ := by
  obtain ⟨b', hrun, hsame⟩ := eggBufferGetString_eq (eggBufferInitStatic blob) offset
  constructor
  · intro h
    obtain ⟨next, hget, hnext⟩ := get_ok h
    rw [show eggBufferGetString (eggBufferInitStatic blob) offset = _ from hrun] at hget
    have hpair := Prod.mk.inj (Except.ok.inj hget)
    obtain ⟨⟨str, next'⟩, hat, heq⟩ := Option.map_eq_some_iff.1 hpair.1
    cases heq
    have hreq := (hsame (by rw [hat]; exact Option.some_ne_none _)).symm.trans hpair.2
    refine ⟨str, next', hat, rfl, ?_⟩
    obtain ⟨req, place⟩ := c
    cases hreq
    cases hnext
    rfl
  · rintro ⟨str, next, hat, rfl, rfl⟩
    have hbuf : stringAt (eggBufferInitStatic blob).buf offset = some (str, next) := hat
    rw [hbuf] at hrun
    obtain rfl := hsame (by rw [hbuf]; exact Option.some_ne_none _)
    exact get_of_ok hrun

theorem grows_string : Grows (get eggBufferGetString) := by
  intro blob more offset a c h
  obtain ⟨str, next, hat, rfl, rfl⟩ := getString_ok_iff.1 h
  exact ⟨next, rfl, getString_ok_iff.2 ⟨str, next, stringAt_grow hat more, rfl, rfl⟩⟩

theorem grows_mpi : Grows (readMpi scan) := by
  refine grows_byteArray.bind fun data => ?_
  cases scan (data.getD []) with
  | none => exact grows_stop
  | some mpi => exact grows_pure mpi

theorem grows_rsa : Grows (readPublicRsa scan) :=
  (grows_mpi scan).bind fun _ => (grows_mpi scan).bind fun _ => grows_pure _

theorem grows_dsa : Grows (readPublicDsa scan) :=
  (grows_mpi scan).bind fun _ => (grows_mpi scan).bind fun _ => (grows_mpi scan).bind fun _ =>
    (grows_mpi scan).bind fun _ => grows_pure _

theorem grows_public : Grows (readPublic scan) := by
  refine grows_string.bind fun stype => ?_
  cases stype.bind keytypeToAlgo with
  | none =>
    cases stype with
    | none => exact grows_stop
    | some name =>
      intro blob more offset a c h
      exact nomatch h
  | some algo =>
    cases algo with
    | rsa => exact grows_rsa scan
    | dsa => exact grows_dsa scan

/-- A key that is read is read with more octets behind. -/
theorem readBlob_append {blob : Bytes} {key : PublicKey} (h : readBlob scan blob = .ok (some key))
    (more : Bytes) : readBlob scan (blob ++ more) = .ok (some key) := by
  rw [readBlob] at h ⊢
  split at h
  · exact nomatch h
  · exact nomatch h
  · rename_i key' c hrun
    cases h
    obtain ⟨next, -, hmore⟩ := grows_public scan blob more 0 key c hrun
    rw [hmore]

/-! ## The form of a key -/

/-- So many byte strings from the offset on, each of them a number. -/
def NumbersAt (blob : Bytes) : Nat → Nat → Prop
  | 0, _ => True
  | n + 1, offset => ∃ data next, byteArrayAt blob offset = some (data, next) ∧ (scan (data.getD [])).isSome ∧
      NumbersAt blob n next

/-- How many numbers a key has. -/
def Algo.numbers : Algo → Nat
  | .rsa => 2
  | .dsa => 4

/-- The blob starts with the name of an algorithm and with the numbers of a key. -/
def HasKey (blob : Bytes) : Prop :=
  ∃ name next algo, stringAt blob 0 = some (some name, next) ∧ keytypeToAlgo name.val = some algo ∧
    NumbersAt scan blob algo.numbers next

/-- The reader comes to a key. -/
def Comes (r : Reader PublicKey) (blob : Bytes) (offset : Nat) : Prop :=
  ∃ key c, r ⟨eggBufferInitStatic blob, offset⟩ = .ok (.ok key, c)

section

variable {scan} {blob : Bytes}

theorem comes_pure (key : PublicKey) (offset : Nat) : Comes (pure key) blob offset ↔ NumbersAt scan blob 0 offset :=
  iff_of_true ⟨key, _, rfl⟩ trivial

/-- A number is read, and then the others. -/
theorem comes_mpi {f : Nat → Reader PublicKey} {n : Nat}
    (hf : ∀ mpi next, Comes (f mpi) blob next ↔ NumbersAt scan blob n next) (offset : Nat) :
    Comes (readMpi scan >>= f) blob offset ↔ NumbersAt scan blob (n + 1) offset := by
  constructor
  · rintro ⟨key, c, h⟩
    obtain ⟨mpi, c', hmpi, hkey⟩ := Prog.bind_eq_ok.1 h
    obtain ⟨data, c'', hdata, hscan⟩ := Prog.bind_eq_ok.1 hmpi
    obtain ⟨next, hat, rfl⟩ := getByteArray_ok_iff.1 hdata
    cases hnumber : scan (data.getD []) with
    | none =>
      rw [hnumber] at hscan
      cases hscan
    | some mpi' =>
      rw [hnumber] at hscan
      cases hscan
      exact ⟨data, next, hat, by rw [hnumber]; rfl, (hf mpi next).1 ⟨key, c, hkey⟩⟩
  · rintro ⟨data, next, hat, hnumber, hrest⟩
    obtain ⟨mpi, hmpi⟩ := Option.isSome_iff_exists.1 hnumber
    obtain ⟨key, c, hkey⟩ := (hf mpi next).2 hrest
    have hread : readMpi scan ⟨eggBufferInitStatic blob, offset⟩ = .ok (.ok mpi, ⟨eggBufferInitStatic blob, next⟩) := by
      rw [readMpi, Prog.bind_of_ok (getByteArray_ok_iff.2 ⟨next, hat, rfl⟩), hmpi]
      rfl
    exact ⟨key, c, Prog.bind_eq_ok.2 ⟨mpi, _, hread, hkey⟩⟩

theorem comes_rsa (offset : Nat) : Comes (readPublicRsa scan) blob offset ↔ NumbersAt scan blob 2 offset :=
  comes_mpi (fun _ => comes_mpi fun _ => comes_pure _) offset

theorem comes_dsa (offset : Nat) : Comes (readPublicDsa scan) blob offset ↔ NumbersAt scan blob 4 offset :=
  comes_mpi (fun _ => comes_mpi fun _ => comes_mpi fun _ => comes_mpi fun _ => comes_pure _) offset

/-- A blob of that form is what is read. -/
theorem hasKey_iff : HasKey scan blob ↔ ∃ key, readBlob scan blob = .ok (some key) := by
  have hcomes : (∃ key, readBlob scan blob = .ok (some key)) ↔ Comes (readPublic scan) blob 0 := by
    rw [Comes, readBlob]
    constructor
    · rintro ⟨key, h⟩
      split at h
      · exact nomatch h
      · exact nomatch h
      · rename_i key' c hrun
        exact ⟨key', c, hrun⟩
    · rintro ⟨key, c, h⟩
      rw [h]
      exact ⟨key, rfl⟩
  rw [hcomes]
  constructor
  · rintro ⟨name, next, algo, hat, halgo, hnumbers⟩
    have hbind : ((some name).map Subtype.val).bind keytypeToAlgo = some algo := halgo
    rw [Comes, readPublic, Prog.bind_of_ok (getString_ok_iff.2 ⟨some name, next, hat, rfl, rfl⟩), hbind]
    cases algo with
    | rsa => exact (comes_rsa next).2 hnumbers
    | dsa => exact (comes_dsa next).2 hnumbers
  · rintro ⟨key, c, h⟩
    obtain ⟨stype, c', hstype, hrest⟩ := Prog.bind_eq_ok.1 h
    obtain ⟨str, next, hat, rfl, rfl⟩ := getString_ok_iff.1 hstype
    cases str with
    | none => exact nomatch hrest
    | some name =>
      have hbind : ((some name).map Subtype.val).bind keytypeToAlgo = keytypeToAlgo name.val := rfl
      rw [hbind] at hrest
      cases halgo : keytypeToAlgo name.val with
      | none =>
        rw [halgo] at hrest
        exact nomatch hrest
      | some algo =>
        rw [halgo] at hrest
        refine ⟨name, next, algo, hat, halgo, ?_⟩
        cases algo with
        | rsa => exact (comes_rsa next).1 ⟨key, c, hrest⟩
        | dsa => exact (comes_dsa next).1 ⟨key, c, hrest⟩

end

/-! ## A name that is not known -/

/-- The blob starts with a string that is no name of an algorithm. -/
def NamesUnknown (blob : Bytes) : Prop :=
  ∃ name next, stringAt blob 0 = some (some name, next) ∧ keytypeToAlgo name.val = none

theorem NamesUnknown.append {blob : Bytes} (h : NamesUnknown blob) (more : Bytes) :
    NamesUnknown (blob ++ more) := by
  obtain ⟨name, next, hat, hname⟩ := h
  exact ⟨name, next, stringAt_grow hat more, hname⟩

theorem total_mpi : Total (readMpi scan) := by
  refine total_byteArray.bind fun data => ?_
  cases scan (data.getD []) with
  | none => exact total_stop
  | some mpi => exact total_pure mpi

theorem total_rsa : Total (readPublicRsa scan) :=
  (total_mpi scan).bind fun _ => (total_mpi scan).bind fun _ => total_pure _

theorem total_dsa : Total (readPublicDsa scan) :=
  (total_mpi scan).bind fun _ => (total_mpi scan).bind fun _ => (total_mpi scan).bind fun _ =>
    (total_mpi scan).bind fun _ => total_pure _

/-- Freed memory is read exactly for a name that is not known. -/
theorem readBlob_cases (blob : Bytes) :
    (NamesUnknown blob ∧ readBlob scan blob = .error .outOfBounds) ∨
      (¬ NamesUnknown blob ∧ ∃ key, readBlob scan blob = .ok key) := by
  have hdone : ∀ {r : Reader PublicKey} {c : Cursor}, Total r → ∃ key : Option PublicKey, (match r c with
      | .error fault => .error fault
      | .ok (.error _, _) => .ok none
      | .ok (.ok key, _) => .ok (some key)) = (.ok key : Checked (Option PublicKey)) := by
    intro r c hr
    obtain ⟨x, hx⟩ := hr c
    rw [hx]
    obtain ⟨x, c'⟩ := x
    cases x with
    | error _ => exact ⟨none, rfl⟩
    | ok key => exact ⟨some key, rfl⟩
  obtain ⟨⟨r, c⟩, hget⟩ := total_string ⟨eggBufferInitStatic blob, 0⟩
  cases r with
  | error _ =>
    refine .inr ⟨?_, none, ?_⟩
    · rintro ⟨name, next, hat, -⟩
      rw [getString_ok_iff.2 ⟨some name, next, hat, rfl, rfl⟩] at hget
      exact nomatch hget
    · rw [readBlob, readPublic, Prog.bind_of_stop hget]
  | ok stype =>
    obtain ⟨str, next, hat, rfl, rfl⟩ := getString_ok_iff.1 hget
    have hone : ∀ {name : CString} {next' : Nat}, stringAt blob 0 = some (some name, next') → str = some name := by
      intro name next' h
      exact congrArg Prod.fst (Option.some.inj (hat.symm.trans h))
    rw [readBlob, readPublic, Prog.bind_of_ok hget]
    cases str with
    | none =>
      refine .inr ⟨?_, none, rfl⟩
      rintro ⟨name, next', h, -⟩
      exact nomatch hone h
    | some name =>
      cases hname : keytypeToAlgo name.val with
      | none =>
        have hbind : ((some name).map Subtype.val).bind keytypeToAlgo = none := hname
        rw [hbind]
        exact .inl ⟨⟨name, next, hat, hname⟩, rfl⟩
      | some algo =>
        have hbind : ((some name).map Subtype.val).bind keytypeToAlgo = some algo := hname
        rw [hbind]
        refine .inr ⟨?_, ?_⟩
        · rintro ⟨name', next', hat', hunknown⟩
          cases hone hat'
          rw [hname] at hunknown
          exact nomatch hunknown
        · cases algo with
          | rsa => exact hdone (total_rsa scan)
          | dsa => exact hdone (total_dsa scan)

end MateKeyring.Ssh.Openssh
