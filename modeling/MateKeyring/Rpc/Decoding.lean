import MateKeyring.Rpc.Outs

/-!
# What the readers of a response decode

A `Decoder` reads a value from bytes at a position, or fails. Each reader of a stub has one:
where it succeeds the reader ends with `CKR_OK`, at the same position and with the same value, and
where it fails the reader does not (`Decodes`). No reader that is run at its place in the signature
evaluates a false assertion, but for the one of attributes, when it is asked for none.
`readOuts_spec` says the same of all the `OUT_*` macros of a stub.
-/

set_option autoImplicit false

namespace MateKeyring.Rpc.Module

open Lib Egg Dispatch List

variable {p : Signature} {resp : GkmRpcMessage} {ret : CkRv}

/-! ## Decoders -/

/-- A value read from bytes at a position, with the position behind it. -/
abbrev Decoder (α : Type) := ReaderT Bytes (StateT Nat Option) α

variable {α β γ : Type}

/-- A value that takes no bytes. -/
def given (a : Option α) : Decoder α := fun _ off => a.map fun a => (a, off)

theorem Decoder.bind_apply (d : Decoder α) (e : α → Decoder β) (bs : Bytes) (off : Nat) :
    (d >>= e) bs off = (d bs off).bind fun r => e r.1 bs r.2 := rfl

/-- The outcome `r` of a reader is not a success: it is a code other than `CKR_OK`, a value that
does not count, or a fault of the memory. -/
def Refused (good : α → Option β) (r : Checked (Except CkRv α × GkmRpcMessage)) : Prop :=
  match r with
  | .error f => f ≠ .assertion
  | .ok (.error ret, _) => ret ≠ ckrOk
  | .ok (.ok a, _) => good a = none

/-- The response read up to `off`, whose signature still expects `rest`. -/
def reached (resp : GkmRpcMessage) (rest : Signature) (off : Nat) : GkmRpcMessage :=
  { resp with sigverify := some rest, parsed := off }

/-- `x`, run where the signature of the response expects `part`, goes on with a value that counts
as the one that `d` decodes, and is refused where `d` fails. -/
def Decodes (x : Response α) (good : α → Option β) (part : Signature) (d : Decoder β) : Prop :=
  ∀ resp rest, Expects resp (part ++ rest) →
    match d resp.buffer.buf resp.parsed with
    | some (b, off) => ∃ a, good a = some b ∧ x resp = .ok (.ok a, reached resp rest off)
    | none => Refused good (x resp)

theorem expects_reached {resp : GkmRpcMessage} {sig rest : Signature} (h : Expects resp sig)
    (off : Nat) : Expects (reached resp rest off) rest := ⟨h.1, rfl⟩

variable {rest : Signature}

theorem reached_self (h : Expects resp rest) : reached resp rest resp.parsed = resp := by
  unfold reached
  rw [← h.2]

variable {x : Response α} {d : Decoder α}

theorem Decodes.bind {f : α → Response β} {good : β → Option γ}
    {p q : Signature} {e : α → Decoder γ} (hx : Decodes x some p d)
    (hf : ∀ a, Decodes (f a) good q (e a)) : Decodes (x >>= f) good (p ++ q) (d >>= e) := by
  intro resp rest hexp
  rw [append_assoc] at hexp
  have h := hx resp (q ++ rest) hexp
  rw [Decoder.bind_apply]
  cases hd : d resp.buffer.buf resp.parsed with
  | none =>
    rw [hd] at h
    -- `x` stops, or it faults
    cases hr : x resp with
    | error fault =>
      have heq : (x >>= f) resp = .error fault := by
        show Prog.andThen x f resp = _
        simp [Prog.andThen, hr]
      rw [hr] at h
      show Refused good ((x >>= f) resp)
      rw [heq]
      exact h
    | ok r =>
      obtain ⟨r, resp'⟩ := r
      rw [hr] at h
      cases r with
      | error ret =>
        show Refused good ((x >>= f) resp)
        rw [Prog.bind_of_stop hr]
        exact h
      | ok a => exact absurd h (by simp [Refused])
  | some v =>
    obtain ⟨a, off⟩ := v
    rw [hd] at h
    obtain ⟨a', ha, hr⟩ := h
    obtain rfl : a' = a := by simpa using ha
    have h' := hf a' (reached resp (q ++ rest) off) rest (expects_reached hexp off)
    rw [Option.bind_some, Prog.bind_of_ok hr]
    exact h'

theorem Decodes.pure {good : α → Option β} (a : α) : Decodes (pure a) good [] (given (good a)) := by
  intro resp rest hexp
  unfold given
  cases hg : good a with
  | none => exact hg
  | some b =>
    refine ⟨a, hg, ?_⟩
    rw [reached_self (show Expects resp rest from hexp)]
    rfl

variable {good : α → Option β}

theorem Decodes.stop (hret : ret ≠ ckrOk) :
    Decodes (Prog.stop ret) good [] (given none) := fun _ _ _ => hret

/-- A step on the memory decodes what it gives when it does not fault. -/
theorem Decodes.inMemory {good : α → Option β} {x : Checked α} (hx : x ≠ .error .assertion) :
    Decodes (inMemory x) good [] (given (x.toOption.bind good)) := by
  intro resp rest hexp
  unfold given Module.inMemory Prog.run
  cases hr : x with
  | error f =>
    intro hf
    rw [hr, hf] at hx
    exact hx rfl
  | ok a =>
    show match (good a).map fun a => (a, resp.parsed) with | some (b, off) => _ | none => _
    cases hg : good a with
    | none => exact hg
    | some b =>
      refine ⟨a, hg, ?_⟩
      rw [reached_self (show Expects resp rest from hexp)]
      rfl

theorem Decodes.ite {y : Response α} {d e : Decoder β} {c : Prop} [Decidable c]
    (hx : c → Decodes x good p d) (hy : ¬ c → Decodes y good p e) :
    Decodes (if c then x else y) good p (if c then d else e) := by
  by_cases hc : c
  · rw [if_pos hc, if_pos hc]
    exact hx hc
  · rw [if_neg hc, if_neg hc]
    exact hy hc

theorem assertOrder_decodes (part : Signature) :
    Decodes (assertOrder part) some part (given (some ())) := by
  intro resp rest hexp
  refine ⟨(), rfl, ?_⟩
  apply Prog.run_apply
  rw [assertPart_of_expects hexp]
  rfl

variable {part : Signature}

/-- A reader that starts with a check of its place in the signature. -/
theorem Decodes.inOrder {x : Unit → Response α} {q : Signature}
    {d : Decoder β} (h : Decodes (x ()) good q d) :
    Decodes (assertOrder part >>= x) good (part ++ q) d :=
  Decodes.bind (assertOrder_decodes part) fun _ => h

variable {r : Getter α} {val : Bytes → Nat → Option (α × Nat)}

/-- A read that never faults. -/
theorem getOrParseError_decodes (h : Reads r val) : Decodes (getOrParseError r) some [] val := by
  intro resp rest hexp
  have hget := GkmRpcMessage.get_eq h resp
  unfold getOrParseError
  cases hv : val resp.buffer.buf resp.parsed with
  | none =>
    rw [hv] at hget
    rw [Prog.bind_of_ok (Prog.run_apply hget)]
    show ckrDeviceError ≠ ckrOk
    decide
  | some v =>
    obtain ⟨a, off⟩ := v
    rw [hv] at hget
    refine ⟨a, rfl, ?_⟩
    rw [Prog.bind_of_ok (Prog.run_apply hget)]
    have hver : resp.sigverify = some rest := hexp.2
    unfold reached
    rw [← hver]
    rfl

/-- A function on messages that never faults at its place in the signature, and reads what `d`
decodes. -/
def ReadsAt (r : GkmRpcMessage → Checked (Option α × GkmRpcMessage)) (part : Signature)
    (d : Decoder α) : Prop :=
  ∀ resp rest, Expects resp (part ++ rest) →
    match d resp.buffer.buf resp.parsed with
    | some (a, off) => r resp = .ok (some a, reached resp rest off)
    | none => ∃ resp', r resp = .ok (none, resp')

theorem orParseError_decodes {r : GkmRpcMessage → Checked (Option α × GkmRpcMessage)}
    (h : ReadsAt r part d) :
    Decodes (orParseError r) some part d := by
  intro resp rest hexp
  have h' := h resp rest hexp
  unfold orParseError
  cases hd : d resp.buffer.buf resp.parsed with
  | none =>
    rw [hd] at h'
    obtain ⟨resp', hr⟩ := h'
    rw [Prog.bind_of_ok (Prog.run_apply hr)]
    show ckrDeviceError ≠ ckrOk
    decide
  | some v =>
    obtain ⟨a, off⟩ := v
    rw [hd] at h'
    exact ⟨a, rfl, by rw [Prog.bind_of_ok (Prog.run_apply h')]; rfl⟩

/-! ## Records -/

/-- The two bytes of a version. -/
def versionAt : Decoder CkVersion := do
  let major ← (byteAt : Decoder UInt8)
  let minor ← (byteAt : Decoder UInt8)
  pure { major, minor }

/-- A string of `length` characters. -/
def spaceStringAt (length : Nat) : Decoder (Octets length) := do
  let data ← (byteArrayAt : Decoder (Option Bytes))
  if h : (data.getD []).toArray.size = length then pure ⟨(data.getD []).toArray, h⟩
  else given none

theorem assertPart_reached (h : Expects resp (part ++ rest)) :
    assertPart resp part = .ok (reached resp rest resp.parsed) :=
  assertPart_of_expects h

theorem get_reached (h : Reads r val) (resp : GkmRpcMessage)
    (rest : Signature) {off : Nat} {v : α × Nat} (hv : val resp.buffer.buf off = some v) :
    (reached resp rest off).get r = .ok (some v.1, reached resp rest v.2) := by
  have hv' : val (reached resp rest off).buffer.buf (reached resp rest off).parsed = some v := hv
  rw [GkmRpcMessage.get_eq h, hv']
  rfl

theorem get_reached_none (h : Reads r val) (resp : GkmRpcMessage)
    (rest : Signature) {off : Nat} (hv : val resp.buffer.buf off = none) :
    ∃ resp', (reached resp rest off).get r = .ok (none, resp') := by
  have hv' : val (reached resp rest off).buffer.buf (reached resp rest off).parsed = none := hv
  rw [GkmRpcMessage.get_eq h, hv']
  exact ⟨_, rfl⟩

theorem gkmRpcMessageReadUlong_readsAt : ReadsAt gkmRpcMessageReadUlong [.u] uint64At := by
  intro resp rest hexp
  unfold gkmRpcMessageReadUlong
  rw [assertPart_reached hexp, ok_bind]
  cases hv : uint64At resp.buffer.buf resp.parsed with
  | none => exact get_reached_none reads_getUint64 resp rest hv
  | some v => exact get_reached reads_getUint64 resp rest hv

theorem gkmRpcMessageReadVersion_readsAt : ReadsAt gkmRpcMessageReadVersion [.v] versionAt := by
  intro resp rest hexp
  unfold gkmRpcMessageReadVersion versionAt
  rw [assertPart_reached hexp, ok_bind, Decoder.bind_apply]
  cases hv : byteAt resp.buffer.buf resp.parsed with
  | none =>
    obtain ⟨resp', hget⟩ := get_reached_none reads_getByte resp rest hv
    rw [hget]
    exact ⟨resp', rfl⟩
  | some v =>
    rw [get_reached reads_getByte resp rest hv, ok_bind, Option.bind_some, Decoder.bind_apply]
    cases hv' : byteAt resp.buffer.buf v.2 with
    | none =>
      obtain ⟨resp', hget⟩ := get_reached_none reads_getByte resp rest hv'
      dsimp only
      rw [hget]
      exact ⟨resp', rfl⟩
    | some v' =>
      dsimp only
      rw [get_reached reads_getByte resp rest hv']
      rfl

theorem gkmRpcMessageReadSpaceString_readsAt {length : Nat} (hpos : length ≠ 0) :
    ReadsAt (gkmRpcMessageReadSpaceString · length) [.s] (spaceStringAt length) := by
  intro resp rest hexp
  unfold gkmRpcMessageReadSpaceString spaceStringAt
  beta_reduce
  rw [cAssert_of_true hpos, ok_bind, assertPart_reached hexp, ok_bind, Decoder.bind_apply]
  cases hv : byteArrayAt resp.buffer.buf resp.parsed with
  | none =>
    obtain ⟨resp', hget⟩ := get_reached_none reads_getByteArray resp rest hv
    rw [hget]
    exact ⟨resp', rfl⟩
  | some v =>
    rw [get_reached reads_getByteArray resp rest hv, ok_bind, Option.bind_some]
    by_cases h : (v.1.getD []).toArray.size = length
    · simp only [dif_pos h]
      rfl
    · simp only [dif_neg h]
      exact ⟨_, rfl⟩

theorem readUlong_decodes : Decodes readUlong some [.u] uint64At :=
  orParseError_decodes gkmRpcMessageReadUlong_readsAt

theorem readVersion_decodes : Decodes readVersion some [.v] versionAt :=
  orParseError_decodes gkmRpcMessageReadVersion_readsAt

theorem readSpaceString_decodes {length : Nat} (hpos : length ≠ 0) :
    Decodes (readSpaceString length) some [.s] (spaceStringAt length) :=
  orParseError_decodes (gkmRpcMessageReadSpaceString_readsAt hpos)

/-- `CK_INFO` on the wire. -/
def infoAt : Decoder CkInfo := do
  let cryptokiVersion ← versionAt
  let manufacturerID ← spaceStringAt 32
  let flags ← (uint64At : Decoder Nat)
  let libraryDescription ← spaceStringAt 32
  let libraryVersion ← versionAt
  given (some { cryptokiVersion, manufacturerID, flags, libraryDescription, libraryVersion })

theorem protoReadInfo_decodes : Decodes protoReadInfo some [.v, .s, .u, .s, .v] infoAt := by
  apply Decodes.bind readVersion_decodes
  intro cryptokiVersion
  apply Decodes.bind (readSpaceString_decodes (by decide))
  intro manufacturerID
  apply Decodes.bind readUlong_decodes
  intro flags
  apply Decodes.bind (readSpaceString_decodes (by decide))
  intro libraryDescription
  apply Decodes.bind readVersion_decodes
  intro libraryVersion
  apply Decodes.pure

/-- `CK_SLOT_INFO` on the wire. -/
def slotInfoAt : Decoder CkSlotInfo := do
  let slotDescription ← spaceStringAt 64
  let manufacturerID ← spaceStringAt 32
  let flags ← (uint64At : Decoder Nat)
  let hardwareVersion ← versionAt
  let firmwareVersion ← versionAt
  given (some { slotDescription, manufacturerID, flags, hardwareVersion, firmwareVersion })

theorem protoReadSlotInfo_decodes :
    Decodes protoReadSlotInfo some [.s, .s, .u, .v, .v] slotInfoAt := by
  apply Decodes.bind (readSpaceString_decodes (by decide))
  intro slotDescription
  apply Decodes.bind (readSpaceString_decodes (by decide))
  intro manufacturerID
  apply Decodes.bind readUlong_decodes
  intro flags
  apply Decodes.bind readVersion_decodes
  intro hardwareVersion
  apply Decodes.bind readVersion_decodes
  intro firmwareVersion
  apply Decodes.pure

/-- `CK_TOKEN_INFO` on the wire. -/
def tokenInfoAt : Decoder CkTokenInfo := do
  let label ← spaceStringAt 32
  let manufacturerID ← spaceStringAt 32
  let model ← spaceStringAt 16
  let serialNumber ← spaceStringAt 16
  let flags ← (uint64At : Decoder Nat)
  let ulMaxSessionCount ← (uint64At : Decoder Nat)
  let ulSessionCount ← (uint64At : Decoder Nat)
  let ulMaxRwSessionCount ← (uint64At : Decoder Nat)
  let ulRwSessionCount ← (uint64At : Decoder Nat)
  let ulMaxPinLen ← (uint64At : Decoder Nat)
  let ulMinPinLen ← (uint64At : Decoder Nat)
  let ulTotalPublicMemory ← (uint64At : Decoder Nat)
  let ulFreePublicMemory ← (uint64At : Decoder Nat)
  let ulTotalPrivateMemory ← (uint64At : Decoder Nat)
  let ulFreePrivateMemory ← (uint64At : Decoder Nat)
  let hardwareVersion ← versionAt
  let firmwareVersion ← versionAt
  let utcTime ← spaceStringAt 16
  given (some
    { label, manufacturerID, model, serialNumber, flags, ulMaxSessionCount, ulSessionCount,
      ulMaxRwSessionCount, ulRwSessionCount, ulMaxPinLen, ulMinPinLen, ulTotalPublicMemory,
      ulFreePublicMemory, ulTotalPrivateMemory, ulFreePrivateMemory, hardwareVersion,
      firmwareVersion, utcTime })

theorem protoReadTokenInfo_decodes :
    Decodes protoReadTokenInfo some
      [.s, .s, .s, .s, .u, .u, .u, .u, .u, .u, .u, .u, .u, .u, .u, .v, .v, .s] tokenInfoAt := by
  apply Decodes.bind (readSpaceString_decodes (by decide))
  intro label
  apply Decodes.bind (readSpaceString_decodes (by decide))
  intro manufacturerID
  apply Decodes.bind (readSpaceString_decodes (by decide))
  intro model
  apply Decodes.bind (readSpaceString_decodes (by decide))
  intro serialNumber
  iterate 11
    apply Decodes.bind readUlong_decodes
    intro _
  apply Decodes.bind readVersion_decodes
  intro hardwareVersion
  apply Decodes.bind readVersion_decodes
  intro firmwareVersion
  apply Decodes.bind (readSpaceString_decodes (by decide))
  intro utcTime
  apply Decodes.pure

/-- `CK_MECHANISM_INFO` on the wire. -/
def mechanismInfoAt : Decoder CkMechanismInfo := do
  let ulMinKeySize ← (uint64At : Decoder Nat)
  let ulMaxKeySize ← (uint64At : Decoder Nat)
  let flags ← (uint64At : Decoder Nat)
  given (some { ulMinKeySize, ulMaxKeySize, flags })

theorem protoReadMechanismInfo_decodes :
    Decodes protoReadMechanismInfo some [.u, .u, .u] mechanismInfoAt := by
  iterate 3
    apply Decodes.bind readUlong_decodes
    intro _
  apply Decodes.pure

/-- `CK_SESSION_INFO` on the wire. -/
def sessionInfoAt : Decoder CkSessionInfo := do
  let slotID ← (uint64At : Decoder Nat)
  let state ← (uint64At : Decoder Nat)
  let flags ← (uint64At : Decoder Nat)
  let ulDeviceError ← (uint64At : Decoder Nat)
  given (some { slotID, state, flags, ulDeviceError })

theorem protoReadSessionInfo_decodes :
    Decodes protoReadSessionInfo some [.u, .u, .u, .u] sessionInfoAt := by
  iterate 4
    apply Decodes.bind readUlong_decodes
    intro _
  apply Decodes.pure

/-! ## Arrays -/

/-- A result that comes with `CKR_OK`. -/
def whenCkrOk (r : CkRv × α) : Option α := if r.1 = ckrOk then some r.2 else none

/-- An array of bytes for a buffer of `max` bytes. -/
def bytesResultAt (arr : CkBytePtr) (max : Nat) : Decoder (CkBytePtr × Nat) := do
  let valid ← (byteAt : Decoder UInt8)
  if valid = 0 then do
    let vlen ← (uint32At : Decoder Nat)
    given (whenCkrOk (lengthOnly arr, arr, vlen))
  else do
    let val ← (byteArrayAt : Decoder (Option Bytes))
    given ((storeBytes arr max (val.getD [])).toOption.bind whenCkrOk)

theorem bind_ne_assertion {x : Checked α} {f : α → Checked β}
    (hx : x ≠ .error .assertion) (hf : ∀ a, f a ≠ .error .assertion) :
    (x >>= f) ≠ .error .assertion := by
  cases x with
  | error e =>
    intro h
    have he : e = .assertion := by simpa using h
    exact hx (by rw [he])
  | ok a => exact hf a

theorem copyInto_ne_assertion (mem data : Bytes) : copyInto mem data ≠ .error .assertion := by
  unfold copyInto
  split
  · simp
  · simp

theorem storeBytes_ne_assertion (arr : CkBytePtr) (max : Nat) (val : Bytes) :
    storeBytes arr max val ≠ .error .assertion := by
  unfold storeBytes
  cases arr with
  | none => simp
  | some mem =>
    dsimp only
    split
    · simp
    · apply bind_ne_assertion (copyInto_ne_assertion mem val)
      intro mem'
      simp

theorem protoReadByteArray_decodes (arr : CkBytePtr) (max : Nat) :
    Decodes (protoReadByteArray arr max) whenCkrOk [.a, .y] (bytesResultAt arr max) := by
  apply Decodes.inOrder
  apply Decodes.bind (getOrParseError_decodes reads_getByte)
  intro valid
  apply Decodes.ite
  · intro _
    apply Decodes.bind (getOrParseError_decodes reads_getUint32)
    intro vlen
    apply Decodes.pure
  · intro _
    apply Decodes.bind (getOrParseError_decodes reads_getByteArray)
    intro val
    apply Decodes.inMemory (storeBytes_ne_assertion arr max _)

/-- `n` numbers for an array, from its entry `i` on. -/
def ulongsAt : Nat → Nat → CkUlongArrayPtr → Decoder CkUlongArrayPtr
  | 0, _, arr => given (some arr)
  | n + 1, i, arr => do
      let val ← (uint64At : Decoder Nat)
      let arr ← given (storeUlong arr i val).toOption
      ulongsAt n (i + 1) arr

theorem storeUlong_ne_assertion (arr : CkUlongArrayPtr) (i val : Nat) :
    storeUlong arr i val ≠ .error .assertion := by
  unfold storeUlong
  cases arr with
  | none => simp
  | some mem =>
    dsimp only
    split
    · simp
    · simp

theorem inMemory_decodes {x : Checked α} (hx : x ≠ .error .assertion) :
    Decodes (inMemory x) some [] (given x.toOption) := by
  have h := @Decodes.inMemory α α some x hx
  rwa [Option.bind_fun_some] at h

theorem readUlongs_decodes (n i : Nat) (arr : CkUlongArrayPtr) :
    Decodes (readUlongs n i arr) some [] (ulongsAt n i arr) := by
  induction n generalizing i arr with
  | zero => apply Decodes.pure
  | succ n ih =>
    apply Decodes.bind (getOrParseError_decodes reads_getUint64)
    intro val
    apply Decodes.bind (inMemory_decodes (storeUlong_ne_assertion arr i val))
    intro arr'
    exact ih (i + 1) arr'

/-- The bytes of an array of numbers for a buffer of `max` numbers, with the code. -/
def ulongsCodeAt (arr : CkUlongArrayPtr) (max : Nat) : Decoder (CkRv × CkUlongArrayPtr × Nat) := do
  let valid ← (byteAt : Decoder UInt8)
  let num ← (uint32At : Decoder Nat)
  if valid = 0 then given (some (lengthOnly arr, arr, num))
  else if max < num then given (some (ckrBufferTooSmall, arr, num))
  else do
    let arr ← ulongsAt num 0 arr
    given (some (ckrOk, arr, num))

theorem protoReadUlongArray_codes (arr : CkUlongArrayPtr) (max : Nat) :
    Decodes (protoReadUlongArray arr max) some [.a, .u] (ulongsCodeAt arr max) := by
  apply Decodes.inOrder
  apply Decodes.bind (getOrParseError_decodes reads_getByte)
  intro valid
  apply Decodes.bind (getOrParseError_decodes reads_getUint32)
  intro num
  apply Decodes.ite
  · intro _
    apply Decodes.pure
  · intro _
    apply Decodes.ite
    · intro _
      apply Decodes.pure
    · intro _
      apply Decodes.bind (readUlongs_decodes num 0 arr)
      intro arr'
      apply Decodes.pure

/-- A reader whose values count in another way. -/
theorem Decodes.count (h : Decodes x some p d) (good : α → Option β) :
    Decodes x good p (d >>= fun a => given (good a)) := by
  intro resp rest hexp
  have h' := h resp rest hexp
  rw [Decoder.bind_apply]
  cases hd : d resp.buffer.buf resp.parsed with
  | none =>
    rw [hd] at h'
    show Refused good (x resp)
    cases hr : x resp with
    | error f =>
      rw [hr] at h'
      exact h'
    | ok r =>
      obtain ⟨r, resp'⟩ := r
      rw [hr] at h'
      cases r with
      | error ret => exact h'
      | ok a => exact absurd h' (by simp [Refused])
  | some v =>
    obtain ⟨a, off⟩ := v
    rw [hd] at h'
    obtain ⟨a', ha, hr⟩ := h'
    obtain rfl : a' = a := by simpa using ha
    rw [Option.bind_some]
    unfold given
    cases hg : good a' with
    | none =>
      show Refused good (x resp)
      rw [hr]
      exact hg
    | some b => exact ⟨a', hg, hr⟩

/-- An array of numbers for a buffer of `max` numbers. -/
def ulongsResultAt (arr : CkUlongArrayPtr) (max : Nat) : Decoder (CkUlongArrayPtr × Nat) := do
  let r ← ulongsCodeAt arr max
  given (whenCkrOk r)

theorem protoReadUlongArray_decodes (arr : CkUlongArrayPtr) (max : Nat) :
    Decodes (protoReadUlongArray arr max) whenCkrOk [.a, .u] (ulongsResultAt arr max) :=
  Decodes.count (protoReadUlongArray_codes arr max) whenCkrOk

theorem purgeFrom_ne_assertion (mechs : List Nat) (n i : Nat) :
    purgeFrom mechs n i ≠ .error .assertion := by
  -- each round of the loop goes on, ends, or runs over the end of the array
  induction mechs, n, i using purgeFrom.induct with
  | case1 mechs n i hlt hnone =>
    unfold purgeFrom
    rw [dif_pos hlt, hnone]
    simp
  | case2 mechs n i hlt mech hmech hsup ih =>
    unfold purgeFrom
    rw [dif_pos hlt, hmech]
    dsimp only
    rw [if_pos hsup]
    exact ih
  | case3 mechs n i hlt mech hmech hsup hroom ih =>
    unfold purgeFrom
    rw [dif_pos hlt, hmech]
    dsimp only
    rw [if_neg hsup, if_pos hroom]
    exact ih
  | case4 mechs n i hlt mech hmech hsup hroom =>
    unfold purgeFrom
    rw [dif_pos hlt, hmech]
    dsimp only
    rw [if_neg hsup, if_neg hroom]
    simp
  | case5 mechs n i hlt =>
    unfold purgeFrom
    rw [dif_neg hlt]
    simp

theorem purgeRead_ne_assertion (arr : CkUlongArrayPtr) (num : Nat) :
    purgeRead arr num ≠ .error .assertion := by
  unfold purgeRead gkmRpcMechanismListPurge
  cases arr with
  | none => simp
  | some mechs =>
    apply bind_ne_assertion (purgeFrom_ne_assertion mechs num 0)
    intro r
    simp

/-- An array of mechanism types for a buffer of `max` numbers. -/
def mechanismTypesAt (arr : CkUlongArrayPtr) (max : Nat) : Decoder (CkUlongArrayPtr × Nat) := do
  let r ← ulongsCodeAt arr max
  if r.1 = ckrOk then given ((purgeRead r.2.1 r.2.2).toOption.bind whenCkrOk)
  else given (whenCkrOk r)

theorem readMechanismTypes_decodes (arr : CkUlongArrayPtr) (max : Nat) :
    Decodes (readMechanismTypes arr max) whenCkrOk [.a, .u] (mechanismTypesAt arr max) := by
  apply Decodes.bind (protoReadUlongArray_codes arr max)
  rintro ⟨ret, arr', num⟩
  apply Decodes.ite
  · intro _
    apply Decodes.inMemory (purgeRead_ne_assertion arr' num)
  · intro _
    apply Decodes.pure

/-! ## Attributes -/

/-- One attribute, for the caller's entry `attr`. -/
def attributeAt (attr : CkAttribute) : Decoder CkAttribute := do
  let type ← (uint32At : Decoder Nat)
  let validity ← (byteAt : Decoder UInt8)
  if validity = 0 then
    if attr.type ≠ type then given none
    else given (some { attr with ulValueLen := ckUnavailable })
  else do
    let value ← (uint32At : Decoder Nat)
    let attrval ← (byteArrayAt : Decoder (Option Bytes))
    if attrval.isSome ∧ value ≠ (attrval.getD []).length then given none
    else if attr.type ≠ type then given none
    else given ((stuff attr value attrval).toOption.map Prod.fst)

/-- Attributes, for the entries of the caller's template. -/
def attributesAt : List CkAttribute → Decoder (List CkAttribute)
  | [] => given (some [])
  | attr :: arr => do
      let attr ← attributeAt attr
      let arr ← attributesAt arr
      given (some (attr :: arr))

/-- An array of attributes, with the code that comes behind it. -/
def attributeArrayAt (arr : List CkAttribute) : Decoder (List CkAttribute) := do
  let num ← (uint32At : Decoder Nat)
  if arr.length ≠ num then given none
  else do
    let arr ← attributesAt arr
    let ret ← (uint64At : Decoder Nat)
    given (whenCkrOk (ret, arr))

theorem stuff_ne_assertion (attr : CkAttribute) (value : Nat) (attrval : Option Bytes) :
    stuff attr value attrval ≠ .error .assertion := by
  unfold stuff
  cases attr.pValue with
  | none => simp
  | some mem =>
    dsimp only
    split
    · simp
    · cases attrval with
      | none => simp
      | some data =>
        apply bind_ne_assertion (copyInto_ne_assertion mem data)
        intro mem'
        simp

theorem readAttribute_decodes (attr : CkAttribute) :
    Decodes (readAttribute attr) (fun r => some r.1) [] (attributeAt attr) := by
  apply Decodes.bind (getOrParseError_decodes reads_getUint32)
  intro type
  apply Decodes.bind (getOrParseError_decodes reads_getByte)
  intro validity
  apply Decodes.ite
  · intro _
    apply Decodes.ite
    · intro _
      apply Decodes.stop
      decide
    · intro _
      apply Decodes.pure
  · intro _
    apply Decodes.bind (getOrParseError_decodes reads_getUint32)
    intro value
    apply Decodes.bind (getOrParseError_decodes reads_getByteArray)
    intro attrval
    apply Decodes.ite
    · intro _
      apply Decodes.stop
      decide
    · intro _
      apply Decodes.ite
      · intro _
        apply Decodes.stop
        decide
      · intro _
        have h := @Decodes.inMemory _ _ (fun r : CkAttribute × CkRv => some r.1) _
          (stuff_ne_assertion attr value attrval)
        rw [Option.map_eq_bind]
        exact h

/-- The loop over the attributes goes on to the end where they all decode, and else it stops with
an error code or at a fault of the memory. -/
theorem readAttributes_spec (arr : List CkAttribute) (ret : CkRv) (hexp : Expects resp rest) :
    match attributesAt arr resp.buffer.buf resp.parsed with
    | some (arr', off) =>
      ∃ ret', readAttributes arr ret resp = .ok (.ok ret', arr', reached resp rest off)
    | none => (∃ stop arr' resp', readAttributes arr ret resp = .ok (.error stop, arr', resp') ∧
        stop ≠ ckrOk) ∨ ∃ f, readAttributes arr ret resp = .error f ∧ f ≠ .assertion := by
  induction arr generalizing ret resp with
  | nil => exact ⟨ret, by rw [readAttributes, reached_self hexp]⟩
  | cons attr arr ih =>
    have h := readAttribute_decodes attr resp rest hexp
    rw [attributesAt, Decoder.bind_apply, readAttributes]
    cases hd : attributeAt attr resp.buffer.buf resp.parsed with
    | none =>
      rw [hd] at h
      cases hr : readAttribute attr resp with
      | error f =>
        rw [hr] at h
        exact .inr ⟨f, rfl, h⟩
      | ok r =>
        obtain ⟨r, resp'⟩ := r
        rw [hr] at h
        cases r with
        | error stop => exact .inl ⟨stop, attr :: arr, resp', rfl, h⟩
        | ok a => exact absurd h (by simp [Refused])
    | some v =>
      obtain ⟨attr', off⟩ := v
      rw [hd] at h
      obtain ⟨⟨a, verdict⟩, ha, hr⟩ := h
      obtain rfl : a = attr' := by simpa using ha
      rw [Option.bind_some, hr, Decoder.bind_apply]
      dsimp only
      -- the rest of the attributes is where this one ends
      have hrest := ih (if verdict = ckrOk then ret else verdict)
        (@expects_reached resp rest rest hexp off)
      cases hd' : attributesAt arr resp.buffer.buf off with
      | none =>
        have hd'' : attributesAt arr (reached resp rest off).buffer.buf
            (reached resp rest off).parsed = none := hd'
        rw [hd''] at hrest
        rcases hrest with ⟨stop, arr', resp', hr', hne⟩ | ⟨f, hr', hne⟩
        · exact .inl ⟨stop, a :: arr', resp', by rw [hr']; rfl, hne⟩
        · exact .inr ⟨f, by rw [hr']; rfl, hne⟩
      | some v' =>
        have hd'' : attributesAt arr (reached resp rest off).buffer.buf
            (reached resp rest off).parsed = some v' := hd'
        rw [hd''] at hrest
        obtain ⟨ret', hr'⟩ := hrest
        exact ⟨ret', by rw [hr']; rfl⟩

/-- An outcome that is a code other than `CKR_OK` or a fault of the memory. -/
def CodeRefused (r : Checked (CkRv × α × GkmRpcMessage)) : Prop :=
  match r with
  | .error f => f ≠ .assertion
  | .ok (ret, _, _) => ret ≠ ckrOk

/-- `x` ends with `CKR_OK` and what `d` decodes, or it is refused where `d` fails. -/
def CodeDecodes (x : GkmRpcMessage → Checked (CkRv × α × GkmRpcMessage)) (part : Signature)
    (d : Decoder α) : Prop :=
  ∀ resp rest, Expects resp (part ++ rest) →
    match d resp.buffer.buf resp.parsed with
    | some (a, off) => x resp = .ok (ckrOk, a, reached resp rest off)
    | none => CodeRefused (x resp)

theorem readAttributesAndCode_decodes (arr : List CkAttribute) :
    CodeDecodes (readAttributesAndCode arr) [.u] (do
      let arr ← attributesAt arr
      let ret ← (uint64At : Decoder Nat)
      given (whenCkrOk (ret, arr))) := by
  intro resp rest hexp
  have h := readAttributes_spec arr ckrOk hexp
  unfold readAttributesAndCode
  rw [Decoder.bind_apply]
  cases hd : attributesAt arr resp.buffer.buf resp.parsed with
  | none =>
    rw [hd] at h
    show CodeRefused _
    rcases h with ⟨stop, arr', resp', hr, hne⟩ | ⟨f, hr, hne⟩
    · rw [hr]
      exact hne
    · rw [hr]
      exact hne
  | some v =>
    obtain ⟨arr', off⟩ := v
    rw [hd] at h
    obtain ⟨ret', hr⟩ := h
    have hexp' : Expects (reached resp ([.u] ++ rest) off) ([.u] ++ rest) :=
      expects_reached hexp off
    have hulong := gkmRpcMessageReadUlong_readsAt _ rest hexp'
    rw [hr, ok_bind, Option.bind_some, Decoder.bind_apply]
    dsimp only
    cases hv : uint64At resp.buffer.buf off with
    | none =>
      have hv' : uint64At (reached resp ([.u] ++ rest) off).buffer.buf
          (reached resp ([.u] ++ rest) off).parsed = none := hv
      rw [hv'] at hulong
      obtain ⟨resp', hulong⟩ := hulong
      show CodeRefused _
      rw [hulong]
      show ckrDeviceError ≠ ckrOk
      decide
    | some v =>
      have hv' : uint64At (reached resp ([.u] ++ rest) off).buffer.buf
          (reached resp ([.u] ++ rest) off).parsed = some v := hv
      rw [hv'] at hulong
      rw [Option.bind_some, hulong, ok_bind]
      unfold given whenCkrOk
      by_cases hok : v.1 = ckrOk
      · rw [if_pos hok]
        show Except.ok (v.1, _) = _
        rw [hok]
        rfl
      · rw [if_neg hok]
        exact hok

/-- The reader of attributes, when it is asked for some. -/
theorem protoReadAttributeArray_decodes {arr : List CkAttribute} (hne : arr.length ≠ 0) :
    CodeDecodes (protoReadAttributeArray arr) [.a, .attr, .u] (attributeArrayAt arr) := by
  intro resp rest hexp
  have hexp' : Expects resp ([.a, .attr] ++ ([.u] ++ rest)) := hexp
  unfold protoReadAttributeArray attributeArrayAt
  rw [cAssert_of_true hne, ok_bind, assertPart_reached hexp', ok_bind, Decoder.bind_apply]
  cases hv : uint32At resp.buffer.buf resp.parsed with
  | none =>
    obtain ⟨resp', hget⟩ := get_reached_none reads_getUint32 resp ([.u] ++ rest) hv
    show CodeRefused _
    rw [hget]
    show ckrDeviceError ≠ ckrOk
    decide
  | some v =>
    rw [get_reached reads_getUint32 resp _ hv, ok_bind, Option.bind_some]
    dsimp only
    by_cases hnum : arr.length ≠ v.1
    · rw [if_pos hnum, if_pos hnum]
      show ckrDeviceError ≠ ckrOk
      decide
    · rw [if_neg hnum, if_neg hnum]
      exact readAttributesAndCode_decodes arr (reached resp ([.u] ++ rest) v.2) rest
        (expects_reached hexp' v.2)

/-! ## The macros -/

/-- The part of the signature an `OUT_*` macro reads. -/
def OutKind.sig : OutKind → Signature
  | .ulong => [.u]
  | .byteArray => [.a, .y]
  | .ulongArray => [.a, .u]
  | .attributeArray => [.a, .attr, .u]
  | .info => [.v, .s, .u, .s, .v]
  | .slotInfo => [.s, .s, .u, .v, .v]
  | .tokenInfo => [.s, .s, .s, .s, .u, .u, .u, .u, .u, .u, .u, .u, .u, .u, .u, .v, .v, .s]
  | .sessionInfo => [.u, .u, .u, .u]
  | .mechanismTypeArray => [.a, .u]
  | .mechanismInfo => [.u, .u, .u]

/-- The macros of a stub read the whole signature of the response, in its order. -/
theorem outMacros_sig (c : CallId) : (outMacros c).flatMap OutKind.sig = c.response := by
  cases c <;> rfl

/-- A value and what becomes of the macro. -/
def oneAt (d : Decoder α) (f : Option α → OutMacro) : Decoder OutMacro := do
  let v ← d
  given (some (f (some v)))

/-- An array and what becomes of the macro. -/
def arrayAt (d : Decoder (Option (List α) × Nat))
    (f : Option (List α) → Option Nat → OutMacro) : Decoder OutMacro := do
  let r ← d
  given (some (f r.1 (some r.2)))

/-- The argument of a macro whose pointer is not null, when it can be given to the caller with
`CKR_OK`. -/
def OutMacro.valueAt : OutMacro → Decoder OutMacro
  | .ulong _ => oneAt uint64At .ulong
  | .byteArray arr len => arrayAt (bytesResultAt arr (len.getD 0)) .byteArray
  | .ulongArray arr len => arrayAt (ulongsResultAt arr (len.getD 0)) .ulongArray
  | .attributeArray arr => do
      let arr ← attributeArrayAt arr
      given (some (.attributeArray arr))
  | .info _ => oneAt infoAt .info
  | .slotInfo _ => oneAt slotInfoAt .slotInfo
  | .tokenInfo _ => oneAt tokenInfoAt .tokenInfo
  | .sessionInfo _ => oneAt sessionInfoAt .sessionInfo
  | .mechanismTypeArray arr len => arrayAt (mechanismTypesAt arr (len.getD 0)) .mechanismTypeArray
  | .mechanismInfo _ => oneAt mechanismInfoAt .mechanismInfo

/-- The argument of a macro. -/
def OutMacro.resultAt (m : OutMacro) : Decoder OutMacro :=
  if m.isNull then given none else m.valueAt

/-- The arguments of a sequence of macros. -/
def resultsAt : List OutMacro → Decoder (List OutMacro)
  | [] => given (some [])
  | m :: ms => do
      let m ← m.resultAt
      let ms ← resultsAt ms
      given (some (m :: ms))

theorem fillWith_decodes {r : Response α} (h : Decodes r some p d) (f : Option α → OutMacro) :
    Decodes (fillWith r f) whenCkrOk p (oneAt d f) := by
  have hfill := Decodes.bind h fun v =>
    @Decodes.pure (CkRv × OutMacro) OutMacro whenCkrOk (ckrOk, f (some v))
  rwa [append_nil] at hfill

/-- What follows a reader without reading keeps its code. -/
theorem Decodes.mapOk {x : Response (CkRv × α)} (h : Decodes x whenCkrOk p d) (g : α → β) :
    Decodes (x >>= fun r => Pure.pure (r.1, g r.2)) whenCkrOk p
      (d >>= fun a => given (some (g a))) := by
  intro resp rest hexp
  have h' := h resp rest hexp
  rw [Decoder.bind_apply]
  cases hd : d resp.buffer.buf resp.parsed with
  | none =>
    rw [hd] at h'
    show Refused whenCkrOk _
    cases hr : x resp with
    | error f =>
      have heq : (x >>= fun r => Pure.pure (r.1, g r.2)) resp = .error f := by
        show Prog.andThen x _ resp = _
        simp [Prog.andThen, hr]
      rw [hr] at h'
      rw [heq]
      exact h'
    | ok r =>
      obtain ⟨r, resp'⟩ := r
      rw [hr] at h'
      cases r with
      | error ret =>
        rw [Prog.bind_of_stop hr]
        exact h'
      | ok a =>
        rw [Prog.bind_of_ok hr]
        have hne : a.1 ≠ ckrOk := by
          intro hok
          have hg : whenCkrOk a = none := h'
          rw [whenCkrOk, if_pos hok] at hg
          simp at hg
        exact if_neg hne
  | some v =>
    obtain ⟨a, off⟩ := v
    rw [hd] at h'
    obtain ⟨⟨ret, a'⟩, ha, hr⟩ := h'
    unfold whenCkrOk at ha
    split at ha
    · rename_i hok
      obtain rfl : a' = a := by simpa using ha
      rw [Option.bind_some, Prog.bind_of_ok hr]
      exact ⟨(ret, g a'), if_pos hok, rfl⟩
    · simp at ha

theorem fillArray_decodes {r : Nat → Response (CkRv × Option (List α) × Nat)} {len : Option Nat}
    {d : Decoder (Option (List α) × Nat)} (h : Decodes (r (len.getD 0)) whenCkrOk p d)
    (f : Option (List α) → Option Nat → OutMacro) :
    Decodes (fillArray r len f) whenCkrOk p (arrayAt d f) :=
  h.mapOk fun a => f a.1 (some a.2)

theorem OutMacro.fill_attributeArray (arr : List CkAttribute) (resp : GkmRpcMessage) :
    (OutMacro.attributeArray arr).fill resp =
      (protoReadAttributeArray arr resp).map fun r => (.ok (r.1, .attributeArray r.2.1), r.2.2) := by
  simp only [fill, Prog.run]
  cases protoReadAttributeArray arr resp with
  | error f => rfl
  | ok r => rfl

/-- The reader of a macro, unless it is asked for no attributes. -/
theorem OutMacro.fill_decodes {m : OutMacro} (hne : m ≠ .attributeArray []) :
    Decodes m.fill whenCkrOk m.kind.sig m.valueAt := by
  cases m with
  | ulong val => exact fillWith_decodes readUlong_decodes _
  | byteArray arr len => exact fillArray_decodes (protoReadByteArray_decodes arr _) _
  | ulongArray arr len => exact fillArray_decodes (protoReadUlongArray_decodes arr _) _
  | attributeArray arr =>
    intro resp rest hexp
    have hlen : arr.length ≠ 0 := by
      intro h0
      exact hne (by rw [length_eq_zero_iff.1 h0])
    have h := protoReadAttributeArray_decodes hlen resp rest hexp
    rw [valueAt, Decoder.bind_apply, fill_attributeArray]
    cases hd : attributeArrayAt arr resp.buffer.buf resp.parsed with
    | none =>
      rw [hd] at h
      show Refused whenCkrOk _
      cases hr : protoReadAttributeArray arr resp with
      | error f =>
        rw [hr] at h
        exact h
      | ok r =>
        rw [hr] at h
        exact if_neg h
    | some v =>
      rw [hd] at h
      rw [Option.bind_some, h]
      exact ⟨(ckrOk, .attributeArray v.1), rfl, rfl⟩
  | info val => exact fillWith_decodes protoReadInfo_decodes _
  | slotInfo val => exact fillWith_decodes protoReadSlotInfo_decodes _
  | tokenInfo val => exact fillWith_decodes protoReadTokenInfo_decodes _
  | sessionInfo val => exact fillWith_decodes protoReadSessionInfo_decodes _
  | mechanismTypeArray arr len => exact fillArray_decodes (readMechanismTypes_decodes arr _) _
  | mechanismInfo val => exact fillWith_decodes protoReadMechanismInfo_decodes _

theorem OutMacro.read_decodes {m : OutMacro} (hne : m ≠ .attributeArray []) :
    CodeDecodes (m.read ckrOk) m.kind.sig m.resultAt := by
  intro resp rest hexp
  have h := fill_decodes hne resp rest hexp
  unfold read resultAt
  by_cases hnull : m.isNull = true
  · rw [if_pos hnull, if_pos hnull]
    show ckrArgumentsBad ≠ ckrOk
    decide
  · rw [if_neg hnull, if_neg hnull, if_neg (not_not.2 rfl)]
    cases hd : m.valueAt resp.buffer.buf resp.parsed with
    | none =>
      rw [hd] at h
      show CodeRefused _
      cases hr : m.fill resp with
      | error f =>
        rw [hr] at h
        exact h
      | ok r =>
        obtain ⟨r, resp'⟩ := r
        rw [hr] at h
        cases r with
        | error ret => exact h
        | ok a =>
          intro hok
          have hg : whenCkrOk a = none := h
          rw [whenCkrOk, if_pos hok] at hg
          simp at hg
    | some v =>
      rw [hd] at h
      obtain ⟨⟨ret, m'⟩, ha, hr⟩ := h
      unfold whenCkrOk at ha
      split at ha
      · rename_i hok
        obtain rfl : m' = v.1 := by simpa using ha
        obtain rfl : ret = ckrOk := hok
        rw [hr]
      · simp at ha

/-- After an error the macros read nothing, and the error stays one. -/
theorem OutMacro.read_of_ne (m : OutMacro) (hret : ret ≠ ckrOk) (resp : GkmRpcMessage) :
    ∃ ret', m.read ret resp = .ok (ret', m, resp) ∧ ret' ≠ ckrOk := by
  unfold read
  by_cases hnull : m.isNull = true
  · exact ⟨ckrArgumentsBad, if_pos hnull, by decide⟩
  · exact ⟨ret, by rw [if_neg hnull, if_pos hret], hret⟩

theorem readOuts_of_ne (ms : List OutMacro) (hret : ret ≠ ckrOk) (resp : GkmRpcMessage) :
    ∃ ret', readOuts ms ret resp = .ok (ret', ms, resp) ∧ ret' ≠ ckrOk := by
  induction ms generalizing ret with
  | nil => exact ⟨ret, rfl, hret⟩
  | cons m ms ih =>
    obtain ⟨ret₁, hread, hne₁⟩ := m.read_of_ne hret resp
    obtain ⟨ret₂, hreads, hne₂⟩ := ih hne₁
    refine ⟨ret₂, ?_, hne₂⟩
    rw [readOuts, hread, ok_bind]
    dsimp only
    rw [hreads]
    rfl

/-- The macros of a stub end with `CKR_OK` where all of their arguments decode, and with an error
code where one does not. -/
theorem readOuts_decodes {ms : List OutMacro} (hne : .attributeArray [] ∉ ms) :
    CodeDecodes (readOuts ms ckrOk) (ms.flatMap fun m => m.kind.sig) (resultsAt ms) := by
  induction ms with
  | nil =>
    intro resp rest hexp
    show Except.ok (ckrOk, [], resp) = _
    rw [reached_self (show Expects resp rest from hexp)]
  | cons m ms ih =>
    intro resp rest hexp
    rw [mem_cons, not_or] at hne
    rw [flatMap_cons, append_assoc] at hexp
    have h := OutMacro.read_decodes (Ne.symm hne.1) resp _ hexp
    rw [resultsAt, Decoder.bind_apply, readOuts]
    cases hd : m.resultAt resp.buffer.buf resp.parsed with
    | none =>
      rw [hd] at h
      show CodeRefused _
      cases hr : m.read ckrOk resp with
      | error f =>
        rw [hr] at h
        exact h
      | ok r =>
        obtain ⟨ret, m', resp'⟩ := r
        rw [hr] at h
        -- the macros behind the one that failed do not read
        obtain ⟨ret', hreads, hne'⟩ := readOuts_of_ne ms h resp'
        rw [ok_bind]
        dsimp only
        rw [hreads]
        exact hne'
    | some v =>
      obtain ⟨m', off⟩ := v
      rw [hd] at h
      have hrest := ih hne.2 _ rest (expects_reached hexp off)
      rw [h, ok_bind, Option.bind_some, Decoder.bind_apply]
      dsimp only
      cases hd' : resultsAt ms resp.buffer.buf off with
      | none =>
        have hd'' : resultsAt ms (reached resp (ms.flatMap (fun m => m.kind.sig) ++ rest)
            off).buffer.buf (reached resp (ms.flatMap (fun m => m.kind.sig) ++ rest)
            off).parsed = none := hd'
        rw [hd''] at hrest
        show CodeRefused _
        cases hr : readOuts ms ckrOk
            (reached resp (ms.flatMap (fun m => m.kind.sig) ++ rest) off) with
        | error f =>
          rw [hr] at hrest
          exact hrest
        | ok r =>
          rw [hr] at hrest
          exact hrest
      | some v' =>
        have hd'' : resultsAt ms (reached resp (ms.flatMap (fun m => m.kind.sig) ++ rest)
            off).buffer.buf (reached resp (ms.flatMap (fun m => m.kind.sig) ++ rest)
            off).parsed = some v' := hd'
        rw [hd''] at hrest
        rw [Option.bind_some, hrest]
        rfl

end MateKeyring.Rpc.Module
