import MateKeyring.Rpc.Calls

/-!
# Messages of the PKCS#11 protocol

`GkmRpcMessage` and the functions of `gkm-rpc-message.c` that both ends share: preparing and
parsing a message, checking the next argument against the signature, and the writers. A writer
asserts that the signature allows its argument at this place (`assertPart`), then writes to the
buffer. `MsgWrites` says what that comes to: when the signature expects the argument nothing
faults, the part of the signature is used up, and a writer that reports success appended the
octets of the argument.
-/

set_option autoImplicit false

namespace MateKeyring.Rpc

open Lib Egg BigEndian List

variable {w : EggBuffer → Bool × EggBuffer} {out : Bytes}

/-! ## Return codes and PKCS#11 values -/

/-- `CK_RV`. -/
abbrev CkRv := Nat

abbrev ckrOk : CkRv := 0
abbrev ckrHostMemory : CkRv := 2
abbrev ckrGeneralError : CkRv := 5
abbrev ckrArgumentsBad : CkRv := 7
abbrev ckrAttributeSensitive : CkRv := 0x11
abbrev ckrAttributeTypeInvalid : CkRv := 0x12
abbrev ckrDeviceError : CkRv := 0x30
abbrev ckrDeviceMemory : CkRv := 0x31
abbrev ckrDeviceRemoved : CkRv := 0x32
abbrev ckrMechanismInvalid : CkRv := 0x70
abbrev ckrBufferTooSmall : CkRv := 0x150

/-- `(CK_ULONG)-1`, the length of an attribute that is not available. -/
abbrev ckUnavailable : Nat := 2 ^ 64 - 1

/-- `CK_ATTRIBUTE`. `pValue` is null or points to memory with the given contents. -/
structure CkAttribute where
  type : Nat
  pValue : Option Bytes
  ulValueLen : Nat
  deriving DecidableEq, Repr

/-- `CK_MECHANISM`, with the memory its parameter points to. -/
structure CkMechanism where
  mechanism : Nat
  pParameter : Option Bytes
  ulParameterLen : Nat
  deriving DecidableEq, Repr

/-- `CK_VERSION`. -/
structure CkVersion where
  major : UInt8
  minor : UInt8
  deriving DecidableEq, Repr

/-- The first `n` bytes of an object in memory. -/
def memRead (region : Bytes) (n : Nat) : Checked Bytes :=
  if n ≤ region.length then .ok (region.take n) else .error .outOfBounds

theorem memRead_eq_ok {region out : Bytes} {n : Nat} :
    memRead region n = .ok out ↔ n ≤ region.length ∧ region.take n = out := by
  unfold memRead
  split <;> simp_all

/-! ## Messages -/

/-- `GkmRpcMessageType`. -/
inductive GkmRpcMessageType where
  | request
  | response
  deriving DecidableEq, Repr

/-- `GkmRpcMessage`. -/
structure GkmRpcMessage where
  callId : Nat
  callType : Option GkmRpcMessageType
  signature : Option Signature
  buffer : EggBuffer
  parsed : Nat
  sigverify : Option Signature

/-- The signature of a call in a message of a type. -/
def CallId.signature (c : CallId) : GkmRpcMessageType → Signature
  | .request => c.request
  | .response => c.response

/-- `gkm_rpc_message_new`, when both requests for memory are granted. -/
def gkmRpcMessageNew (allocator : EggBufferAllocator) : GkmRpcMessage :=
  { callId := 0, callType := none, signature := none, buffer := eggBufferInitFull 64 allocator,
    parsed := 0, sigverify := none }

/-- `gkm_rpc_message_reset`. -/
def gkmRpcMessageReset (msg : GkmRpcMessage) : GkmRpcMessage :=
  { callId := 0, callType := none, signature := none, buffer := eggBufferReset msg.buffer,
    parsed := 0, sigverify := none }

/-- `gkm_rpc_message_is_verified`. -/
def gkmRpcMessageIsVerified (msg : GkmRpcMessage) : Bool :=
  match msg.sigverify with
  | none => true
  | some rest => rest.isEmpty

/-- `gkm_rpc_message_buffer_error`. -/
def gkmRpcMessageBufferError (msg : GkmRpcMessage) : Bool := eggBufferHasError msg.buffer

/-- `gkm_rpc_message_prep`. -/
def gkmRpcMessagePrep (msg : GkmRpcMessage) (callId : Nat) (type : GkmRpcMessageType) :
    Checked (Bool × GkmRpcMessage) := do
  cAssert (callId = 0 ∨ (CallId.ofWire callId).isSome)
  let signature := (CallId.ofWire callId).map (·.signature type)
  let buffer := (eggBufferAddUint32 (eggBufferReset msg.buffer) callId).2
  let buffer :=
    match signature with
    | none => buffer
    | some sig => (eggBufferAddByteArray buffer (some sig.bytes)).2
  pure (!eggBufferHasError buffer,
    { callId, callType := some type, signature, buffer, parsed := 0, sigverify := signature })

/-- `gkm_rpc_message_parse`. -/
def gkmRpcMessageParse (msg : GkmRpcMessage) (type : GkmRpcMessageType) :
    Checked (Bool × GkmRpcMessage) := do
  match ← eggBufferGetUint32 msg.buffer 0 with
  | (none, buffer) => pure (false, { msg with parsed := 0, buffer })
  | (some (callId, parsed), buffer) =>
    let msg := { msg with parsed, buffer, signature := none, sigverify := none }
    -- an error code has no signature, and no place in a request
    if callId = 0 then pure (type == .response, msg)
    else
      match CallId.ofWire callId with
      | none => pure (false, msg)
      | some c =>
        let msg := { msg with callId, callType := some type, signature := some (c.signature type),
                              sigverify := some (c.signature type) }
        match ← eggBufferGetByteArray msg.buffer msg.parsed with
        | (none, buffer) => pure (false, { msg with buffer })
        | (some (val, parsed), buffer) =>
          pure (val.getD [] == (c.signature type).bytes, { msg with parsed, buffer })

/-- `gkm_rpc_message_verify_part`. -/
def gkmRpcMessageVerifyPart (msg : GkmRpcMessage) (part : Signature) : Bool × GkmRpcMessage :=
  match msg.sigverify with
  | none => (true, msg)
  | some rest =>
    if part.isPrefixOf rest then
      (true, { msg with sigverify := some (rest.drop part.length) })
    else (false, msg)

/-- `assert (!msg->signature || gkm_rpc_message_verify_part (msg, part))`. -/
def assertPart (msg : GkmRpcMessage) (part : Signature) : Checked GkmRpcMessage :=
  match msg.signature with
  | none => .ok msg
  | some _ =>
    match gkmRpcMessageVerifyPart msg part with
    | (true, msg) => .ok msg
    | (false, _) => .error .assertion

/-! ## Writers -/

/-- Write to the buffer of a message. -/
def GkmRpcMessage.put (msg : GkmRpcMessage) (w : EggBuffer → Bool × EggBuffer) :
    Bool × GkmRpcMessage :=
  ((w msg.buffer).1, { msg with buffer := (w msg.buffer).2 })

/-- Two writes to a buffer, the second made whatever the first did. -/
def writeBoth (w w' : EggBuffer → Bool × EggBuffer) (b : EggBuffer) : Bool × EggBuffer :=
  w' (w b).2

/-- A write whose outcome is read off the failure counter: `return !egg_buffer_has_error`. -/
def orError (w : EggBuffer → Bool × EggBuffer) (b : EggBuffer) : Bool × EggBuffer :=
  (!eggBufferHasError (w b).2, (w b).2)

/-- `egg_buffer_add_byte_array` of a pointer and a length: the memory is read once the length has
been accepted. -/
def addRegion (region : Option Bytes) (len : Nat) (b : EggBuffer) : Checked (Bool × EggBuffer) :=
  match region with
  | none => .ok (eggBufferAddByteArray b none)
  | some mem =>
    if 0x7fffffff ≤ len then .ok (false, b.fail)
    else do
      let data ← memRead mem len
      pure (eggBufferAddByteArray b (some data))

/-- `gkm_rpc_message_write_byte`. -/
def gkmRpcMessageWriteByte (msg : GkmRpcMessage) (val : UInt8) :
    Checked (Bool × GkmRpcMessage) := do
  let msg ← assertPart msg [.y]
  pure (msg.put (eggBufferAddByte · val))

/-- `gkm_rpc_message_write_ulong`. -/
def gkmRpcMessageWriteUlong (msg : GkmRpcMessage) (val : Nat) : Checked (Bool × GkmRpcMessage) := do
  let msg ← assertPart msg [.u]
  pure (msg.put (eggBufferAddUint64 · val))

/-- `gkm_rpc_message_write_byte_buffer`. -/
def gkmRpcMessageWriteByteBuffer (msg : GkmRpcMessage) (count : Nat) :
    Checked (Bool × GkmRpcMessage) := do
  let msg ← assertPart msg [.f, .y]
  pure (msg.put (eggBufferAddUint32 · count))

/-- `gkm_rpc_message_write_ulong_buffer`. -/
def gkmRpcMessageWriteUlongBuffer (msg : GkmRpcMessage) (count : Nat) :
    Checked (Bool × GkmRpcMessage) := do
  let msg ← assertPart msg [.f, .u]
  pure (msg.put (eggBufferAddUint32 · count))

/-- `gkm_rpc_message_write_byte_array`: without an array only the length is written. -/
def gkmRpcMessageWriteByteArray (msg : GkmRpcMessage) (arr : Option Bytes) (num : Nat) :
    Checked (Bool × GkmRpcMessage) := do
  let msg ← assertPart msg [.a, .y]
  match arr with
  | none => pure (msg.put (orError (writeBoth (eggBufferAddByte · 0) (eggBufferAddUint32 · num))))
  | some _ => do
      let (_, buffer) ← addRegion arr num (eggBufferAddByte msg.buffer 1).2
      pure (!eggBufferHasError buffer, { msg with buffer })

/-- The loop of `gkm_rpc_message_write_ulong_array`. -/
def addUlongs : List Nat → EggBuffer → Bool × EggBuffer
  | [], b => (true, b)
  | v :: vs, b => writeBoth (eggBufferAddUint64 · v) (addUlongs vs) b

/-- `gkm_rpc_message_write_ulong_array`. -/
def gkmRpcMessageWriteUlongArray (msg : GkmRpcMessage) (array : Option (List Nat))
    (nArray : Nat) : Checked (Bool × GkmRpcMessage) := do
  let msg ← assertPart msg [.a, .u]
  match array with
  | none =>
    pure (msg.put (orError (writeBoth (eggBufferAddByte · 0) (eggBufferAddUint32 · nArray))))
  | some region =>
    if nArray ≤ region.length then
      pure (msg.put (orError (writeBoth (eggBufferAddByte · 1)
        (writeBoth (eggBufferAddUint32 · nArray) (addUlongs (region.take nArray))))))
    else .error .outOfBounds

/-- The length `gkm_rpc_message_write_attribute_buffer` sends for an attribute. -/
def CkAttribute.bufferLen (attr : CkAttribute) : Nat :=
  if attr.pValue.isSome then attr.ulValueLen else 0

/-- The loop of `gkm_rpc_message_write_attribute_buffer`. -/
def addAttributeBuffers : List CkAttribute → EggBuffer → Bool × EggBuffer
  | [], b => (true, b)
  | attr :: attrs, b =>
    writeBoth (eggBufferAddUint32 · attr.type)
      (writeBoth (eggBufferAddUint32 · attr.bufferLen) (addAttributeBuffers attrs)) b

/-- `gkm_rpc_message_write_attribute_buffer`. -/
def gkmRpcMessageWriteAttributeBuffer (msg : GkmRpcMessage) (arr : List CkAttribute) :
    Checked (Bool × GkmRpcMessage) := do
  let msg ← assertPart msg [.f, .attr]
  pure (msg.put (orError
    (writeBoth (eggBufferAddUint32 · arr.length) (addAttributeBuffers arr))))

/-- One round of the loop of `gkm_rpc_message_write_attribute_array`. -/
def addAttribute (attr : CkAttribute) (b : EggBuffer) : Checked EggBuffer := do
  let b := (eggBufferAddUint32 b attr.type).2
  if attr.ulValueLen = ckUnavailable then pure (eggBufferAddByte b 0).2
  else do
    let b := (eggBufferAddByte b 1).2
    let b := (eggBufferAddUint32 b attr.ulValueLen).2
    let (_, b) ← addRegion attr.pValue attr.ulValueLen b
    pure b

/-- The loop of `gkm_rpc_message_write_attribute_array`. -/
def addAttributes : List CkAttribute → EggBuffer → Checked EggBuffer
  | [], b => .ok b
  | attr :: attrs, b => do
      let b ← addAttribute attr b
      addAttributes attrs b

/-- `gkm_rpc_message_write_attribute_array`. -/
def gkmRpcMessageWriteAttributeArray (msg : GkmRpcMessage) (arr : List CkAttribute) :
    Checked (Bool × GkmRpcMessage) := do
  let msg ← assertPart msg [.a, .attr]
  let buffer ← addAttributes arr (eggBufferAddUint32 msg.buffer arr.length).2
  pure (!eggBufferHasError buffer, { msg with buffer })

/-- `gkm_rpc_message_write_version`. -/
def gkmRpcMessageWriteVersion (msg : GkmRpcMessage) (version : CkVersion) :
    Checked (Bool × GkmRpcMessage) := do
  let msg ← assertPart msg [.v]
  pure (msg.put (orError
    (writeBoth (eggBufferAddByte · version.major) (eggBufferAddByte · version.minor))))

/-- `gkm_rpc_message_write_space_string`, of a buffer of the length that is written. -/
def gkmRpcMessageWriteSpaceString (msg : GkmRpcMessage) (buffer : Bytes) :
    Checked (Bool × GkmRpcMessage) := do
  cAssert (buffer.length ≠ 0)
  let msg ← assertPart msg [.s]
  pure (msg.put (eggBufferAddByteArray · (some buffer)))

/-- `gkm_rpc_message_write_zero_string`. -/
def gkmRpcMessageWriteZeroString (msg : GkmRpcMessage) (string : Option Bytes) :
    Checked (Bool × GkmRpcMessage) := do
  cAssert string.isSome
  let msg ← assertPart msg [.z]
  pure (msg.put (eggBufferAddString · string))

/-! ## What writers do -/

/-- The signature of the message still expects `rest`. -/
def Expects (msg : GkmRpcMessage) (rest : Signature) : Prop :=
  msg.signature.isSome = true ∧ msg.sigverify = some rest

/-- The outcome `r` of writing an argument whose signature is `part` and whose octets are `out`. -/
def MsgWrites (msg : GkmRpcMessage) (part : Signature) (out : Bytes)
    (r : Checked (Bool × GkmRpcMessage)) : Prop :=
  ∀ rest, Expects msg (part ++ rest) → ∃ b buffer,
    r = .ok (b, { msg with buffer := buffer, sigverify := some rest }) ∧
      msg.buffer.failures ≤ buffer.failures ∧
      (b = true → buffer.buf = msg.buffer.buf ++ out ∧ buffer.failures = msg.buffer.failures)

theorem isPrefixOf_append_self (part rest : Signature) : part.isPrefixOf (part ++ rest) = true := by
  rw [ isPrefixOf_iff_prefix]
  exact prefix_append part rest

theorem assertPart_of_expects {msg : GkmRpcMessage} {part rest : Signature}
    (h : Expects msg (part ++ rest)) :
    assertPart msg part = .ok { msg with sigverify := some rest } := by
  obtain ⟨hsig, hver⟩ := h
  obtain ⟨sig, hsig⟩ := Option.isSome_iff_exists.1 hsig
  simp [assertPart, hsig, gkmRpcMessageVerifyPart, hver, isPrefixOf_append_self]

/-- A write to the buffer that appends `out` when it reports success. -/
def Appends (w : EggBuffer → Bool × EggBuffer) (out : Bytes) : Prop :=
  ∀ b, b.failures ≤ (w b).2.failures ∧
    ((w b).1 = true → (w b).2.buf = b.buf ++ out ∧ (w b).2.failures = b.failures)

theorem Appends.of_writes (h : ∀ b, Writes b (w b) out) : Appends w out :=
  fun b => ⟨(h b).wrote.mono, (h b).ok⟩

theorem Appends.orError (h : ∀ b, Wrote b (w b).2 out) : Appends (orError w) out := by
  intro b
  refine ⟨(h b).mono, fun hok => ?_⟩
  have h0 : (w b).2.failures = 0 := by simpa [Rpc.orError, eggBufferHasError] using hok
  have hmono := (h b).mono
  have heq : (w b).2.failures = b.failures := by omega
  exact ⟨(h b).buf_eq heq, heq⟩

theorem wrote_writeBoth {w w' : EggBuffer → Bool × EggBuffer} {x y : Bytes}
    (h : ∀ b, Wrote b (w b).2 x) (h' : ∀ b, Wrote b (w' b).2 y) (b : EggBuffer) :
    Wrote b (writeBoth w w' b).2 (x ++ y) :=
  (h b).trans (h' _)

theorem MsgWrites.put {msg : GkmRpcMessage} {part : Signature} (h : Appends w out) :
    MsgWrites msg part out (do
      let msg ← assertPart msg part
      pure (msg.put w)) := by
  intro rest hexp
  rw [assertPart_of_expects hexp]
  obtain ⟨hmono, hok⟩ := h msg.buffer
  exact ⟨(w msg.buffer).1, (w msg.buffer).2, rfl, hmono, hok⟩

theorem wrote_addByte (v : UInt8) (b : EggBuffer) : Wrote b (eggBufferAddByte b v).2 [v] :=
  (eggBufferAddByte_writes b v).wrote

theorem wrote_addUint32 (v : Nat) (b : EggBuffer) :
    Wrote b (eggBufferAddUint32 b v).2 (encode 4 v) :=
  (eggBufferAddUint32_writes b v).wrote

/-- The octets at the start of a message of a call. -/
def CallId.header (c : CallId) (type : GkmRpcMessageType) : Bytes :=
  encode 4 c.wire ++ byteArrayBytes (some (c.signature type).bytes)

section

variable (msg : GkmRpcMessage)

include msg

/-- Preparing the message of a call writes its header, and expects the whole signature. -/
theorem gkmRpcMessagePrep_call (c : CallId) (type : GkmRpcMessageType) :
    ∃ buffer, gkmRpcMessagePrep msg c.wire type = .ok (!eggBufferHasError buffer,
        { callId := c.wire, callType := some type, signature := some (c.signature type),
          buffer := buffer, parsed := 0, sigverify := some (c.signature type) }) ∧
      Wrote (eggBufferReset msg.buffer) buffer (c.header type) := by
  refine ⟨(eggBufferAddByteArray (eggBufferAddUint32 (eggBufferReset msg.buffer) c.wire).2
    (some (c.signature type).bytes)).2, ?_, ?_⟩
  · simp only [gkmRpcMessagePrep, CallId.ofWire_wire, Option.isSome_some, or_true,
      cAssert_of_true, ok_bind, Option.map_some, pure_eq_ok]
  · exact (wrote_addUint32 c.wire _).trans (eggBufferAddByteArray_writes _ _).wrote

theorem gkmRpcMessageWriteByte_writes (val : UInt8) :
    MsgWrites msg [.y] [val] (gkmRpcMessageWriteByte msg val) :=
  MsgWrites.put (Appends.of_writes fun b => eggBufferAddByte_writes b val)

theorem gkmRpcMessageWriteUlong_writes (val : Nat) :
    MsgWrites msg [.u] (encode 8 val) (gkmRpcMessageWriteUlong msg val) :=
  MsgWrites.put (Appends.of_writes fun b => eggBufferAddUint64_writes b val)

theorem gkmRpcMessageWriteByteBuffer_writes (count : Nat) :
    MsgWrites msg [.f, .y] (encode 4 count) (gkmRpcMessageWriteByteBuffer msg count) :=
  MsgWrites.put (Appends.of_writes fun b => eggBufferAddUint32_writes b count)

theorem gkmRpcMessageWriteUlongBuffer_writes (count : Nat) :
    MsgWrites msg [.f, .u] (encode 4 count) (gkmRpcMessageWriteUlongBuffer msg count) :=
  MsgWrites.put (Appends.of_writes fun b => eggBufferAddUint32_writes b count)

theorem gkmRpcMessageWriteVersion_writes (v : CkVersion) :
    MsgWrites msg [.v] [v.major, v.minor] (gkmRpcMessageWriteVersion msg v) :=
  MsgWrites.put (Appends.orError (wrote_writeBoth (wrote_addByte _) (wrote_addByte _)))

theorem gkmRpcMessageWriteSpaceString_writes (s : Bytes) (hs : s.length ≠ 0) :
    MsgWrites msg [.s] (byteArrayBytes (some s)) (gkmRpcMessageWriteSpaceString msg s) := by
  unfold gkmRpcMessageWriteSpaceString
  rw [cAssert_of_true hs]
  exact MsgWrites.put (Appends.of_writes fun b => eggBufferAddByteArray_writes b _)

theorem gkmRpcMessageWriteZeroString_writes (s : Bytes) :
    MsgWrites msg [.z] (byteArrayBytes (some s)) (gkmRpcMessageWriteZeroString msg (some s)) := by
  unfold gkmRpcMessageWriteZeroString
  rw [cAssert_of_true (by simp)]
  refine MsgWrites.put fun b => ?_
  by_cases hlen : 0x7fffffff ≤ s.length
  · simp [eggBufferAddString, hlen]
  · have h := eggBufferAddString_writes b s (by omega)
    exact ⟨h.wrote.mono, h.ok⟩

end

/-- A pointer and a length that may be handed to `egg_buffer_add_byte_array`: the memory has as
many bytes as the length says, unless the length is refused. -/
def ReadableRegion (region : Option Bytes) (len : Nat) : Prop :=
  ∀ mem, region = some mem → len < 0x7fffffff → len ≤ mem.length

/-- What such a pointer and length denote. -/
def regionBytes (region : Option Bytes) (len : Nat) : Option Bytes :=
  region.map (·.take len)

theorem addRegion_ok {region : Option Bytes} {len : Nat} (h : ReadableRegion region len)
    (b : EggBuffer) : ∃ r b', addRegion region len b = .ok (r, b') ∧
      Wrote b b' (byteArrayBytes (regionBytes region len)) ∧
      (b'.failures = b.failures → region.isSome = true → len < 0x7fffffff) := by
  cases region with
  | none =>
    exact ⟨_, _, rfl, (eggBufferAddByteArray_writes b none).wrote, by simp⟩
  | some mem =>
    simp only [addRegion]
    split
    · exact ⟨_, _, rfl, Wrote.of_lt (by simp) _, by simp⟩
    · rename_i hlt
      have hle : len ≤ mem.length := h mem rfl (by omega)
      simp only [memRead, hle, if_true, ok_bind]
      exact ⟨(eggBufferAddByteArray b (some (mem.take len))).1,
        (eggBufferAddByteArray b (some (mem.take len))).2, rfl,
        (eggBufferAddByteArray_writes b (some (mem.take len))).wrote, fun _ _ => by omega⟩

/-- The octets of a byte array argument. -/
def byteArrayArgBytes (arr : Option Bytes) (num : Nat) : Bytes :=
  match arr with
  | none => [0] ++ encode 4 num
  | some mem => [1] ++ byteArrayBytes (some (mem.take num))

theorem gkmRpcMessageWriteByteArray_writes (msg : GkmRpcMessage) (arr : Option Bytes)
    (num : Nat) (h : ReadableRegion arr num) :
    MsgWrites msg [.a, .y] (byteArrayArgBytes arr num) (gkmRpcMessageWriteByteArray msg arr num) := by
  cases arr with
  | none =>
    exact MsgWrites.put (Appends.orError (wrote_writeBoth (wrote_addByte _) (wrote_addUint32 _)))
  | some mem =>
    intro rest hexp
    obtain ⟨r, b', hadd, hwrote, -⟩ := addRegion_ok h (eggBufferAddByte msg.buffer 1).2
    have hall : Wrote msg.buffer b' (byteArrayArgBytes (some mem) num) :=
      (wrote_addByte 1 msg.buffer).trans hwrote
    have hres : gkmRpcMessageWriteByteArray msg (some mem) num =
        .ok (!eggBufferHasError b', { msg with buffer := b', sigverify := some rest }) := by
      simp only [gkmRpcMessageWriteByteArray, assertPart_of_expects hexp, ok_bind, hadd]
      rfl
    refine ⟨_, b', hres, hall.mono, fun hb => ?_⟩
    have h0 : b'.failures = 0 := by simpa [eggBufferHasError] using hb
    have hmono := hall.mono
    exact ⟨hall.buf_eq (by omega), by omega⟩

/-- An array too long for its length is refused, so any octets describe a successful write. -/
theorem gkmRpcMessageWriteByteArray_refused (msg : GkmRpcMessage) (mem : Bytes) {num : Nat}
    (h : 0x7fffffff ≤ num) (out : Bytes) :
    MsgWrites msg [.a, .y] out (gkmRpcMessageWriteByteArray msg (some mem) num) := by
  intro rest hexp
  refine ⟨false, (eggBufferAddByte msg.buffer 1).2.fail, ?_, ?_, fun hc => by simp at hc⟩
  · simp only [gkmRpcMessageWriteByteArray, assertPart_of_expects hexp, ok_bind, addRegion,
      if_pos h, pure_eq_ok]
    rfl
  · have hmono := (wrote_addByte 1 msg.buffer).mono
    simp only [EggBuffer.fail_failures]
    omega

/-- The octets of an attribute buffer. -/
def attributeBufferBytes (arr : List CkAttribute) : Bytes :=
  arr.flatMap fun attr => encode 4 attr.type ++ encode 4 attr.bufferLen

theorem addAttributeBuffers_wrote (arr : List CkAttribute) (b : EggBuffer) :
    Wrote b (addAttributeBuffers arr b).2 (attributeBufferBytes arr) := by
  induction arr generalizing b with
  | nil => exact Wrote.refl b
  | cons attr arr ih =>
    have h := wrote_writeBoth (wrote_addUint32 attr.type)
      (wrote_writeBoth (wrote_addUint32 attr.bufferLen) ih) b
    simpa [attributeBufferBytes, addAttributeBuffers] using h

theorem gkmRpcMessageWriteAttributeBuffer_writes (msg : GkmRpcMessage) (arr : List CkAttribute) :
    MsgWrites msg [.f, .attr] (encode 4 arr.length ++ attributeBufferBytes arr)
      (gkmRpcMessageWriteAttributeBuffer msg arr) :=
  MsgWrites.put (Appends.orError
    (wrote_writeBoth (wrote_addUint32 _) (addAttributeBuffers_wrote arr)))

/-- The octets of one attribute of an array. -/
def attributeBytes (attr : CkAttribute) : Bytes :=
  encode 4 attr.type ++
    if attr.ulValueLen = ckUnavailable then [0]
    else [1] ++ (encode 4 attr.ulValueLen ++
      byteArrayBytes (regionBytes attr.pValue attr.ulValueLen))

/-- An attribute whose value can be read: it is not available, or its length is that of memory. -/
def CkAttribute.Readable (attr : CkAttribute) : Prop :=
  attr.ulValueLen ≠ ckUnavailable → ReadableRegion attr.pValue attr.ulValueLen

/-- An attribute whose value is short enough to be sent. -/
def CkAttribute.Sendable (attr : CkAttribute) : Prop :=
  attr.ulValueLen ≠ ckUnavailable → attr.pValue.isSome = true → attr.ulValueLen < 0x7fffffff

/-- Writing an attribute appends its octets, and counts a failure when the value is too long. -/
theorem addAttribute_ok {attr : CkAttribute} (h : attr.Readable) (b : EggBuffer) :
    ∃ b', addAttribute attr b = .ok b' ∧ Wrote b b' (attributeBytes attr) ∧
      (b'.failures = b.failures → attr.Sendable) := by
  unfold addAttribute attributeBytes
  split
  · rename_i heq
    exact ⟨_, rfl, (wrote_addUint32 _ b).trans (wrote_addByte _ _), fun _ hne => absurd heq hne⟩
  · rename_i hne
    obtain ⟨r, b', hadd, hwrote, hlt⟩ := addRegion_ok (h hne)
      (eggBufferAddUint32 (eggBufferAddByte (eggBufferAddUint32 b attr.type).2 1).2
        attr.ulValueLen).2
    have hbefore := (wrote_addUint32 attr.type b).trans
      ((wrote_addByte 1 _).trans (wrote_addUint32 attr.ulValueLen _))
    refine ⟨b', ?_, ?_, ?_⟩
    · simp only [hadd]
      rfl
    · have h3 := hbefore.trans hwrote
      simpa using h3
    · intro hfail _ hsome
      apply hlt _ hsome
      have h1 := hbefore.mono
      have h2 := hwrote.mono
      omega

theorem addAttributes_ok {arr : List CkAttribute} (h : ∀ attr ∈ arr, attr.Readable)
    (b : EggBuffer) :
    ∃ b', addAttributes arr b = .ok b' ∧ Wrote b b' (arr.flatMap attributeBytes) ∧
      (b'.failures = b.failures → ∀ attr ∈ arr, attr.Sendable) := by
  induction arr generalizing b with
  | nil => exact ⟨b, rfl, Wrote.refl b, fun _ _ hmem => absurd hmem (by simp)⟩
  | cons attr arr ih =>
    obtain ⟨b', h1, hw1, hs1⟩ := addAttribute_ok (h attr (by simp)) b
    obtain ⟨b'', h2, hw2, hs2⟩ := ih (fun a ha => h a (by simp [ha])) b'
    refine ⟨b'', by simp [addAttributes, h1, h2], hw1.trans hw2, ?_⟩
    intro hfail a ha
    have hm1 := hw1.mono
    have hm2 := hw2.mono
    rcases mem_cons.1 ha with rfl | ha
    · exact hs1 (by omega)
    · exact hs2 (by omega) a ha

section

variable (msg : GkmRpcMessage) (arr : List CkAttribute) (h : ∀ attr ∈ arr, attr.Readable)

include msg arr h

/-- What writing an array of attributes does to a message that expects it. -/
theorem gkmRpcMessageWriteAttributeArray_ok {rest : Signature}
    (hexp : Expects msg ([.a, .attr] ++ rest)) : ∃ b',
      gkmRpcMessageWriteAttributeArray msg arr =
        .ok (!eggBufferHasError b', { msg with buffer := b', sigverify := some rest }) ∧
      Wrote msg.buffer b' (encode 4 arr.length ++ arr.flatMap attributeBytes) ∧
      (b'.failures = msg.buffer.failures → ∀ attr ∈ arr, attr.Sendable) := by
  obtain ⟨b', hadd, hw, hs⟩ := addAttributes_ok h (eggBufferAddUint32 msg.buffer arr.length).2
  refine ⟨b', ?_, (wrote_addUint32 arr.length msg.buffer).trans hw, ?_⟩
  · simp only [gkmRpcMessageWriteAttributeArray, assertPart_of_expects hexp, ok_bind, hadd]
    rfl
  · intro hfail
    have hm1 := (wrote_addUint32 arr.length msg.buffer).mono
    have hm2 := hw.mono
    exact hs (by omega)

theorem gkmRpcMessageWriteAttributeArray_writes :
    MsgWrites msg [.a, .attr] (encode 4 arr.length ++ arr.flatMap attributeBytes)
      (gkmRpcMessageWriteAttributeArray msg arr) := by
  intro rest hexp
  obtain ⟨b', hres, hw, -⟩ := gkmRpcMessageWriteAttributeArray_ok msg arr h hexp
  refine ⟨_, b', hres, hw.mono, ?_⟩
  intro hb
  have h0 : b'.failures = 0 := by simpa [eggBufferHasError] using hb
  have hmono := hw.mono
  exact ⟨hw.buf_eq (by omega), by omega⟩

/-- An array with a value that is too long is refused, so any octets describe a successful
write. -/
theorem gkmRpcMessageWriteAttributeArray_refused (hlong : ¬ ∀ attr ∈ arr, attr.Sendable)
    (out : Bytes) :
    MsgWrites msg [.a, .attr] out (gkmRpcMessageWriteAttributeArray msg arr) := by
  intro rest hexp
  obtain ⟨b', hres, hw, hs⟩ := gkmRpcMessageWriteAttributeArray_ok msg arr h hexp
  refine ⟨_, b', hres, hw.mono, ?_⟩
  intro hb
  have h0 : b'.failures = 0 := by simpa [eggBufferHasError] using hb
  have hmono := hw.mono
  exact absurd (hs (by omega)) hlong

end

/-- The octets of an array of numbers. -/
def ulongArrayBytes (array : Option (List Nat)) (nArray : Nat) : Bytes :=
  match array with
  | none => [0] ++ encode 4 nArray
  | some mem =>
    [1] ++ (encode 4 nArray ++ (mem.take nArray).flatMap (encode 8))

theorem addUlongs_wrote (vs : List Nat) (b : EggBuffer) :
    Wrote b (addUlongs vs b).2 (vs.flatMap (encode 8)) := by
  induction vs generalizing b with
  | nil => exact Wrote.refl b
  | cons v vs ih =>
    exact wrote_writeBoth (fun b => (eggBufferAddUint64_writes b v).wrote) ih b

theorem gkmRpcMessageWriteUlongArray_writes (msg : GkmRpcMessage) (array : Option (List Nat))
    (nArray : Nat) (h : ∀ mem, array = some mem → nArray ≤ mem.length) :
    MsgWrites msg [.a, .u] (ulongArrayBytes array nArray)
      (gkmRpcMessageWriteUlongArray msg array nArray) := by
  cases array with
  | none =>
    exact MsgWrites.put (Appends.orError (wrote_writeBoth (wrote_addByte _) (wrote_addUint32 _)))
  | some mem =>
    simp only [gkmRpcMessageWriteUlongArray, h mem rfl, if_true]
    exact MsgWrites.put (Appends.orError (wrote_writeBoth (wrote_addByte _)
      (wrote_writeBoth (wrote_addUint32 _) (addUlongs_wrote _))))

/-! ## Readers -/

/-- A message after its header was parsed. -/
def GkmRpcMessage.headed (msg : GkmRpcMessage) (c : CallId) (type : GkmRpcMessageType) :
    GkmRpcMessage :=
  { msg with
    callId := c.wire, callType := some type, signature := some (c.signature type),
    sigverify := some (c.signature type), parsed := (c.header type).length }

/-- Parsing a message that starts with the header of a call. -/
theorem gkmRpcMessageParse_header {msg : GkmRpcMessage} {c : CallId} {type : GkmRpcMessageType}
    (hlen : (c.signature type).bytes.length < 0x7fffffff)
    (hat : HasAt msg.buffer.buf 0 (c.header type)) :
    gkmRpcMessageParse msg type = .ok (true, msg.headed c type) := by
  have hid := uint32At_of_hasAt hat.left c.wire_lt
  have hsig := byteArrayAt_of_hasAt hat.right fun d hd => by
    have hd' : (c.signature type).bytes = d := by simpa using hd
    rw [← hd']
    exact hlen
  rw [length_encode] at hsig
  have hne : ¬ c.wire = 0 := Nat.pos_iff_ne_zero.1 c.wire_pos
  unfold gkmRpcMessageParse
  simp only [eggBufferGetUint32_eq, hid, readResult_some, ok_bind, if_neg hne,
    CallId.ofWire_wire, eggBufferGetByteArray_eq, hsig, Option.getD_some, beq_self_eq_true,
    GkmRpcMessage.headed, CallId.header, length_append, length_encode, pure_eq_ok]

/-- Read from the buffer of a message at its position. -/
def GkmRpcMessage.get {α : Type} (msg : GkmRpcMessage)
    (r : Getter α) :
    Checked (Option α × GkmRpcMessage) := do
  match ← r msg.buffer msg.parsed with
  | (none, buffer) => pure (none, { msg with buffer })
  | (some (v, parsed), buffer) => pure (some v, { msg with buffer, parsed })

/-- `gkm_rpc_message_read_ulong`. -/
def gkmRpcMessageReadUlong (msg : GkmRpcMessage) : Checked (Option Nat × GkmRpcMessage) := do
  let msg ← assertPart msg [.u]
  msg.get eggBufferGetUint64

/-- `gkm_rpc_message_read_version`. -/
def gkmRpcMessageReadVersion (msg : GkmRpcMessage) :
    Checked (Option CkVersion × GkmRpcMessage) := do
  let msg ← assertPart msg [.v]
  match ← msg.get eggBufferGetByte with
  | (none, msg) => pure (none, msg)
  | (some major, msg) =>
    match ← msg.get eggBufferGetByte with
    | (none, msg) => pure (none, msg)
    | (some minor, msg) => pure (some { major, minor }, msg)

/-- `gkm_rpc_message_read_space_string`: a string of the length of the buffer, which is not
terminated. -/
def gkmRpcMessageReadSpaceString (msg : GkmRpcMessage) (length : Nat) :
    Checked (Option (Octets length) × GkmRpcMessage) := do
  cAssert (length ≠ 0)
  let msg ← assertPart msg [.s]
  match ← msg.get eggBufferGetByteArray with
  | (none, msg) => pure (none, msg)
  | (some data, msg) =>
    if h : (data.getD []).toArray.size = length then pure (some ⟨(data.getD []).toArray, h⟩, msg)
    else pure (none, msg)

/-- A getter that never faults and reads what `val` says. -/
def Reads {α : Type} (r : Getter α)
    (val : Bytes → Nat → Option (α × Nat)) : Prop :=
  ∀ b offset, r b offset = .ok (readResult b (val b.buf offset))

/-- The outcome of a read of a message whose value is `r`. -/
def GkmRpcMessage.got {α : Type} (msg : GkmRpcMessage) (r : Option (α × Nat)) :
    Option α × GkmRpcMessage :=
  match r with
  | none => (none, { msg with buffer := msg.buffer.fail })
  | some (v, parsed) => (some v, { msg with parsed })

theorem GkmRpcMessage.get_eq {α : Type} {r : Getter α}
    {val : Bytes → Nat → Option (α × Nat)} (h : Reads r val) (msg : GkmRpcMessage) :
    msg.get r = .ok (msg.got (val msg.buffer.buf msg.parsed)) := by
  rw [GkmRpcMessage.get, h]
  cases hv : val msg.buffer.buf msg.parsed with
  | none => rfl
  | some v => rfl

/-! ## Arguments of PKCS#11 functions -/

/-- An argument of a PKCS#11 function, other than a pointer to a result. A pointer argument is null
or has the contents of the memory it points to; a buffer is memory for a result, with the room it
has. -/
inductive Arg where
  | byte (val : UInt8)
  | ulong (val : Nat)
  | string (val : Bytes)
  | byteArray (arr : Option Bytes) (len : Nat)
  | byteBuffer (arr : Option Bytes) (len : Nat)
  | ulongBuffer (arr : Option (List Nat)) (len : Nat)
  | attributeBuffer (arr : List CkAttribute)
  | attributeArray (arr : List CkAttribute)
  | mechanism (mech : CkMechanism)
  | application
  | pointer (addr : Option Nat)
  deriving DecidableEq, Repr

end MateKeyring.Rpc
