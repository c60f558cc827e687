import MateKeyring.Lib.Prog
import MateKeyring.Rpc.Message

/-!
# The daemon side of the PKCS#11 protocol

`gkm-rpc-dispatch.c`. A request is read argument by argument (`protoRead*`), handed to the module
below (`LowerModule`), and answered by writing the results (`protoWrite*`). A handler is the list
of its `IN_*` macros, the arguments it passes on, and the list of its `OUT_*` macros
(`Handler.run`); `rpcC*` are the handlers under the names of the source. `dispatchRound` is one
round of `run_dispatch_loop`.

Memory for a request comes from `call_alloc`, which asks `malloc`; `CallState.malloc` answers the
requests in turn, so that every pattern of failures is covered.
-/

set_option autoImplicit false

namespace MateKeyring.Rpc.Dispatch

open Lib Egg

/-! ## Call state -/

/-- `CallState`. `uninit` is what a variable holds that the source has not initialised. -/
structure CallState where
  req : GkmRpcMessage
  resp : GkmRpcMessage
  applicationId : Nat
  malloc : Nat → Nat → Bool
  mallocs : Nat
  uninit : CkRv

/-- `PARSE_ERROR`. -/
abbrev parseError : CkRv := ckrDeviceError

/-- `PREP_ERROR`. -/
abbrev prepError : CkRv := ckrDeviceMemory

/-- A step of a handler: stopping is `goto _cleanup` with a code. -/
abbrev Proto := Prog Fault CallState CkRv

/-- Whether memory is given for the next request. -/
def askMalloc (cs : CallState) (size : Nat) : Bool × CallState :=
  (cs.malloc cs.mallocs size, { cs with mallocs := cs.mallocs + 1 })

/-- `call_alloc`: whether there is a block. -/
def callAlloc (cs : CallState) (length : Nat) : Bool × CallState :=
  if length > 0x7fffffff then (false, cs) else askMalloc cs (8 + length)

/-- `call_reset`. -/
def callReset (cs : CallState) : CallState :=
  { cs with req := gkmRpcMessageReset cs.req, resp := gkmRpcMessageReset cs.resp }

/-! ## Reading the request -/

/-- Check the next part of the request's signature. -/
def expectPart (part : Signature) : Proto Unit :=
  Prog.run fun cs => do
    let req ← assertPart cs.req part
    pure ((), { cs with req })

/-- Read from the request, or stop with `PARSE_ERROR`. -/
def getOrStop {α : Type} (r : Getter α) :
    Proto α := fun cs =>
  match cs.req.get r with
  | .error f => .error f
  | .ok (none, req) => .ok (.error parseError, { cs with req })
  | .ok (some v, req) => .ok (.ok v, { cs with req })

/-- `call_alloc`, or stop with `CKR_DEVICE_MEMORY`. -/
def allocOrStop (length : Nat) : Proto Unit := fun cs =>
  match callAlloc cs length with
  | (false, cs) => .ok (.error ckrDeviceMemory, cs)
  | (true, cs) => .ok (.ok (), cs)

/-- `proto_read_byte_buffer`. -/
def protoReadByteBuffer : Proto Arg := do
  expectPart [.f, .y]
  let length ← getOrStop eggBufferGetUint32
  if length = 0 then pure (.byteBuffer none 0)
  else do
    allocOrStop length
    pure (.byteBuffer (some (List.replicate length 0xff)) length)

/-- `proto_read_byte_array`. When there is no array, nothing more is read. -/
def protoReadByteArray : Proto Arg := do
  expectPart [.a, .y]
  let valid ← getOrStop eggBufferGetByte
  if valid = 0 then pure (.byteArray none 0)
  else do
    let data ← getOrStop eggBufferGetByteArray
    pure (.byteArray data (data.getD []).length)

/-- `proto_read_ulong_buffer`. -/
def protoReadUlongBuffer : Proto Arg := do
  expectPart [.f, .u]
  let length ← getOrStop eggBufferGetUint32
  if length = 0 then pure (.ulongBuffer none 0)
  else do
    allocOrStop (length * 8)
    pure (.ulongBuffer (some (List.replicate length (2 ^ 64 - 1))) length)

/-- The loop of `proto_read_attribute_buffer`. -/
def readAttributeBuffers : Nat → Proto (List CkAttribute)
  | 0 => pure []
  | n + 1 => do
      let type ← getOrStop eggBufferGetUint32
      let value ← getOrStop eggBufferGetUint32
      if value = 0 then do
        let attrs ← readAttributeBuffers n
        pure (⟨type, none, 0⟩ :: attrs)
      else do
        allocOrStop value
        let attrs ← readAttributeBuffers n
        pure (⟨type, some (List.replicate value 0xff), value⟩ :: attrs)

/-- `proto_read_attribute_buffer`. -/
def protoReadAttributeBuffer : Proto Arg := do
  expectPart [.f, .attr]
  let nAttrs ← getOrStop eggBufferGetUint32
  allocOrStop (nAttrs * 24)
  let attrs ← readAttributeBuffers nAttrs
  pure (.attributeBuffer attrs)

/-- The loop of `proto_read_attribute_array`. -/
def readAttributes : Nat → Proto (List CkAttribute)
  | 0 => pure []
  | n + 1 => do
      let type ← getOrStop eggBufferGetUint32
      let valid ← getOrStop eggBufferGetByte
      if valid = 0 then do
        let attrs ← readAttributes n
        pure (⟨type, none, ckUnavailable⟩ :: attrs)
      else do
        let value ← getOrStop eggBufferGetUint32
        let data ← getOrStop eggBufferGetByteArray
        if data.isSome ∧ (data.getD []).length ≠ value then Prog.stop parseError
        else do
          let attrs ← readAttributes n
          pure (⟨type, data, value⟩ :: attrs)

/-- `proto_read_attribute_array`. -/
def protoReadAttributeArray : Proto Arg := do
  expectPart [.a, .attr]
  let nAttrs ← getOrStop eggBufferGetUint32
  allocOrStop (nAttrs * 24)
  let attrs ← readAttributes nAttrs
  pure (.attributeArray attrs)

/-- `block[i] = val`. -/
def storeByte (block : Bytes) (i : Nat) (val : UInt8) : Checked Bytes :=
  if i < block.length then .ok (block.set i val) else .error .outOfBounds

/-- `proto_read_null_string`. The block has room for the characters; the terminator is stored
after them. -/
def protoReadNullString : Proto Arg := do
  expectPart [.z]
  let data ← getOrStop eggBufferGetByteArray
  let chars := data.getD []
  allocOrStop chars.length
  let block ← Prog.run fun cs => do
    let block ← storeByte chars chars.length 0
    pure (block, cs)
  pure (.string block)

/-- `proto_read_mechanism`. -/
def protoReadMechanism : Proto Arg := do
  expectPart [.mech]
  let value ← getOrStop eggBufferGetUint32
  let data ← getOrStop eggBufferGetByteArray
  pure (.mechanism ⟨value, data, (data.getD []).length⟩)

/-- The `IN_*` macros. -/
inductive InPart where
  | byte | ulong | string | byteBuffer | byteArray | ulongBuffer | attributeBuffer
  | attributeArray | mechanism
  deriving DecidableEq, Repr

/-- `IN_BYTE`. -/
def inByte : Proto Arg := do
  expectPart [.y]
  let val ← getOrStop eggBufferGetByte
  pure (.byte val)

/-- `IN_ULONG`. -/
def inUlong : Proto Arg := do
  expectPart [.u]
  let val ← getOrStop eggBufferGetUint64
  pure (.ulong val)

/-- What an `IN_*` macro does. -/
def InPart.read : InPart → Proto Arg
  | .byte => inByte
  | .ulong => inUlong
  | .string => protoReadNullString
  | .byteBuffer => protoReadByteBuffer
  | .byteArray => protoReadByteArray
  | .ulongBuffer => protoReadUlongBuffer
  | .attributeBuffer => protoReadAttributeBuffer
  | .attributeArray => protoReadAttributeArray
  | .mechanism => protoReadMechanism

/-- A sequence of `IN_*` macros. -/
def readIns : List InPart → Proto (List Arg)
  | [] => pure []
  | p :: ps => do
      let arg ← p.read
      let args ← readIns ps
      pure (arg :: args)

/-! ## The module below -/

/-- `CK_INFO`. -/
structure CkInfo where
  cryptokiVersion : CkVersion
  manufacturerID : Octets 32
  flags : Nat
  libraryDescription : Octets 32
  libraryVersion : CkVersion

/-- `CK_SLOT_INFO`. -/
structure CkSlotInfo where
  slotDescription : Octets 64
  manufacturerID : Octets 32
  flags : Nat
  hardwareVersion : CkVersion
  firmwareVersion : CkVersion

/-- `CK_TOKEN_INFO`. -/
structure CkTokenInfo where
  label : Octets 32
  manufacturerID : Octets 32
  model : Octets 16
  serialNumber : Octets 16
  flags : Nat
  ulMaxSessionCount : Nat
  ulSessionCount : Nat
  ulMaxRwSessionCount : Nat
  ulRwSessionCount : Nat
  ulMaxPinLen : Nat
  ulMinPinLen : Nat
  ulTotalPublicMemory : Nat
  ulFreePublicMemory : Nat
  ulTotalPrivateMemory : Nat
  ulFreePrivateMemory : Nat
  hardwareVersion : CkVersion
  firmwareVersion : CkVersion
  utcTime : Octets 16

/-- `CK_MECHANISM_INFO`. -/
structure CkMechanismInfo where
  ulMinKeySize : Nat
  ulMaxKeySize : Nat
  flags : Nat

/-- `CK_SESSION_INFO`. -/
structure CkSessionInfo where
  slotID : Nat
  state : Nat
  flags : Nat
  ulDeviceError : Nat

/-- What a call of the module below leaves behind: its code, and the memory its result pointers
point to. `ulong` and `ulong2` are the first and second number, `bytes`, `ulongs` and `attrs` the
contents of a buffer, `len` the length or count that goes with it, and `applicationId` the field
of the `CK_G_APPLICATION` that the module was given. -/
structure Answer where
  rv : CkRv
  ulong : Nat
  ulong2 : Nat
  bytes : Bytes
  ulongs : List Nat
  len : Nat
  attrs : List CkAttribute
  info : CkInfo
  slotInfo : CkSlotInfo
  tokenInfo : CkTokenInfo
  mechanismInfo : CkMechanismInfo
  sessionInfo : CkSessionInfo
  applicationId : Nat

/-- `CK_FUNCTION_LIST` of the module below, with its state. -/
structure LowerModule (σ : Type) where
  has : CallId → Bool
  call : CallId → List Arg → σ → Answer × σ

/-! ## Writing the response -/

/-- Write to the response. -/
def respWrite (w : GkmRpcMessage → Checked (Bool × GkmRpcMessage)) : Proto Bool :=
  Prog.run fun cs => do
    let (ok, resp) ← w cs.resp
    pure (ok, { cs with resp })

/-- Writes joined by `||`: each is made when those before it succeeded. -/
def respWriteAll : List (GkmRpcMessage → Checked (Bool × GkmRpcMessage)) → Proto Bool
  | [] => pure true
  | w :: ws => do
      if ← respWrite w then respWriteAll ws else pure false

/-- `if (!written) return PREP_ERROR; return CKR_OK;`. -/
def orPrepError (w : Proto Bool) : Proto CkRv := do
  if ← w then pure ckrOk else pure prepError

/-- `proto_write_byte_array`. -/
def protoWriteByteArray (array : Option Bytes) (len : Nat) (ret : CkRv) : Proto CkRv :=
  if ret = ckrBufferTooSmall then
    orPrepError (respWrite (gkmRpcMessageWriteByteArray · none len))
  else if ret = ckrOk then
    orPrepError (respWrite (gkmRpcMessageWriteByteArray · array len))
  else pure ret

/-- `proto_write_ulong_array`. -/
def protoWriteUlongArray (array : Option (List Nat)) (len : Nat) (ret : CkRv) : Proto CkRv :=
  if ret = ckrBufferTooSmall then
    orPrepError (respWrite (gkmRpcMessageWriteUlongArray · none len))
  else if ret = ckrOk then
    orPrepError (respWrite (gkmRpcMessageWriteUlongArray · array len))
  else pure ret

/-- The codes `proto_write_attribute_array` passes on along with the attributes. -/
def passedWithAttributes (ret : CkRv) : Bool :=
  ret == ckrAttributeSensitive || ret == ckrAttributeTypeInvalid || ret == ckrBufferTooSmall ||
    ret == ckrOk

/-- `proto_write_attribute_array`. -/
def protoWriteAttributeArray (array : List CkAttribute) (ret : CkRv) : Proto CkRv :=
  if passedWithAttributes ret then
    orPrepError (respWriteAll
      [(gkmRpcMessageWriteAttributeArray · array), (gkmRpcMessageWriteUlong · ret)])
  else pure ret

/-- `proto_write_info`. -/
def protoWriteInfo (info : CkInfo) : Proto CkRv :=
  orPrepError (respWriteAll
    [(gkmRpcMessageWriteVersion · info.cryptokiVersion),
      (gkmRpcMessageWriteSpaceString · info.manufacturerID.toList),
      (gkmRpcMessageWriteUlong · info.flags),
      (gkmRpcMessageWriteSpaceString · info.libraryDescription.toList),
      (gkmRpcMessageWriteVersion · info.libraryVersion)])

/-- `proto_write_slot_info`. -/
def protoWriteSlotInfo (info : CkSlotInfo) : Proto CkRv :=
  orPrepError (respWriteAll
    [(gkmRpcMessageWriteSpaceString · info.slotDescription.toList),
      (gkmRpcMessageWriteSpaceString · info.manufacturerID.toList),
      (gkmRpcMessageWriteUlong · info.flags),
      (gkmRpcMessageWriteVersion · info.hardwareVersion),
      (gkmRpcMessageWriteVersion · info.firmwareVersion)])

/-- `proto_write_token_info`. -/
def protoWriteTokenInfo (info : CkTokenInfo) : Proto CkRv :=
  orPrepError (respWriteAll
    [(gkmRpcMessageWriteSpaceString · info.label.toList),
      (gkmRpcMessageWriteSpaceString · info.manufacturerID.toList),
      (gkmRpcMessageWriteSpaceString · info.model.toList),
      (gkmRpcMessageWriteSpaceString · info.serialNumber.toList),
      (gkmRpcMessageWriteUlong · info.flags),
      (gkmRpcMessageWriteUlong · info.ulMaxSessionCount),
      (gkmRpcMessageWriteUlong · info.ulSessionCount),
      (gkmRpcMessageWriteUlong · info.ulMaxRwSessionCount),
      (gkmRpcMessageWriteUlong · info.ulRwSessionCount),
      (gkmRpcMessageWriteUlong · info.ulMaxPinLen),
      (gkmRpcMessageWriteUlong · info.ulMinPinLen),
      (gkmRpcMessageWriteUlong · info.ulTotalPublicMemory),
      (gkmRpcMessageWriteUlong · info.ulFreePublicMemory),
      (gkmRpcMessageWriteUlong · info.ulTotalPrivateMemory),
      (gkmRpcMessageWriteUlong · info.ulFreePrivateMemory),
      (gkmRpcMessageWriteVersion · info.hardwareVersion),
      (gkmRpcMessageWriteVersion · info.firmwareVersion),
      (gkmRpcMessageWriteSpaceString · info.utcTime.toList)])

/-- `proto_write_mechanism_info`. -/
def protoWriteMechanismInfo (info : CkMechanismInfo) : Proto CkRv :=
  orPrepError (respWriteAll
    [(gkmRpcMessageWriteUlong · info.ulMinKeySize), (gkmRpcMessageWriteUlong · info.ulMaxKeySize),
      (gkmRpcMessageWriteUlong · info.flags)])

/-- `proto_write_session_info`. -/
def protoWriteSessionInfo (info : CkSessionInfo) : Proto CkRv :=
  orPrepError (respWriteAll
    [(gkmRpcMessageWriteUlong · info.slotID), (gkmRpcMessageWriteUlong · info.state),
      (gkmRpcMessageWriteUlong · info.flags), (gkmRpcMessageWriteUlong · info.ulDeviceError)])

/-- The `OUT_*` macros. `ulong2` is the second number of a call that returns two, and
`byteArrayGiven` the array of `C_GenerateRandom`, whose length is the one that was asked for. -/
inductive OutPart where
  | ulong | ulong2 | byteArray | byteArrayGiven | ulongArray | attributeArray | info | slotInfo
  | tokenInfo | mechanismInfo | sessionInfo
  deriving DecidableEq, Repr

/-- The length of the buffer among the arguments that were read, if it is not null. -/
def bufferGiven : List Arg → Option Nat
  | [] => none
  | .byteBuffer (some _) len :: _ => some len
  | .ulongBuffer (some _) len :: _ => some len
  | _ :: args => bufferGiven args

/-- `OUT_ULONG`. -/
def outUlong (val : Nat) (ret : CkRv) : Proto CkRv :=
  if ret = ckrOk then orPrepError (respWrite (gkmRpcMessageWriteUlong · val)) else pure ret

/-- A macro that writes a record when the call succeeded. -/
def whenOk (w : Proto CkRv) (ret : CkRv) : Proto CkRv := if ret = ckrOk then w else pure ret

/-- What an `OUT_*` macro does, with the code so far. -/
def OutPart.write (p : OutPart) (args : List Arg) (ans : Answer) (ret : CkRv) : Proto CkRv :=
  match p with
  | .ulong => outUlong ans.ulong ret
  | .ulong2 => outUlong ans.ulong2 ret
  | .byteArray => protoWriteByteArray ((bufferGiven args).map fun _ => ans.bytes) ans.len ret
  | .byteArrayGiven =>
    protoWriteByteArray ((bufferGiven args).map fun _ => ans.bytes) ((bufferGiven args).getD 0) ret
  | .ulongArray => protoWriteUlongArray ((bufferGiven args).map fun _ => ans.ulongs) ans.len ret
  | .attributeArray => protoWriteAttributeArray ans.attrs ret
  | .info => whenOk (protoWriteInfo ans.info) ret
  | .slotInfo => whenOk (protoWriteSlotInfo ans.slotInfo) ret
  | .tokenInfo => whenOk (protoWriteTokenInfo ans.tokenInfo) ret
  | .mechanismInfo => whenOk (protoWriteMechanismInfo ans.mechanismInfo) ret
  | .sessionInfo => whenOk (protoWriteSessionInfo ans.sessionInfo) ret

/-- A sequence of `OUT_*` macros. -/
def writeOuts : List OutPart → List Arg → Answer → CkRv → Proto CkRv
  | [], _, _, ret => pure ret
  | p :: ps, args, ans, ret => do
      let ret ← p.write args ans ret
      writeOuts ps args ans ret

end MateKeyring.Rpc.Dispatch
