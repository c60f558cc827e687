import MateKeyring.Rpc.Pool
import MateKeyring.Rpc.Sending

/-!
# Reading the results of a call

The readers `proto_read_*` of `gkm-rpc-module.c` and the `OUT_*` macros of the stubs, which come
after `PROCESS_CALL`. An `OutMacro` holds what the caller's pointer points to; reading it gives the
code and the macro with what is there afterwards. What a reader that returns `PARSE_ERROR` leaves in
the caller's memory is not followed. `ClientStub` is a stub with all of its macros, and `runStub` is
the whole of a stub, from `call_prepare` to `call_done`.
-/

set_option autoImplicit false

namespace MateKeyring.Rpc.Module

open Lib Egg Dispatch

/-! ## Readers -/

/-- Read with a function on messages, or stop with `PARSE_ERROR`. -/
def orParseError {α : Type} (r : GkmRpcMessage → Checked (Option α × GkmRpcMessage)) :
    Response α := do
  match ← Prog.run r with
  | none => Prog.stop ckrDeviceError
  | some v => pure v

/-- `assert (!msg->signature || gkm_rpc_message_verify_part (msg, part))`. -/
def assertOrder (part : Signature) : Response Unit :=
  Prog.run fun resp => do
    let resp ← assertPart resp part
    pure ((), resp)

/-- A step on the caller's memory. -/
def inMemory {α : Type} (x : Checked α) : Response α :=
  Prog.run fun resp => do
    let a ← x
    pure (a, resp)

/-- The end of `proto_read_byte_array`, with bytes that were read: the code, the caller's array and
its length. -/
def storeBytes (arr : CkBytePtr) (max : Nat) (val : Bytes) : Checked (CkRv × CkBytePtr × Nat) :=
  match arr with
  | none => .ok (ckrOk, none, val.length)
  | some mem =>
    if max < val.length then .ok (ckrBufferTooSmall, some mem, val.length)
    else do
      let mem ← copyInto mem val
      pure (ckrOk, some mem, val.length)

/-- The code that goes with a length that comes without an array. -/
def lengthOnly {α : Type} (arr : Option α) : CkRv :=
  if arr.isSome then ckrBufferTooSmall else ckrOk

/-- `proto_read_byte_array`. A length without an array is read into half of a variable that the
source does not initialise; the other half is zero here. -/
def protoReadByteArray (arr : CkBytePtr) (max : Nat) : Response (CkRv × CkBytePtr × Nat) := do
  assertOrder [.a, .y]
  let valid ← getOrParseError eggBufferGetByte
  if valid = 0 then do
    let vlen ← getOrParseError eggBufferGetUint32
    pure (lengthOnly arr, arr, vlen)
  else do
    let val ← getOrParseError eggBufferGetByteArray
    inMemory (storeBytes arr max (val.getD []))

/-- `if (arr) arr[i] = val`. -/
def storeUlong (arr : CkUlongArrayPtr) (i val : Nat) : Checked CkUlongArrayPtr :=
  match arr with
  | none => .ok none
  | some mem => if i < mem.length then .ok (some (mem.set i val)) else .error .outOfBounds

/-- The loop of `proto_read_ulong_array`, with `n` numbers to go. A read that fails leaves the loop:
those that follow it fail too. -/
def readUlongs : Nat → Nat → CkUlongArrayPtr → Response CkUlongArrayPtr
  | 0, _, arr => pure arr
  | n + 1, i, arr => do
      let val ← getOrParseError eggBufferGetUint64
      let arr ← inMemory (storeUlong arr i val)
      readUlongs n (i + 1) arr

/-- `proto_read_ulong_array`. -/
def protoReadUlongArray (arr : CkUlongArrayPtr) (max : Nat) :
    Response (CkRv × CkUlongArrayPtr × Nat) := do
  assertOrder [.a, .u]
  let valid ← getOrParseError eggBufferGetByte
  let num ← getOrParseError eggBufferGetUint32
  if valid = 0 then pure (lengthOnly arr, arr, num)
  else if max < num then pure (ckrBufferTooSmall, arr, num)
  else do
    let arr ← readUlongs num 0 arr
    pure (ckrOk, arr, num)

/-- `(int)(*n_mechs)` -/
def mechCount (n : Nat) : Int := Int.bmod n (2 ^ 32)

theorem mechCount_le (n : Nat) : mechCount n ≤ n := by
  have hdef : mechCount n = _ := Int.bmod_def n (2 ^ 32)
  split at hdef
  · omega
  · omega

theorem lt_of_lt_mechCount {i n : Nat} (h : (i : Int) < mechCount n) : i < n :=
  Int.ofNat_lt.1 (Int.lt_of_lt_of_le h (mechCount_le n))

/-- The loop of `gkm_rpc_mechanism_list_purge` from `i`, which goes on while `i < (int)(*n_mechs)`.
`memmove` also moves the element behind the last one. -/
def purgeFrom (mechs : List Nat) (n i : Nat) : Checked (List Nat × Nat) :=
  if _h : (i : Int) < mechCount n then
    match mechs[i]? with
    | none => .error .outOfBounds
    | some mech =>
      if gkmRpcMechanismIsSupported mech then purgeFrom mechs n (i + 1)
      else if n < mechs.length then
        purgeFrom (mechs.take i ++ (mechs.drop (i + 1)).take (n - i) ++ mechs.drop n) (n - 1) i
      else .error .outOfBounds
  else .ok (mechs, n)
termination_by n - i
decreasing_by
  · have hlt := lt_of_lt_mechCount _h
    omega
  · have hlt := lt_of_lt_mechCount _h
    omega

/-- `gkm_rpc_mechanism_list_purge`. -/
def gkmRpcMechanismListPurge (mechs : List Nat) (n : Nat) : Checked (List Nat × Nat) :=
  purgeFrom mechs n 0

/-- What `OUT_MECHANISM_TYPE_ARRAY` does with an array that was read. -/
def purgeRead (arr : CkUlongArrayPtr) (num : Nat) : Checked (CkRv × CkUlongArrayPtr × Nat) :=
  match arr with
  | none => .ok (ckrOk, none, num)
  | some mechs => do
      let (mechs, num) ← gkmRpcMechanismListPurge mechs num
      pure (ckrOk, some mechs, num)

/-- `OUT_MECHANISM_TYPE_ARRAY` of pointers that are not null. -/
def readMechanismTypes (arr : CkUlongArrayPtr) (max : Nat) :
    Response (CkRv × CkUlongArrayPtr × Nat) := do
  let (ret, arr, num) ← protoReadUlongArray arr max
  if ret = ckrOk then inMemory (purgeRead arr num) else pure (ret, arr, num)

/-- `gkm_rpc_message_read_ulong`, or `PARSE_ERROR`. -/
def readUlong : Response Nat := orParseError gkmRpcMessageReadUlong

/-- `gkm_rpc_message_read_version`, or `PARSE_ERROR`. -/
def readVersion : Response CkVersion := orParseError gkmRpcMessageReadVersion

/-- `gkm_rpc_message_read_space_string`, or `PARSE_ERROR`. -/
def readSpaceString (length : Nat) : Response (Octets length) :=
  orParseError (gkmRpcMessageReadSpaceString · length)

/-- `proto_read_info`. -/
def protoReadInfo : Response CkInfo := do
  let cryptokiVersion ← readVersion
  let manufacturerID ← readSpaceString 32
  let flags ← readUlong
  let libraryDescription ← readSpaceString 32
  let libraryVersion ← readVersion
  pure { cryptokiVersion, manufacturerID, flags, libraryDescription, libraryVersion }

/-- `proto_read_slot_info`. -/
def protoReadSlotInfo : Response CkSlotInfo := do
  let slotDescription ← readSpaceString 64
  let manufacturerID ← readSpaceString 32
  let flags ← readUlong
  let hardwareVersion ← readVersion
  let firmwareVersion ← readVersion
  pure { slotDescription, manufacturerID, flags, hardwareVersion, firmwareVersion }

/-- `proto_read_token_info`. -/
def protoReadTokenInfo : Response CkTokenInfo := do
  let label ← readSpaceString 32
  let manufacturerID ← readSpaceString 32
  let model ← readSpaceString 16
  let serialNumber ← readSpaceString 16
  let flags ← readUlong
  let ulMaxSessionCount ← readUlong
  let ulSessionCount ← readUlong
  let ulMaxRwSessionCount ← readUlong
  let ulRwSessionCount ← readUlong
  let ulMaxPinLen ← readUlong
  let ulMinPinLen ← readUlong
  let ulTotalPublicMemory ← readUlong
  let ulFreePublicMemory ← readUlong
  let ulTotalPrivateMemory ← readUlong
  let ulFreePrivateMemory ← readUlong
  let hardwareVersion ← readVersion
  let firmwareVersion ← readVersion
  let utcTime ← readSpaceString 16
  pure
    { label, manufacturerID, model, serialNumber, flags, ulMaxSessionCount, ulSessionCount,
      ulMaxRwSessionCount, ulRwSessionCount, ulMaxPinLen, ulMinPinLen, ulTotalPublicMemory,
      ulFreePublicMemory, ulTotalPrivateMemory, ulFreePrivateMemory, hardwareVersion,
      firmwareVersion, utcTime }

/-- `proto_read_mechanism_info`. -/
def protoReadMechanismInfo : Response CkMechanismInfo := do
  let ulMinKeySize ← readUlong
  let ulMaxKeySize ← readUlong
  let flags ← readUlong
  pure { ulMinKeySize, ulMaxKeySize, flags }

/-- `proto_read_sesssion_info`. -/
def protoReadSessionInfo : Response CkSessionInfo := do
  let slotID ← readUlong
  let state ← readUlong
  let flags ← readUlong
  let ulDeviceError ← readUlong
  pure { slotID, state, flags, ulDeviceError }

/-! ## The macros -/

/-- The `OUT_*` macros. -/
inductive OutKind where
  | ulong | byteArray | ulongArray | attributeArray | info | slotInfo | tokenInfo | sessionInfo
  | mechanismTypeArray | mechanismInfo
  deriving DecidableEq, Repr

/-- An `OUT_*` macro with the caller's pointers: `none` is a null pointer, and else there is what
it points to. -/
inductive OutMacro where
  | ulong (val : Option Nat)
  | byteArray (arr : CkBytePtr) (len : Option Nat)
  | ulongArray (arr : CkUlongArrayPtr) (len : Option Nat)
  | attributeArray (arr : List CkAttribute)
  | info (val : Option CkInfo)
  | slotInfo (val : Option CkSlotInfo)
  | tokenInfo (val : Option CkTokenInfo)
  | sessionInfo (val : Option CkSessionInfo)
  | mechanismTypeArray (arr : CkUlongArrayPtr) (len : Option Nat)
  | mechanismInfo (val : Option CkMechanismInfo)

/-- The macro without its pointers. -/
def OutMacro.kind : OutMacro → OutKind
  | .ulong _ => .ulong
  | .byteArray _ _ => .byteArray
  | .ulongArray _ _ => .ulongArray
  | .attributeArray _ => .attributeArray
  | .info _ => .info
  | .slotInfo _ => .slotInfo
  | .tokenInfo _ => .tokenInfo
  | .sessionInfo _ => .sessionInfo
  | .mechanismTypeArray _ _ => .mechanismTypeArray
  | .mechanismInfo _ => .mechanismInfo

/-- Whether the pointer that a macro looks at is null. `OUT_ATTRIBUTE_ARRAY` looks at none. -/
def OutMacro.isNull : OutMacro → Bool
  | .ulong val => val.isNone
  | .byteArray _ len => len.isNone
  | .ulongArray _ len => len.isNone
  | .attributeArray _ => false
  | .info val => val.isNone
  | .slotInfo val => val.isNone
  | .tokenInfo val => val.isNone
  | .sessionInfo val => val.isNone
  | .mechanismTypeArray _ len => len.isNone
  | .mechanismInfo val => val.isNone

/-- Read one value into what a pointer points to. -/
def fillWith {α : Type} (r : Response α) (f : Option α → OutMacro) :
    Response (CkRv × OutMacro) := do
  let v ← r
  pure (ckrOk, f (some v))

/-- Read an array into what two pointers point to. -/
def fillArray {α : Type} (r : Nat → Response (CkRv × Option (List α) × Nat)) (len : Option Nat)
    (f : Option (List α) → Option Nat → OutMacro) : Response (CkRv × OutMacro) := do
  let (ret, arr, n) ← r (len.getD 0)
  pure (ret, f arr (some n))

/-- The reader of a macro whose pointer is not null. -/
def OutMacro.fill : OutMacro → Response (CkRv × OutMacro)
  | .ulong _ => fillWith readUlong .ulong
  | .byteArray arr len => fillArray (protoReadByteArray arr) len .byteArray
  | .ulongArray arr len => fillArray (protoReadUlongArray arr) len .ulongArray
  | .attributeArray arr =>
    Prog.run fun resp => do
      let (ret, arr, resp) ← protoReadAttributeArray arr resp
      pure ((ret, .attributeArray arr), resp)
  | .info _ => fillWith protoReadInfo .info
  | .slotInfo _ => fillWith protoReadSlotInfo .slotInfo
  | .tokenInfo _ => fillWith protoReadTokenInfo .tokenInfo
  | .sessionInfo _ => fillWith protoReadSessionInfo .sessionInfo
  | .mechanismTypeArray arr len => fillArray (readMechanismTypes arr) len .mechanismTypeArray
  | .mechanismInfo _ => fillWith protoReadMechanismInfo .mechanismInfo

/-- What an `OUT_*` macro does with the code so far: the code, what the pointers point to, and the
response. -/
def OutMacro.read (m : OutMacro) (ret : CkRv) (resp : GkmRpcMessage) :
    Checked (CkRv × OutMacro × GkmRpcMessage) :=
  if m.isNull then .ok (ckrArgumentsBad, m, resp)
  else if ret ≠ ckrOk then .ok (ret, m, resp)
  else
    match m.fill resp with
    | .error f => .error f
    | .ok (.error ret, resp) => .ok (ret, m, resp)
    | .ok (.ok (ret, m), resp) => .ok (ret, m, resp)

/-- A sequence of `OUT_*` macros. -/
def readOuts : List OutMacro → CkRv → GkmRpcMessage → Checked (CkRv × List OutMacro × GkmRpcMessage)
  | [], ret, resp => .ok (ret, [], resp)
  | m :: ms, ret, resp => do
      let (ret, m, resp) ← m.read ret resp
      let (ret, ms, resp) ← readOuts ms ret resp
      pure (ret, m :: ms, resp)

/-! ## The stubs -/

/-- The `OUT_*` macros of the stub of a call. -/
def outMacros : CallId → List OutKind
  | .cGetInfo => [.info]
  | .cGetSlotList => [.ulongArray]
  | .cGetSlotInfo => [.slotInfo]
  | .cGetTokenInfo => [.tokenInfo]
  | .cGetMechanismList => [.mechanismTypeArray]
  | .cGetMechanismInfo => [.mechanismInfo]
  | .cWaitForSlotEvent => [.ulong]
  | .cOpenSession => [.ulong]
  | .cGetSessionInfo => [.sessionInfo]
  | .cGetOperationState => [.byteArray]
  | .cCreateObject => [.ulong]
  | .cCopyObject => [.ulong]
  | .cGetObjectSize => [.ulong]
  | .cGetAttributeValue => [.attributeArray]
  | .cFindObjects => [.ulongArray]
  | .cEncrypt => [.byteArray]
  | .cEncryptUpdate => [.byteArray]
  | .cEncryptFinal => [.byteArray]
  | .cDecrypt => [.byteArray]
  | .cDecryptUpdate => [.byteArray]
  | .cDecryptFinal => [.byteArray]
  | .cDigest => [.byteArray]
  | .cDigestFinal => [.byteArray]
  | .cSign => [.byteArray]
  | .cSignFinal => [.byteArray]
  | .cSignRecover => [.byteArray]
  | .cVerifyRecover => [.byteArray]
  | .cDigestEncryptUpdate => [.byteArray]
  | .cDecryptDigestUpdate => [.byteArray]
  | .cSignEncryptUpdate => [.byteArray]
  | .cDecryptVerifyUpdate => [.byteArray]
  | .cGenerateKey => [.ulong]
  | .cGenerateKeyPair => [.ulong, .ulong]
  | .cWrapKey => [.byteArray]
  | .cUnwrapKey => [.ulong]
  | .cDeriveKey => [.ulong]
  | .cGenerateRandom => [.byteArray]
  | _ => []

/-- A stub with all of its macros, on the caller's arguments. -/
structure ClientStub where
  stub : Stub
  outs : List OutMacro
  ins_sig : stub.ins.flatMap (fun p => p.part.sig) = stub.call.request
  outs_kind : outs.map OutMacro.kind = outMacros stub.call

/-- The call of a stub. -/
def ClientStub.toCall (s : ClientStub) : Call where
  call := s.stub.call
  ins := writeIns s.stub.ins
  outs := fun resp => do
    let (ret, _, resp) ← readOuts s.outs ckrOk resp
    pure (ret, resp)

/-- The code a stub returns, given the code its body ended with and the code of `call_done`.
`rpc_C_Initialize` keeps the former, and `rpc_C_Finalize` succeeds whatever happened. -/
def returned (call : CallId) (ret done : CkRv) : CkRv :=
  if call = .cFinalize then ckrOk else if call = .cInitialize then ret else done

/-- A stub on the call state that `call_lookup` gave it, with `pooled` call states in the pool. -/
def runStub (s : ClientStub) (o : Outcomes) (pooled : Nat) (cs : CallState) : Checked CkRv := do
  let (ret, cs) ← makeCall s.toCall o cs
  let (done, _) ← callDone pooled cs ret
  pure (returned s.stub.call ret done)

end MateKeyring.Rpc.Module
