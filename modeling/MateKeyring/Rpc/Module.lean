import MateKeyring.Lib.Prog
import MateKeyring.Rpc.Message

/-!
# The client side of the PKCS#11 protocol

The stubs of `gkm-rpc-module.c`. A stub is given by its call and the `IN_*` macros that write its
arguments (`InMacro`); `buildRequest` is `call_prepare` followed by these macros. The family `rpcC*`
has the stubs under the names of the source, with the parameters of the PKCS#11 functions. Pointers
to results other than buffers are not parameters here: the stubs return an error at once when such
a pointer is null, and nothing of them is sent.
-/

set_option autoImplicit false

namespace MateKeyring.Rpc.Module

open Lib Egg

/-! ## Mechanisms -/

/-- `gkm_rpc_mechanism_has_sane_parameters`: `CKM_RSA_PKCS_OAEP` and `CKM_RSA_PKCS_PSS`. -/
def gkmRpcMechanismHasSaneParameters (type : Nat) : Bool := type == 0x9 || type == 0xd

/-- The mechanisms of `gkm_rpc_mechanism_has_no_parameters`, in the order of the source, from
`CKM_RSA_PKCS_KEY_PAIR_GEN` to `CKM_KEY_WRAP_LYNKS`. -/
def mechanismsWithoutParameters : List Nat :=
  [0x0, 0xa, 0x1, 0x2, 0x3, 0xb, 0x4, 0x5, 0x6, 0x40, 0x41, 0x42, 0x7, 0x8, 0xc, 0x10, 0x2000,
    0x11, 0x12, 0x1020, 0x1040, 0x1041, 0x1042, 0x20, 0x2001, 0x30, 0x2002, 0x1010, 0x350, 0x100,
    0x110, 0x111, 0x330, 0x1080, 0x1081, 0x1083, 0x120, 0x130, 0x131, 0x140, 0x300, 0x310, 0x320,
    0x340, 0x370, 0x374, 0x1000, 0x1030, 0x1060, 0x101, 0x121, 0x132, 0x141, 0x301, 0x311, 0x321,
    0x331, 0x341, 0x103, 0x123, 0x134, 0x143, 0x303, 0x313, 0x333, 0x343, 0x380, 0x381, 0x1008,
    0x1036, 0x1065, 0x200, 0x201, 0x210, 0x211, 0x220, 0x221, 0x250, 0x251, 0x260, 0x261, 0x270,
    0x271, 0x1070, 0x230, 0x231, 0x240, 0x241, 0x400]

/-- `gkm_rpc_mechanism_has_no_parameters`. -/
def gkmRpcMechanismHasNoParameters (mech : Nat) : Bool := mechanismsWithoutParameters.contains mech

/-- `gkm_rpc_mechanism_is_supported`. -/
def gkmRpcMechanismIsSupported (mech : Nat) : Bool :=
  gkmRpcMechanismHasNoParameters mech || gkmRpcMechanismHasSaneParameters mech

/-! ## Writing the request -/

/-- A pointer to bytes: null, or the memory it points to. -/
abbrev CkBytePtr := Option Bytes

/-- A pointer to numbers. -/
abbrev CkUlongArrayPtr := Option (List Nat)

/-- A pointer to attributes. -/
abbrev CkAttributePtr := Option (List CkAttribute)

/-- A step of a stub before its request is sent: stopping is `goto _cleanup` with a code. -/
abbrev Request := Prog Fault GkmRpcMessage CkRv

/-- A write that stops with `CKR_HOST_MEMORY` when it fails. -/
def orHostMemory (w : GkmRpcMessage → Checked (Bool × GkmRpcMessage)) : Request Unit := do
  if ← Prog.run w then pure () else Prog.stop ckrHostMemory

/-- The `num` elements a pointer points to. -/
def elements {α : Type} (arr : Option (List α)) (num : Nat) : Checked (List α) :=
  match arr with
  | none => if num = 0 then .ok [] else .error .nullPointer
  | some mem => if num ≤ mem.length then .ok (mem.take num) else .error .outOfBounds

/-- The `num` elements a pointer points to, as a step of a stub. -/
def elementsOf {α : Type} (arr : Option (List α)) (num : Nat) : Request (List α) :=
  Prog.run fun msg => do
    let xs ← elements arr num
    pure (xs, msg)

/-- `proto_write_mechanism`. -/
def protoWriteMechanism (mech : CkMechanism) : Request Unit := fun msg => do
  let msg ← assertPart msg [.mech]
  let buffer := (eggBufferAddUint32 msg.buffer mech.mechanism).2
  if gkmRpcMechanismHasNoParameters mech.mechanism then do
    let buffer := (eggBufferAddByteArray buffer none).2
    pure (if eggBufferHasError buffer then .error ckrHostMemory else .ok (), { msg with buffer })
  else if gkmRpcMechanismHasSaneParameters mech.mechanism then do
    let (_, buffer) ← addRegion mech.pParameter mech.ulParameterLen buffer
    pure (if eggBufferHasError buffer then .error ckrHostMemory else .ok (), { msg with buffer })
  else pure (.error ckrMechanismInvalid, { msg with buffer })

/-- The `IN_*` macros with their arguments. -/
inductive InMacro where
  | byte (val : UInt8)
  | ulong (val : Nat)
  | string (val : CkBytePtr)
  | byteBuffer (arr : CkBytePtr) (len : Option Nat)
  | byteArray (arr : CkBytePtr) (len : Nat)
  | ulongBuffer (arr : CkUlongArrayPtr) (len : Option Nat)
  | attributeBuffer (arr : CkAttributePtr) (num : Nat)
  | attributeArray (arr : CkAttributePtr) (num : Nat)
  | mechanismType (val : Nat)
  | mechanism (val : Option CkMechanism)

/-- What an `IN_*` macro does. -/
def InMacro.write : InMacro → Request Unit
  | .byte val => orHostMemory (gkmRpcMessageWriteByte · val)
  | .ulong val => orHostMemory (gkmRpcMessageWriteUlong · val)
  | .string val => orHostMemory (gkmRpcMessageWriteZeroString · val)
  | .byteBuffer _ none => Prog.stop ckrArgumentsBad
  | .byteBuffer arr (some len) =>
    orHostMemory (gkmRpcMessageWriteByteBuffer · (if arr.isSome then len else 0))
  | .byteArray arr len =>
    if len ≠ 0 ∧ arr.isNone then Prog.stop ckrArgumentsBad
    else orHostMemory (gkmRpcMessageWriteByteArray · arr len)
  | .ulongBuffer _ none => Prog.stop ckrArgumentsBad
  | .ulongBuffer arr (some len) =>
    orHostMemory (gkmRpcMessageWriteUlongBuffer · (if arr.isSome then len else 0))
  | .attributeBuffer arr num =>
    if num ≠ 0 ∧ arr.isNone then Prog.stop ckrArgumentsBad
    else do
      let attrs ← elementsOf arr num
      orHostMemory (gkmRpcMessageWriteAttributeBuffer · attrs)
  | .attributeArray arr num =>
    if num ≠ 0 ∧ arr.isNone then Prog.stop ckrArgumentsBad
    else do
      let attrs ← elementsOf arr num
      orHostMemory (gkmRpcMessageWriteAttributeArray · attrs)
  | .mechanismType val =>
    if gkmRpcMechanismIsSupported val then orHostMemory (gkmRpcMessageWriteUlong · val)
    else Prog.stop ckrMechanismInvalid
  | .mechanism none => Prog.stop ckrArgumentsBad
  | .mechanism (some mech) => protoWriteMechanism mech

/-- The argument of the PKCS#11 function that a macro is about. -/
def InMacro.arg : InMacro → Arg
  | .byte val => .byte val
  | .ulong val => .ulong val
  | .string val => (val.map Arg.string).getD (.pointer none)
  | .byteBuffer arr len => .byteBuffer arr (len.getD 0)
  | .byteArray arr len => .byteArray arr len
  | .ulongBuffer arr len => .ulongBuffer arr (len.getD 0)
  | .attributeBuffer arr num => .attributeBuffer ((arr.getD []).take num)
  | .attributeArray arr num => .attributeArray ((arr.getD []).take num)
  | .mechanismType val => .ulong val
  | .mechanism val => (val.map Arg.mechanism).getD (.pointer none)

/-- A sequence of `IN_*` macros. -/
def writeIns : List InMacro → Request Unit
  | [] => pure ()
  | p :: ps => do
      p.write
      writeIns ps

/-- A stub: its call, its `IN_*` macros, whether it accepts its arguments at all, and the arguments
the caller gave. -/
structure Stub where
  call : CallId
  ins : List InMacro
  accepts : Bool
  given : List Arg

/-- A stub whose macros are about its parameters. -/
def stub (call : CallId) (ins : List InMacro) : Stub :=
  { call, ins, accepts := true, given := ins.map InMacro.arg }

/-- `call_prepare`: the message is reset, and its header written. -/
def callPrepare (call : CallId) : Request Unit := do
  if ← Prog.run fun msg => gkmRpcMessagePrep (gkmRpcMessageReset msg) call.wire .request then
    pure ()
  else Prog.stop ckrHostMemory

/-- What a stub does up to `call_run`: the request is prepared and filled in, and `call_run` sees
no error in it. -/
def buildRequest (s : Stub) : Request Unit := do
  if s.accepts then do
    callPrepare s.call
    writeIns s.ins
    if ← Prog.read gkmRpcMessageBufferError then Prog.stop ckrHostMemory
    else Prog.run fun msg => do
      cAssert (gkmRpcMessageIsVerified msg = true)
      pure ((), msg)
  else Prog.stop ckrArgumentsBad

/-! ## The stubs -/

def rpcCGetInfo : Stub := stub .cGetInfo []
def rpcCGetSlotList (tokenPresent : UInt8) (slotList : CkUlongArrayPtr)
    (count : Option Nat) : Stub :=
  stub .cGetSlotList [.byte tokenPresent, .ulongBuffer slotList count]
def rpcCGetSlotInfo (id : Nat) : Stub := stub .cGetSlotInfo [.ulong id]
def rpcCGetTokenInfo (id : Nat) : Stub := stub .cGetTokenInfo [.ulong id]
def rpcCGetMechanismList (id : Nat) (mechanismList : CkUlongArrayPtr) (count : Option Nat) : Stub :=
  stub .cGetMechanismList [.ulong id, .ulongBuffer mechanismList count]
def rpcCGetMechanismInfo (id type : Nat) : Stub :=
  stub .cGetMechanismInfo [.ulong id, .mechanismType type]
def rpcCInitToken (id : Nat) (pin : CkBytePtr) (pinLen : Nat) (label : CkBytePtr) : Stub :=
  stub .cInitToken [.ulong id, .byteArray pin pinLen, .string label]
def rpcCWaitForSlotEvent (flags : Nat) (reserved : Option Nat) : Stub :=
  { stub .cWaitForSlotEvent [.ulong flags] with given := [.ulong flags, .pointer reserved] }
def rpcCOpenSession (id flags : Nat) (userData callback : Option Nat) : Stub :=
  { stub .cOpenSession [.ulong id, .ulong flags] with
    given := [.ulong id, .ulong flags, .pointer userData, .pointer callback] }
def rpcCCloseSession (session : Nat) : Stub := stub .cCloseSession [.ulong session]
def rpcCCloseAllSessions (id : Nat) : Stub := stub .cCloseAllSessions [.ulong id]
def rpcCGetFunctionStatus (session : Nat) : Stub := stub .cGetFunctionStatus [.ulong session]
def rpcCCancelFunction (session : Nat) : Stub := stub .cCancelFunction [.ulong session]
def rpcCGetSessionInfo (session : Nat) : Stub := stub .cGetSessionInfo [.ulong session]
def rpcCInitPIN (session : Nat) (pin : CkBytePtr) (pinLen : Nat) : Stub :=
  stub .cInitPIN [.ulong session, .byteArray pin pinLen]
def rpcCSetPIN (session : Nat) (oldPin : CkBytePtr) (oldPinLen : Nat) (newPin : CkBytePtr)
    (newPinLen : Nat) : Stub :=
  { stub .cSetPIN [.ulong session, .byteArray oldPin oldPinLen, .byteArray newPin oldPinLen] with
    given := [.ulong session, .byteArray oldPin oldPinLen, .byteArray newPin newPinLen] }
def rpcCGetOperationState (session : Nat) (operationState : CkBytePtr)
    (operationStateLen : Option Nat) : Stub :=
  stub .cGetOperationState [.ulong session, .byteBuffer operationState operationStateLen]
def rpcCSetOperationState (session : Nat) (operationState : CkBytePtr)
    (operationStateLen encryptionKey authenticationKey : Nat) : Stub :=
  stub .cSetOperationState [.ulong session, .byteArray operationState operationStateLen,
    .ulong encryptionKey, .ulong authenticationKey]
def rpcCLogin (session userType : Nat) (pin : CkBytePtr) (pinLen : Nat) : Stub :=
  stub .cLogin [.ulong session, .ulong userType, .byteArray pin pinLen]
def rpcCLogout (session : Nat) : Stub := stub .cLogout [.ulong session]
def rpcCCreateObject (session : Nat) (template : CkAttributePtr) (count : Nat) : Stub :=
  stub .cCreateObject [.ulong session, .attributeArray template count]
def rpcCCopyObject (session object : Nat) (template : CkAttributePtr) (count : Nat) : Stub :=
  stub .cCopyObject [.ulong session, .ulong object, .attributeArray template count]
def rpcCDestroyObject (session object : Nat) : Stub :=
  stub .cDestroyObject [.ulong session, .ulong object]
def rpcCGetObjectSize (session object : Nat) : Stub :=
  stub .cGetObjectSize [.ulong session, .ulong object]
def rpcCGetAttributeValue (session object : Nat) (template : CkAttributePtr) (count : Nat) : Stub :=
  stub .cGetAttributeValue [.ulong session, .ulong object, .attributeBuffer template count]
def rpcCSetAttributeValue (session object : Nat) (template : CkAttributePtr) (count : Nat) : Stub :=
  stub .cSetAttributeValue [.ulong session, .ulong object, .attributeArray template count]
def rpcCFindObjectsInit (session : Nat) (template : CkAttributePtr) (count : Nat) : Stub :=
  stub .cFindObjectsInit [.ulong session, .attributeArray template count]
def rpcCFindObjects (session : Nat) (objects : CkUlongArrayPtr) (maxCount : Nat) : Stub :=
  stub .cFindObjects [.ulong session, .ulongBuffer objects (some maxCount)]
def rpcCFindObjectsFinal (session : Nat) : Stub := stub .cFindObjectsFinal [.ulong session]
def rpcCEncryptInit (session : Nat) (mechanism : Option CkMechanism) (key : Nat) : Stub :=
  stub .cEncryptInit [.ulong session, .mechanism mechanism, .ulong key]
def rpcCEncrypt (session : Nat) (data : CkBytePtr) (dataLen : Nat) (encryptedData : CkBytePtr)
    (encryptedDataLen : Option Nat) : Stub :=
  stub .cEncrypt [.ulong session, .byteArray data dataLen,
    .byteBuffer encryptedData encryptedDataLen]
def rpcCEncryptUpdate (session : Nat) (part : CkBytePtr) (partLen : Nat)
    (encryptedPart : CkBytePtr) (encryptedPartLen : Option Nat) : Stub :=
  stub .cEncryptUpdate [.ulong session, .byteArray part partLen,
    .byteBuffer encryptedPart encryptedPartLen]
def rpcCEncryptFinal (session : Nat) (lastPart : CkBytePtr) (lastPartLen : Option Nat) : Stub :=
  stub .cEncryptFinal [.ulong session, .byteBuffer lastPart lastPartLen]
def rpcCDecryptInit (session : Nat) (mechanism : Option CkMechanism) (key : Nat) : Stub :=
  stub .cDecryptInit [.ulong session, .mechanism mechanism, .ulong key]
def rpcCDecrypt (session : Nat) (encData : CkBytePtr) (encDataLen : Nat) (data : CkBytePtr)
    (dataLen : Option Nat) : Stub :=
  stub .cDecrypt [.ulong session, .byteArray encData encDataLen, .byteBuffer data dataLen]
def rpcCDecryptUpdate (session : Nat) (encPart : CkBytePtr) (encPartLen : Nat)
    (part : CkBytePtr) (partLen : Option Nat) : Stub :=
  stub .cDecryptUpdate [.ulong session, .byteArray encPart encPartLen, .byteBuffer part partLen]
def rpcCDecryptFinal (session : Nat) (lastPart : CkBytePtr) (lastPartLen : Option Nat) : Stub :=
  stub .cDecryptFinal [.ulong session, .byteBuffer lastPart lastPartLen]
def rpcCDigestInit (session : Nat) (mechanism : Option CkMechanism) : Stub :=
  stub .cDigestInit [.ulong session, .mechanism mechanism]
def rpcCDigest (session : Nat) (data : CkBytePtr) (dataLen : Nat) (digest : CkBytePtr)
    (digestLen : Option Nat) : Stub :=
  stub .cDigest [.ulong session, .byteArray data dataLen, .byteBuffer digest digestLen]
def rpcCDigestUpdate (session : Nat) (part : CkBytePtr) (partLen : Nat) : Stub :=
  stub .cDigestUpdate [.ulong session, .byteArray part partLen]
def rpcCDigestKey (session key : Nat) : Stub := stub .cDigestKey [.ulong session, .ulong key]
def rpcCDigestFinal (session : Nat) (digest : CkBytePtr) (digestLen : Option Nat) : Stub :=
  stub .cDigestFinal [.ulong session, .byteBuffer digest digestLen]
def rpcCSignInit (session : Nat) (mechanism : Option CkMechanism) (key : Nat) : Stub :=
  stub .cSignInit [.ulong session, .mechanism mechanism, .ulong key]
def rpcCSign (session : Nat) (data : CkBytePtr) (dataLen : Nat) (signature : CkBytePtr)
    (signatureLen : Option Nat) : Stub :=
  stub .cSign [.ulong session, .byteArray data dataLen, .byteBuffer signature signatureLen]
def rpcCSignUpdate (session : Nat) (part : CkBytePtr) (partLen : Nat) : Stub :=
  { stub .cSignUpdate [.ulong session, .byteArray part partLen] with accepts := partLen != 0 }
def rpcCSignFinal (session : Nat) (signature : CkBytePtr) (signatureLen : Option Nat) : Stub :=
  stub .cSignFinal [.ulong session, .byteBuffer signature signatureLen]
def rpcCSignRecoverInit (session : Nat) (mechanism : Option CkMechanism) (key : Nat) : Stub :=
  stub .cSignRecoverInit [.ulong session, .mechanism mechanism, .ulong key]
def rpcCSignRecover (session : Nat) (data : CkBytePtr) (dataLen : Nat) (signature : CkBytePtr)
    (signatureLen : Option Nat) : Stub :=
  stub .cSignRecover [.ulong session, .byteArray data dataLen, .byteBuffer signature signatureLen]
def rpcCVerifyInit (session : Nat) (mechanism : Option CkMechanism) (key : Nat) : Stub :=
  stub .cVerifyInit [.ulong session, .mechanism mechanism, .ulong key]
def rpcCVerify (session : Nat) (data : CkBytePtr) (dataLen : Nat) (signature : CkBytePtr)
    (signatureLen : Nat) : Stub :=
  stub .cVerify [.ulong session, .byteArray data dataLen, .byteArray signature signatureLen]
def rpcCVerifyUpdate (session : Nat) (part : CkBytePtr) (partLen : Nat) : Stub :=
  stub .cVerifyUpdate [.ulong session, .byteArray part partLen]
def rpcCVerifyFinal (session : Nat) (signature : CkBytePtr) (signatureLen : Nat) : Stub :=
  stub .cVerifyFinal [.ulong session, .byteArray signature signatureLen]
def rpcCVerifyRecoverInit (session : Nat) (mechanism : Option CkMechanism) (key : Nat) : Stub :=
  stub .cVerifyRecoverInit [.ulong session, .mechanism mechanism, .ulong key]
def rpcCVerifyRecover (session : Nat) (signature : CkBytePtr) (signatureLen : Nat)
    (data : CkBytePtr) (dataLen : Option Nat) : Stub :=
  stub .cVerifyRecover [.ulong session, .byteArray signature signatureLen, .byteBuffer data dataLen]
def rpcCDigestEncryptUpdate (session : Nat) (part : CkBytePtr) (partLen : Nat)
    (encPart : CkBytePtr) (encPartLen : Option Nat) : Stub :=
  stub .cDigestEncryptUpdate [.ulong session, .byteArray part partLen,
    .byteBuffer encPart encPartLen]
def rpcCDecryptDigestUpdate (session : Nat) (encPart : CkBytePtr) (encPartLen : Nat)
    (part : CkBytePtr) (partLen : Option Nat) : Stub :=
  stub .cDecryptDigestUpdate [.ulong session, .byteArray encPart encPartLen,
    .byteBuffer part partLen]
def rpcCSignEncryptUpdate (session : Nat) (part : CkBytePtr) (partLen : Nat)
    (encPart : CkBytePtr) (encPartLen : Option Nat) : Stub :=
  stub .cSignEncryptUpdate [.ulong session, .byteArray part partLen, .byteBuffer encPart encPartLen]
def rpcCDecryptVerifyUpdate (session : Nat) (encPart : CkBytePtr) (encPartLen : Nat)
    (part : CkBytePtr) (partLen : Option Nat) : Stub :=
  stub .cDecryptVerifyUpdate [.ulong session, .byteArray encPart encPartLen,
    .byteBuffer part partLen]
def rpcCGenerateKey (session : Nat) (mechanism : Option CkMechanism) (template : CkAttributePtr)
    (count : Nat) : Stub :=
  stub .cGenerateKey [.ulong session, .mechanism mechanism, .attributeArray template count]
def rpcCGenerateKeyPair (session : Nat) (mechanism : Option CkMechanism)
    (pubTemplate : CkAttributePtr) (pubCount : Nat) (privTemplate : CkAttributePtr)
    (privCount : Nat) : Stub :=
  stub .cGenerateKeyPair [.ulong session, .mechanism mechanism,
    .attributeArray pubTemplate pubCount, .attributeArray privTemplate privCount]
def rpcCWrapKey (session : Nat) (mechanism : Option CkMechanism) (wrappingKey key : Nat)
    (wrappedKey : CkBytePtr) (wrappedKeyLen : Option Nat) : Stub :=
  stub .cWrapKey [.ulong session, .mechanism mechanism, .ulong wrappingKey, .ulong key,
    .byteBuffer wrappedKey wrappedKeyLen]
def rpcCUnwrapKey (session : Nat) (mechanism : Option CkMechanism) (unwrappingKey : Nat)
    (wrappedKey : CkBytePtr) (wrappedKeyLen : Nat) (template : CkAttributePtr)
    (count : Nat) : Stub :=
  stub .cUnwrapKey [.ulong session, .mechanism mechanism, .ulong unwrappingKey,
    .byteArray wrappedKey wrappedKeyLen, .attributeArray template count]
def rpcCDeriveKey (session : Nat) (mechanism : Option CkMechanism) (baseKey : Nat)
    (template : CkAttributePtr) (count : Nat) : Stub :=
  stub .cDeriveKey [.ulong session, .mechanism mechanism, .ulong baseKey,
    .attributeArray template count]
def rpcCSeedRandom (session : Nat) (seed : CkBytePtr) (seedLen : Nat) : Stub :=
  stub .cSeedRandom [.ulong session, .byteArray seed seedLen]
def rpcCGenerateRandom (session : Nat) (randomData : CkBytePtr) (randomLen : Nat) : Stub :=
  stub .cGenerateRandom [.ulong session, .byteBuffer randomData (some randomLen)]

/-- The stubs of the module. -/
inductive IsStub : Stub → Prop where
  | cGetInfo : IsStub rpcCGetInfo
  | cGetSlotList {tokenPresent slotList count} :
      IsStub (rpcCGetSlotList tokenPresent slotList count)
  | cGetSlotInfo {id} : IsStub (rpcCGetSlotInfo id)
  | cGetTokenInfo {id} : IsStub (rpcCGetTokenInfo id)
  | cGetMechanismList {id mechanismList count} :
      IsStub (rpcCGetMechanismList id mechanismList count)
  | cGetMechanismInfo {id type} : IsStub (rpcCGetMechanismInfo id type)
  | cInitToken {id pin pinLen label} : IsStub (rpcCInitToken id pin pinLen label)
  | cWaitForSlotEvent {flags reserved} : IsStub (rpcCWaitForSlotEvent flags reserved)
  | cOpenSession {id flags userData callback} : IsStub (rpcCOpenSession id flags userData callback)
  | cCloseSession {session} : IsStub (rpcCCloseSession session)
  | cCloseAllSessions {id} : IsStub (rpcCCloseAllSessions id)
  | cGetFunctionStatus {session} : IsStub (rpcCGetFunctionStatus session)
  | cCancelFunction {session} : IsStub (rpcCCancelFunction session)
  | cGetSessionInfo {session} : IsStub (rpcCGetSessionInfo session)
  | cInitPIN {session pin pinLen} : IsStub (rpcCInitPIN session pin pinLen)
  | cSetPIN {session oldPin oldPinLen newPin newPinLen} :
      IsStub (rpcCSetPIN session oldPin oldPinLen newPin newPinLen)
  | cGetOperationState {session operationState operationStateLen} :
      IsStub (rpcCGetOperationState session operationState operationStateLen)
  | cSetOperationState {session operationState operationStateLen encryptionKey authenticationKey} :
      IsStub (rpcCSetOperationState session operationState operationStateLen encryptionKey
        authenticationKey)
  | cLogin {session userType pin pinLen} : IsStub (rpcCLogin session userType pin pinLen)
  | cLogout {session} : IsStub (rpcCLogout session)
  | cCreateObject {session template count} : IsStub (rpcCCreateObject session template count)
  | cCopyObject {session object template count} :
      IsStub (rpcCCopyObject session object template count)
  | cDestroyObject {session object} : IsStub (rpcCDestroyObject session object)
  | cGetObjectSize {session object} : IsStub (rpcCGetObjectSize session object)
  | cGetAttributeValue {session object template count} :
      IsStub (rpcCGetAttributeValue session object template count)
  | cSetAttributeValue {session object template count} :
      IsStub (rpcCSetAttributeValue session object template count)
  | cFindObjectsInit {session template count} : IsStub (rpcCFindObjectsInit session template count)
  | cFindObjects {session objects maxCount} : IsStub (rpcCFindObjects session objects maxCount)
  | cFindObjectsFinal {session} : IsStub (rpcCFindObjectsFinal session)
  | cEncryptInit {session mechanism key} : IsStub (rpcCEncryptInit session mechanism key)
  | cEncrypt {session data dataLen encryptedData encryptedDataLen} :
      IsStub (rpcCEncrypt session data dataLen encryptedData encryptedDataLen)
  | cEncryptUpdate {session part partLen encryptedPart encryptedPartLen} :
      IsStub (rpcCEncryptUpdate session part partLen encryptedPart encryptedPartLen)
  | cEncryptFinal {session lastPart lastPartLen} :
      IsStub (rpcCEncryptFinal session lastPart lastPartLen)
  | cDecryptInit {session mechanism key} : IsStub (rpcCDecryptInit session mechanism key)
  | cDecrypt {session encData encDataLen data dataLen} :
      IsStub (rpcCDecrypt session encData encDataLen data dataLen)
  | cDecryptUpdate {session encPart encPartLen part partLen} :
      IsStub (rpcCDecryptUpdate session encPart encPartLen part partLen)
  | cDecryptFinal {session lastPart lastPartLen} :
      IsStub (rpcCDecryptFinal session lastPart lastPartLen)
  | cDigestInit {session mechanism} : IsStub (rpcCDigestInit session mechanism)
  | cDigest {session data dataLen digest digestLen} :
      IsStub (rpcCDigest session data dataLen digest digestLen)
  | cDigestUpdate {session part partLen} : IsStub (rpcCDigestUpdate session part partLen)
  | cDigestKey {session key} : IsStub (rpcCDigestKey session key)
  | cDigestFinal {session digest digestLen} : IsStub (rpcCDigestFinal session digest digestLen)
  | cSignInit {session mechanism key} : IsStub (rpcCSignInit session mechanism key)
  | cSign {session data dataLen signature signatureLen} :
      IsStub (rpcCSign session data dataLen signature signatureLen)
  | cSignUpdate {session part partLen} : IsStub (rpcCSignUpdate session part partLen)
  | cSignFinal {session signature signatureLen} :
      IsStub (rpcCSignFinal session signature signatureLen)
  | cSignRecoverInit {session mechanism key} : IsStub (rpcCSignRecoverInit session mechanism key)
  | cSignRecover {session data dataLen signature signatureLen} :
      IsStub (rpcCSignRecover session data dataLen signature signatureLen)
  | cVerifyInit {session mechanism key} : IsStub (rpcCVerifyInit session mechanism key)
  | cVerify {session data dataLen signature signatureLen} :
      IsStub (rpcCVerify session data dataLen signature signatureLen)
  | cVerifyUpdate {session part partLen} : IsStub (rpcCVerifyUpdate session part partLen)
  | cVerifyFinal {session signature signatureLen} :
      IsStub (rpcCVerifyFinal session signature signatureLen)
  | cVerifyRecoverInit {session mechanism key} :
      IsStub (rpcCVerifyRecoverInit session mechanism key)
  | cVerifyRecover {session signature signatureLen data dataLen} :
      IsStub (rpcCVerifyRecover session signature signatureLen data dataLen)
  | cDigestEncryptUpdate {session part partLen encPart encPartLen} :
      IsStub (rpcCDigestEncryptUpdate session part partLen encPart encPartLen)
  | cDecryptDigestUpdate {session encPart encPartLen part partLen} :
      IsStub (rpcCDecryptDigestUpdate session encPart encPartLen part partLen)
  | cSignEncryptUpdate {session part partLen encPart encPartLen} :
      IsStub (rpcCSignEncryptUpdate session part partLen encPart encPartLen)
  | cDecryptVerifyUpdate {session encPart encPartLen part partLen} :
      IsStub (rpcCDecryptVerifyUpdate session encPart encPartLen part partLen)
  | cGenerateKey {session mechanism template count} :
      IsStub (rpcCGenerateKey session mechanism template count)
  | cGenerateKeyPair {session mechanism pubTemplate pubCount privTemplate privCount} :
      IsStub (rpcCGenerateKeyPair session mechanism pubTemplate pubCount privTemplate privCount)
  | cWrapKey {session mechanism wrappingKey key wrappedKey wrappedKeyLen} :
      IsStub (rpcCWrapKey session mechanism wrappingKey key wrappedKey wrappedKeyLen)
  | cUnwrapKey {session mechanism unwrappingKey wrappedKey wrappedKeyLen template count} :
      IsStub (rpcCUnwrapKey session mechanism unwrappingKey wrappedKey wrappedKeyLen template count)
  | cDeriveKey {session mechanism baseKey template count} :
      IsStub (rpcCDeriveKey session mechanism baseKey template count)
  | cSeedRandom {session seed seedLen} : IsStub (rpcCSeedRandom session seed seedLen)
  | cGenerateRandom {session randomData randomLen} :
      IsStub (rpcCGenerateRandom session randomData randomLen)

end MateKeyring.Rpc.Module
