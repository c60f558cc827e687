import MateKeyring.Rpc.Dispatch

/-!
# The handlers of the daemon and its loop

`Handler.run` is the body of the macros `BEGIN_CALL`, `PROCESS_CALL` and `END_CALL`; a handler is
given by its call, the `IN_*` macros that read its arguments, what it passes to the module below
when that is not just what it read, and the `OUT_*` macros that write its results. `C_Initialize`
and `C_Finalize` have bodies of their own. `dispatchRound` is one round of `run_dispatch_loop`:
read a frame, parse it, dispatch the call, send the response.
-/

set_option autoImplicit false

namespace MateKeyring.Rpc.Dispatch

open Lib Egg

variable {σ : Type}

/-- A handler of the family made by the call macros. `args` is what `PROCESS_CALL` passes on. -/
structure Handler where
  call : CallId
  ins : List InPart
  args : CallState → List Arg → List Arg
  outs : List OutPart

/-- A handler that passes on what it read. -/
def handler (call : CallId) (ins : List InPart) (outs : List OutPart) : Handler :=
  { call, ins, args := fun _ args => args, outs }

/-- The arguments of `PROCESS_CALL`: everything is read, and all of the signature is used up. -/
def Handler.readArgs (h : Handler) : Proto (List Arg) := do
  let args ← readIns h.ins
  Prog.run fun cs => do
    cAssert (gkmRpcMessageIsVerified cs.req = true)
    pure (args, cs)

/-- The rest of a handler once its arguments are read: the call, and the results. -/
def Handler.process (h : Handler) (m : LowerModule σ) (args : List Arg) (cs : CallState)
    (s : σ) : Checked (CkRv × CallState × σ) := do
  let (ans, s) := m.call h.call (h.args cs args) s
  let (ret, cs) ← writeOuts h.outs args ans ans.rv { cs with applicationId := ans.applicationId }
  match ret with
  | .ok ret => pure (ret, cs, s)
  | .error ret => pure (ret, cs, s)

/-- `BEGIN_CALL` to `END_CALL`. -/
def Handler.run (h : Handler) (m : LowerModule σ) (cs : CallState) (s : σ) :
    Checked (CkRv × CallState × σ) :=
  if m.has h.call = false then .ok (ckrGeneralError, cs, s)
  else
    match h.readArgs cs with
    | .error f => .error f
    | .ok (.error ret, cs) => .ok (ret, cs, s)
    | .ok (.ok args, cs) => h.process m args cs s

/-! ## The handlers -/

/-- `flags |= CKF_G_APPLICATION_SESSION`, and the application of this client instead of the
caller's pointer and callback. -/
def openSessionArgs : List Arg → List Arg
  | [.ulong slotId, .ulong flags] =>
    [.ulong slotId, .ulong (flags ||| 0x40000000), .application, .pointer none]
  | args => args

/-- `slot_id |= cs->application.applicationId`. -/
def closeAllSessionsArgs (cs : CallState) : List Arg → List Arg
  | [.ulong slotId] => [.ulong (slotId ||| cs.applicationId)]
  | args => args

/-- The reserved pointer is null. -/
def waitForSlotEventArgs (args : List Arg) : List Arg := args ++ [.pointer none]

def rpcCGetInfo : Handler := handler .cGetInfo [] [.info]
def rpcCGetSlotList : Handler := handler .cGetSlotList [.byte, .ulongBuffer] [.ulongArray]
def rpcCGetSlotInfo : Handler := handler .cGetSlotInfo [.ulong] [.slotInfo]
def rpcCGetTokenInfo : Handler := handler .cGetTokenInfo [.ulong] [.tokenInfo]
def rpcCGetMechanismList : Handler :=
  handler .cGetMechanismList [.ulong, .ulongBuffer] [.ulongArray]
def rpcCGetMechanismInfo : Handler := handler .cGetMechanismInfo [.ulong, .ulong] [.mechanismInfo]
def rpcCInitToken : Handler := handler .cInitToken [.ulong, .byteArray, .string] []
def rpcCWaitForSlotEvent : Handler :=
  { handler .cWaitForSlotEvent [.ulong] [.ulong] with args := fun _ => waitForSlotEventArgs }
def rpcCOpenSession : Handler :=
  { handler .cOpenSession [.ulong, .ulong] [.ulong] with args := fun _ => openSessionArgs }
def rpcCCloseSession : Handler := handler .cCloseSession [.ulong] []
def rpcCCloseAllSessions : Handler :=
  { handler .cCloseAllSessions [.ulong] [] with args := closeAllSessionsArgs }
def rpcCGetFunctionStatus : Handler := handler .cGetFunctionStatus [.ulong] []
def rpcCCancelFunction : Handler := handler .cCancelFunction [.ulong] []
def rpcCGetSessionInfo : Handler := handler .cGetSessionInfo [.ulong] [.sessionInfo]
def rpcCInitPIN : Handler := handler .cInitPIN [.ulong, .byteArray] []
def rpcCSetPIN : Handler := handler .cSetPIN [.ulong, .byteArray, .byteArray] []
def rpcCGetOperationState : Handler :=
  handler .cGetOperationState [.ulong, .byteBuffer] [.byteArray]
def rpcCSetOperationState : Handler :=
  handler .cSetOperationState [.ulong, .byteArray, .ulong, .ulong] []
def rpcCLogin : Handler := handler .cLogin [.ulong, .ulong, .byteArray] []
def rpcCLogout : Handler := handler .cLogout [.ulong] []
def rpcCCreateObject : Handler := handler .cCreateObject [.ulong, .attributeArray] [.ulong]
def rpcCCopyObject : Handler := handler .cCopyObject [.ulong, .ulong, .attributeArray] [.ulong]
def rpcCDestroyObject : Handler := handler .cDestroyObject [.ulong, .ulong] []
def rpcCGetObjectSize : Handler := handler .cGetObjectSize [.ulong, .ulong] [.ulong]
def rpcCGetAttributeValue : Handler :=
  handler .cGetAttributeValue [.ulong, .ulong, .attributeBuffer] [.attributeArray]
def rpcCSetAttributeValue : Handler :=
  handler .cSetAttributeValue [.ulong, .ulong, .attributeArray] []
def rpcCFindObjectsInit : Handler := handler .cFindObjectsInit [.ulong, .attributeArray] []
def rpcCFindObjects : Handler := handler .cFindObjects [.ulong, .ulongBuffer] [.ulongArray]
def rpcCFindObjectsFinal : Handler := handler .cFindObjectsFinal [.ulong] []
def rpcCEncryptInit : Handler := handler .cEncryptInit [.ulong, .mechanism, .ulong] []
def rpcCEncrypt : Handler := handler .cEncrypt [.ulong, .byteArray, .byteBuffer] [.byteArray]
def rpcCEncryptUpdate : Handler :=
  handler .cEncryptUpdate [.ulong, .byteArray, .byteBuffer] [.byteArray]
def rpcCEncryptFinal : Handler := handler .cEncryptFinal [.ulong, .byteBuffer] [.byteArray]
def rpcCDecryptInit : Handler := handler .cDecryptInit [.ulong, .mechanism, .ulong] []
def rpcCDecrypt : Handler := handler .cDecrypt [.ulong, .byteArray, .byteBuffer] [.byteArray]
def rpcCDecryptUpdate : Handler :=
  handler .cDecryptUpdate [.ulong, .byteArray, .byteBuffer] [.byteArray]
def rpcCDecryptFinal : Handler := handler .cDecryptFinal [.ulong, .byteBuffer] [.byteArray]
def rpcCDigestInit : Handler := handler .cDigestInit [.ulong, .mechanism] []
def rpcCDigest : Handler := handler .cDigest [.ulong, .byteArray, .byteBuffer] [.byteArray]
def rpcCDigestUpdate : Handler := handler .cDigestUpdate [.ulong, .byteArray] []
def rpcCDigestKey : Handler := handler .cDigestKey [.ulong, .ulong] []
def rpcCDigestFinal : Handler := handler .cDigestFinal [.ulong, .byteBuffer] [.byteArray]
def rpcCSignInit : Handler := handler .cSignInit [.ulong, .mechanism, .ulong] []
def rpcCSign : Handler := handler .cSign [.ulong, .byteArray, .byteBuffer] [.byteArray]
def rpcCSignUpdate : Handler := handler .cSignUpdate [.ulong, .byteArray] []
def rpcCSignFinal : Handler := handler .cSignFinal [.ulong, .byteBuffer] [.byteArray]
def rpcCSignRecoverInit : Handler := handler .cSignRecoverInit [.ulong, .mechanism, .ulong] []
def rpcCSignRecover : Handler :=
  handler .cSignRecover [.ulong, .byteArray, .byteBuffer] [.byteArray]
def rpcCVerifyInit : Handler := handler .cVerifyInit [.ulong, .mechanism, .ulong] []
def rpcCVerify : Handler := handler .cVerify [.ulong, .byteArray, .byteArray] []
def rpcCVerifyUpdate : Handler := handler .cVerifyUpdate [.ulong, .byteArray] []
def rpcCVerifyFinal : Handler := handler .cVerifyFinal [.ulong, .byteArray] []
def rpcCVerifyRecoverInit : Handler := handler .cVerifyRecoverInit [.ulong, .mechanism, .ulong] []
def rpcCVerifyRecover : Handler :=
  handler .cVerifyRecover [.ulong, .byteArray, .byteBuffer] [.byteArray]
def rpcCDigestEncryptUpdate : Handler :=
  handler .cDigestEncryptUpdate [.ulong, .byteArray, .byteBuffer] [.byteArray]
def rpcCDecryptDigestUpdate : Handler :=
  handler .cDecryptDigestUpdate [.ulong, .byteArray, .byteBuffer] [.byteArray]
def rpcCSignEncryptUpdate : Handler :=
  handler .cSignEncryptUpdate [.ulong, .byteArray, .byteBuffer] [.byteArray]
def rpcCDecryptVerifyUpdate : Handler :=
  handler .cDecryptVerifyUpdate [.ulong, .byteArray, .byteBuffer] [.byteArray]
def rpcCGenerateKey : Handler :=
  handler .cGenerateKey [.ulong, .mechanism, .attributeArray] [.ulong]
def rpcCGenerateKeyPair : Handler :=
  handler .cGenerateKeyPair [.ulong, .mechanism, .attributeArray, .attributeArray] [.ulong, .ulong2]
def rpcCWrapKey : Handler :=
  handler .cWrapKey [.ulong, .mechanism, .ulong, .ulong, .byteBuffer] [.byteArray]
def rpcCUnwrapKey : Handler :=
  handler .cUnwrapKey [.ulong, .mechanism, .ulong, .byteArray, .attributeArray] [.ulong]
def rpcCDeriveKey : Handler :=
  handler .cDeriveKey [.ulong, .mechanism, .ulong, .attributeArray] [.ulong]
def rpcCSeedRandom : Handler := handler .cSeedRandom [.ulong, .byteArray] []
def rpcCGenerateRandom : Handler := handler .cGenerateRandom [.ulong, .byteBuffer] [.byteArrayGiven]

/-- The first `GKM_RPC_HANDSHAKE_LEN` bytes of `GKM_RPC_HANDSHAKE`; the macro gives the size of a
pointer less one. -/
def gkmRpcHandshake : Bytes := [80, 82, 73, 86, 65, 84, 69]

/-- `rpc_C_Initialize`. -/
def rpcCInitialize (cs : CallState) : Checked (CkRv × CallState) :=
  match protoReadByteArray cs with
  | .error f => .error f
  | .ok (.error ret, cs) => .ok (ret, cs)
  | .ok (.ok arg, cs) => do
      let ret :=
        match arg with
        | .byteArray handshake n =>
          if n ≠ gkmRpcHandshake.length ∨ handshake.getD [] ≠ gkmRpcHandshake then
            ckrGeneralError
          else ckrOk
        | _ => ckrOk
      cAssert (gkmRpcMessageIsVerified cs.req = true)
      pure (ret, cs)

/-- A function of the module below called without looking whether it is there. -/
def LowerModule.invoke (m : LowerModule σ) (c : CallId) (args : List Arg) (s : σ) :
    Checked (Answer × σ) :=
  if m.has c = false then .error .nullPointer else .ok (m.call c args s)

/-- The loop of `rpc_C_Finalize` over the slots. -/
def closeAllSessions (m : LowerModule σ) (applicationId : Nat) :
    List Nat → CkRv → σ → Checked (CkRv × σ)
  | [], ret, s => .ok (ret, s)
  | slot :: slots, ret, s =>
    if ret ≠ ckrOk then .ok (ret, s)
    else do
      let (ans, s) ← m.invoke .cCloseAllSessions [.ulong (slot ||| applicationId)] s
      closeAllSessions m applicationId slots ans.rv s

/-- `rpc_C_Finalize`. The code is not initialised when the client has no application. -/
def rpcCFinalize (m : LowerModule σ) (cs : CallState) (s : σ) : Checked (CkRv × CallState × σ) :=
  if cs.applicationId = 0 then .ok (cs.uninit, cs, s)
  else do
    let (ans, s) ← m.invoke .cGetSlotList [.byte 1, .ulongBuffer none 0] s
    if ans.rv ≠ ckrOk then pure (ans.rv, cs, s)
    else
      match askMalloc cs (ans.len * 8) with
      | (false, cs) => pure (ckrDeviceMemory, cs, s)
      | (true, cs) => do
          let slots := List.replicate ans.len 0
          let (ans, s) ← m.invoke .cGetSlotList [.byte 1, .ulongBuffer (some slots) ans.len] s
          if ans.rv ≠ ckrOk then pure (ans.rv, cs, s)
          else if ans.ulongs.length < ans.len then .error .outOfBounds
          else do
            let (ret, s) ← closeAllSessions m cs.applicationId (ans.ulongs.take ans.len) ans.rv s
            pure (ret, cs, s)

/-- The handlers made by the call macros. -/
def handlerOf : CallId → Option Handler
  | .cInitialize => none
  | .cFinalize => none
  | .cGetInfo => some rpcCGetInfo
  | .cGetSlotList => some rpcCGetSlotList
  | .cGetSlotInfo => some rpcCGetSlotInfo
  | .cGetTokenInfo => some rpcCGetTokenInfo
  | .cGetMechanismList => some rpcCGetMechanismList
  | .cGetMechanismInfo => some rpcCGetMechanismInfo
  | .cInitToken => some rpcCInitToken
  | .cWaitForSlotEvent => some rpcCWaitForSlotEvent
  | .cOpenSession => some rpcCOpenSession
  | .cCloseSession => some rpcCCloseSession
  | .cCloseAllSessions => some rpcCCloseAllSessions
  | .cGetFunctionStatus => some rpcCGetFunctionStatus
  | .cCancelFunction => some rpcCCancelFunction
  | .cGetSessionInfo => some rpcCGetSessionInfo
  | .cInitPIN => some rpcCInitPIN
  | .cSetPIN => some rpcCSetPIN
  | .cGetOperationState => some rpcCGetOperationState
  | .cSetOperationState => some rpcCSetOperationState
  | .cLogin => some rpcCLogin
  | .cLogout => some rpcCLogout
  | .cCreateObject => some rpcCCreateObject
  | .cCopyObject => some rpcCCopyObject
  | .cDestroyObject => some rpcCDestroyObject
  | .cGetObjectSize => some rpcCGetObjectSize
  | .cGetAttributeValue => some rpcCGetAttributeValue
  | .cSetAttributeValue => some rpcCSetAttributeValue
  | .cFindObjectsInit => some rpcCFindObjectsInit
  | .cFindObjects => some rpcCFindObjects
  | .cFindObjectsFinal => some rpcCFindObjectsFinal
  | .cEncryptInit => some rpcCEncryptInit
  | .cEncrypt => some rpcCEncrypt
  | .cEncryptUpdate => some rpcCEncryptUpdate
  | .cEncryptFinal => some rpcCEncryptFinal
  | .cDecryptInit => some rpcCDecryptInit
  | .cDecrypt => some rpcCDecrypt
  | .cDecryptUpdate => some rpcCDecryptUpdate
  | .cDecryptFinal => some rpcCDecryptFinal
  | .cDigestInit => some rpcCDigestInit
  | .cDigest => some rpcCDigest
  | .cDigestUpdate => some rpcCDigestUpdate
  | .cDigestKey => some rpcCDigestKey
  | .cDigestFinal => some rpcCDigestFinal
  | .cSignInit => some rpcCSignInit
  | .cSign => some rpcCSign
  | .cSignUpdate => some rpcCSignUpdate
  | .cSignFinal => some rpcCSignFinal
  | .cSignRecoverInit => some rpcCSignRecoverInit
  | .cSignRecover => some rpcCSignRecover
  | .cVerifyInit => some rpcCVerifyInit
  | .cVerify => some rpcCVerify
  | .cVerifyUpdate => some rpcCVerifyUpdate
  | .cVerifyFinal => some rpcCVerifyFinal
  | .cVerifyRecoverInit => some rpcCVerifyRecoverInit
  | .cVerifyRecover => some rpcCVerifyRecover
  | .cDigestEncryptUpdate => some rpcCDigestEncryptUpdate
  | .cDecryptDigestUpdate => some rpcCDecryptDigestUpdate
  | .cSignEncryptUpdate => some rpcCSignEncryptUpdate
  | .cDecryptVerifyUpdate => some rpcCDecryptVerifyUpdate
  | .cGenerateKey => some rpcCGenerateKey
  | .cGenerateKeyPair => some rpcCGenerateKeyPair
  | .cWrapKey => some rpcCWrapKey
  | .cUnwrapKey => some rpcCUnwrapKey
  | .cDeriveKey => some rpcCDeriveKey
  | .cSeedRandom => some rpcCSeedRandom
  | .cGenerateRandom => some rpcCGenerateRandom

/-- The `switch` of `dispatch_call`. -/
def rpcCall (m : LowerModule σ) (c : CallId) (cs : CallState) (s : σ) :
    Checked (CkRv × CallState × σ) :=
  match c with
  | .cInitialize => do
      let (ret, cs) ← rpcCInitialize cs
      pure (ret, cs, s)
  | .cFinalize => rpcCFinalize m cs s
  | c =>
    match handlerOf c with
    | none => .error .assertion
    | some h => h.run m cs s

/-- The checks `dispatch_call` makes on the code of a handler. -/
def checkedRet (ret : CkRv) (cs : CallState) : CkRv :=
  if ret ≠ ckrOk then ret
  else if gkmRpcMessageBufferError cs.resp then prepError
  else if gkmRpcMessageBufferError cs.req then parseError
  else ckrOk

/-- An error response: its preparation, and the code in 32 bits. -/
def errorResponse (resp : GkmRpcMessage) (ret : CkRv) : Checked (Bool × GkmRpcMessage) := do
  let (ok, resp) ← gkmRpcMessagePrep resp 0 .response
  if ok = false then pure (false, resp)
  else do
    let (ok, resp) ← gkmRpcMessageWriteUlong resp (ret % 2 ^ 32)
    pure (ok && !gkmRpcMessageBufferError resp, resp)

/-- `dispatch_call`. -/
def dispatchCall (m : LowerModule σ) (cs : CallState) (s : σ) : Checked (Bool × CallState × σ) := do
  cAssert (0 < cs.req.callId)
  cAssert (cs.req.callId ≤ CallId.all.length)
  let (ok, resp) ← gkmRpcMessagePrep cs.resp cs.req.callId .response
  let cs := { cs with resp }
  if ok = false then pure (false, cs, s)
  else
    match CallId.ofWire cs.req.callId with
    | none => .error .assertion
    | some c => do
        let (ret, cs, s) ← rpcCall m c cs s
        let ret := checkedRet ret cs
        if ret = ckrOk then do
          cAssert (gkmRpcMessageIsVerified cs.resp = true)
          cAssert (cs.resp.callType = some .response)
          cAssert (cs.resp.callId = cs.req.callId)
          cAssert (cs.resp.signature = some c.response)
          pure (true, cs, s)
        else do
          let (ok, resp) ← errorResponse cs.resp ret
          pure (ok, { cs with resp }, s)

/-! ## The loop -/

/-- The loop of a connection: the call state, the bytes the client still sends before it closes
the connection, the frames sent so far, the module below, and whether the next frame can be sent. -/
structure LoopState (σ : Type) where
  cs : CallState
  input : Bytes
  output : List Bytes
  lower : σ
  canSend : Nat → Bool

/-- `read_all`: the next `len` bytes, unless the connection ends before. -/
def readAll (input : Bytes) (len : Nat) : Checked (Option (Bytes × Bytes)) := do
  cAssert (0 < len)
  if len ≤ input.length then pure (some (input.take len, input.drop len)) else pure none

/-- The frame of a message, as the two calls of `write_all` send it. -/
def sendFrame (msg : GkmRpcMessage) : Checked Bytes := do
  cAssert (0 < msg.buffer.len)
  pure (eggBufferEncodeUint32 msg.buffer.len ++ msg.buffer.buf)

/-- Read a frame of `len` bytes into the request and parse it. -/
def receiveRequest (req : GkmRpcMessage) (input : Bytes) (len : Nat) :
    Checked (Option (GkmRpcMessage × Bytes)) := do
  let (_, buffer) := eggBufferReserve req.buffer (req.buffer.len + len)
  if eggBufferHasError buffer then pure none
  else do
    match ← readAll input len with
    | none => pure none
    | some (data, input) =>
      -- the bytes are read into the memory behind the buffer
      if buffer.allocatedLen < data.length then .error .outOfBounds
      else do
        let (_, buffer) := eggBufferAddEmpty buffer data
        let (ok, req) ← gkmRpcMessageParse { req with buffer } .request
        if ok then pure (some (req, input)) else pure none

/-- The rest of a round once the length of the frame is known: receive the request, dispatch it and
send the response. -/
def serveFrame (m : LowerModule σ) (st : LoopState σ) (input : Bytes) (len : Nat) :
    Checked (Option (LoopState σ)) :=
  if 0x0FFFFFFF ≤ len then .ok none
  else do
    let cs := callReset st.cs
    match ← receiveRequest cs.req input len with
    | none => pure none
    | some (req, input) => do
        let (ok, cs, lower) ← dispatchCall m { cs with req } st.lower
        if ok = false then pure none
        else do
          let frame ← sendFrame cs.resp
          if st.canSend st.output.length then
            pure (some { st with cs, input, output := st.output ++ [frame], lower })
          else pure none

/-- The loop of a new connection: `call_init`, with the memory, the bytes and the module below that
it will meet. -/
def startLoop (allocator : EggBufferAllocator) (malloc : Nat → Nat → Bool) (uninit : CkRv)
    (input : Bytes) (lower : σ) (canSend : Nat → Bool) : LoopState σ :=
  { cs := { req := gkmRpcMessageNew allocator, resp := gkmRpcMessageNew allocator,
            applicationId := 0, malloc, mallocs := 0, uninit }
    input, output := [], lower, canSend }

/-- One round of `run_dispatch_loop`. -/
def dispatchRound (m : LowerModule σ) : Round Fault (LoopState σ) := fun st => do
  match ← readAll st.input 4 with
  | none => pure none
  | some (buf, input) => serveFrame m st input (eggBufferDecodeUint32 buf)

end MateKeyring.Rpc.Dispatch
