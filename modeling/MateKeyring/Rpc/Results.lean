import MateKeyring.Rpc.Handlers
import MateKeyring.Rpc.Module

/-!
# The client side of a response

What a stub of `gkm-rpc-module.c` does with the answer: the checks of `call_run`, the reader of
attributes and the last check of `call_done`. `rpcCGetAttributeValueCall` puts the two ends
together for `C_GetAttributeValue`: the stub builds its request, the daemon serves the frame
(`dispatchRound`), and the stub reads the frame that comes back into the caller's template.
-/

set_option autoImplicit false

namespace MateKeyring.Rpc.Module

open Lib Egg Dispatch

/-- A step of a stub on its response: stopping is `goto _cleanup` with a code. -/
abbrev Response := Prog Fault GkmRpcMessage CkRv

/-- The checks of `call_run` on a response that was received. -/
def checkResponse (callId : Nat) : Response Unit := do
  if (← Prog.read GkmRpcMessage.callId) = 0 then do
    match ← Prog.run gkmRpcMessageReadUlong with
    | none => Prog.stop ckrDeviceError
    | some ckerr => if ckerr = ckrOk then Prog.stop ckrDeviceError else Prog.stop ckerr
  else if (← Prog.read GkmRpcMessage.callId) ≠ callId then Prog.stop ckrDeviceError
  else
    Prog.run fun resp => do
      cAssert (gkmRpcMessageBufferError resp = false)
      pure ((), resp)

/-- Read from the response, or stop with `PARSE_ERROR`. -/
def getOrParseError {α : Type}
    (r : Getter α) : Response α := do
  match ← Prog.run fun resp => resp.get r with
  | none => Prog.stop ckrDeviceError
  | some v => pure v

/-- `memcpy (attr->pValue, data, len)`. -/
def copyInto (mem data : Bytes) : Checked Bytes :=
  if data.length ≤ mem.length then .ok (data ++ mem.drop data.length) else .error .outOfBounds

/-- What is stuffed into the caller's attribute for a valid one of length `attrlen`, with the code
that goes with it. -/
def stuff (attr : CkAttribute) (attrlen : Nat) (attrval : Option Bytes) :
    Checked (CkAttribute × CkRv) :=
  match attr.pValue with
  | none => .ok ({ attr with ulValueLen := attrlen }, ckrOk)
  | some mem =>
    if attr.ulValueLen < attrlen then
      .ok ({ attr with ulValueLen := attrlen }, ckrBufferTooSmall)
    else
      match attrval with
      | none => .ok ({ attr with ulValueLen := 0 }, ckrOk)
      | some data => do
          let mem ← copyInto mem data
          pure ({ attr with pValue := some mem, ulValueLen := attrlen }, ckrOk)

/-- One round of the loop of `proto_read_attribute_array`. A read that fails leaves the loop; what
is read after it in the round is not used. -/
def readAttribute (attr : CkAttribute) : Response (CkAttribute × CkRv) := do
  let type ← getOrParseError eggBufferGetUint32
  let validity ← getOrParseError eggBufferGetByte
  if validity = 0 then
    if attr.type ≠ type then Prog.stop ckrDeviceError
    else pure ({ attr with ulValueLen := ckUnavailable }, ckrOk)
  else do
    let value ← getOrParseError eggBufferGetUint32
    let attrval ← getOrParseError eggBufferGetByteArray
    if attrval.isSome ∧ value ≠ (attrval.getD []).length then Prog.stop ckrDeviceError
    else if attr.type ≠ type then Prog.stop ckrDeviceError
    else Prog.run fun resp => do
      let r ← stuff attr value attrval
      pure (r, resp)

/-- The loop of `proto_read_attribute_array`: the code it stops with or the code `ret` of its
rounds, and the template as it is then. -/
def readAttributes : List CkAttribute → CkRv → GkmRpcMessage →
    Checked (Except CkRv CkRv × List CkAttribute × GkmRpcMessage)
  | [], ret, resp => .ok (.ok ret, [], resp)
  | attr :: arr, ret, resp =>
    match readAttribute attr resp with
    | .error f => .error f
    | .ok (.error stop, resp) => .ok (.error stop, attr :: arr, resp)
    | .ok (.ok (attr, verdict), resp) => do
        let ret := if verdict = ckrOk then ret else verdict
        let (r, arr, resp) ← readAttributes arr ret resp
        pure (r, attr :: arr, resp)

/-- `proto_read_attribute_array` once the number of attributes is read: the loop, and the code
that follows the attributes and replaces the one of the loop. -/
def readAttributesAndCode (arr : List CkAttribute) (resp : GkmRpcMessage) :
    Checked (CkRv × List CkAttribute × GkmRpcMessage) := do
  match ← readAttributes arr ckrOk resp with
  | (.error stop, arr, resp) => pure (stop, arr, resp)
  | (.ok _, arr, resp) =>
    match ← gkmRpcMessageReadUlong resp with
    | (none, resp) => pure (ckrDeviceError, arr, resp)
    | (some ret, resp) => pure (ret, arr, resp)

/-- `proto_read_attribute_array`, into a template of `arr.length` attributes. -/
def protoReadAttributeArray (arr : List CkAttribute) (resp : GkmRpcMessage) :
    Checked (CkRv × List CkAttribute × GkmRpcMessage) := do
  cAssert (arr.length ≠ 0)
  let resp ← assertPart resp [.a, .attr]
  match ← resp.get eggBufferGetUint32 with
  | (none, resp) => pure (ckrDeviceError, arr, resp)
  | (some num, resp) =>
    if arr.length ≠ num then pure (ckrDeviceError, arr, resp)
    else readAttributesAndCode arr resp

/-- The check of `call_done` on a code. -/
def callDoneRet (ret : CkRv) (resp : GkmRpcMessage) : Checked CkRv :=
  if ret = ckrOk then
    if gkmRpcMessageBufferError resp then .ok ckrGeneralError
    else do
      cAssert (gkmRpcMessageIsVerified resp = true)
      pure ckrOk
  else .ok ret

/-- The rest of `call_send_recv` once the length of the response is known: the bytes are read into
the response, which is parsed. A message that does not parse is looked at all the same. -/
def receiveBody (resp : GkmRpcMessage) (input : Bytes) (len : Nat) :
    Checked (Except CkRv GkmRpcMessage) := do
  let (ok, buffer) := eggBufferReserve resp.buffer (len + resp.buffer.len)
  if ok = false then pure (.error ckrHostMemory)
  else do
    match ← readAll input len with
    | none => pure (.error ckrDeviceError)
    | some (data, _) =>
      if buffer.allocatedLen < data.length then .error .outOfBounds
      else do
        let (_, resp) ← gkmRpcMessageParse
          { resp with buffer := (eggBufferAddEmpty buffer data).2 } .response
        pure (.ok resp)

/-- A response read from a frame: the length, then that many bytes. -/
def receiveResponse (resp : GkmRpcMessage) (frame : Bytes) :
    Checked (Except CkRv GkmRpcMessage) := do
  match ← readAll frame 4 with
  | none => pure (.error ckrDeviceError)
  | some (buf, input) => receiveBody resp input (eggBufferDecodeUint32 buf)

/-- The stub of `C_GetAttributeValue` once its request is answered by `frame`: the code, and the
caller's template. -/
def readAttributeAnswer (callId : Nat) (resp : GkmRpcMessage) (frame : Bytes)
    (template : List CkAttribute) : Checked (CkRv × List CkAttribute) := do
  match ← receiveResponse (gkmRpcMessageReset resp) frame with
  | .error ret => pure (ret, template)
  | .ok resp =>
    match ← checkResponse callId resp with
    | (.error ret, resp) => do
        let ret ← callDoneRet ret resp
        pure (ret, template)
    | (.ok (), resp) => do
        let (ret, template, resp) ← protoReadAttributeArray template resp
        let ret ← callDoneRet ret resp
        pure (ret, template)

/-- The frame the daemon sends for a request, if it does not drop the connection. -/
def daemonAnswers {σ : Type} (m : LowerModule σ) (st : LoopState σ) (request : Bytes) :
    Checked (Option Bytes) := do
  match ← dispatchRound m
    { st with input := eggBufferEncodeUint32 request.length ++ request } with
  | none => pure none
  | some st => pure st.output.getLast?

/-- `rpc_C_GetAttributeValue` of a template of `template.length` attributes, with the messages
`req` and `resp` of the client and the daemon in state `st`: the code and the caller's template. -/
def rpcCGetAttributeValueCall {σ : Type} (m : LowerModule σ) (st : LoopState σ)
    (req resp : GkmRpcMessage) (session object : Nat) (template : List CkAttribute) :
    Checked (CkRv × List CkAttribute) := do
  match ← buildRequest
    (rpcCGetAttributeValue session object (some template) template.length) req with
  | (.error ret, _) => pure (ret, template)
  | (.ok (), req) =>
    match ← daemonAnswers m st req.buffer.buf with
    | none => pure (ckrDeviceError, template)
    | some frame => readAttributeAnswer req.callId resp frame template

end MateKeyring.Rpc.Module
