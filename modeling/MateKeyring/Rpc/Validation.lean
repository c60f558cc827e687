import MateKeyring.Rpc.Decoding

/-!
# What a stub makes of a response

`stub_validates_iff` is about a stub whose request was answered with some bytes (`Answered`), and
says for which bytes it keeps its word (`Validated`): no assertion of it is false, and `CKR_OK`
means that the response was accepted and its arguments read. `call_send_recv` leaves its code at
`CKR_OK` when the response does not parse, and what stops the stub then is the identifier of the
call, which a rejected response may carry. So the bytes have to be `Sound`.
-/

set_option autoImplicit false

namespace MateKeyring.Rpc.Module

open Lib Egg Dispatch List

variable {msg : GkmRpcMessage}

/-! ## The dialog -/

/-- The response message with the bytes that were read. -/
def received (resp : GkmRpcMessage) (body : Bytes) : GkmRpcMessage :=
  { gkmRpcMessageReset resp with
    buffer := (eggBufferAddEmpty
      (eggBufferReserve (eggBufferReset resp.buffer) body.length).2 body).2 }

/-- The request of the stub is built and sent, and the daemon answers with `body`, for which there
is memory in the response message `resp`. -/
structure Answered (s : ClientStub) (o : Outcomes) (cs : CallState) (resp : GkmRpcMessage)
    (body : Bytes) : Prop where
  ready : cs.callStatus = .ready
  connected : cs.socket.isSome = true
  request : ∃ new req, messageOrNew cs.req o.newReq = some new ∧
    buildRequest s.stub new = .ok (.ok (), req) ∧
    (writeLoop o.writeLen (eggBufferEncodeUint32 req.buffer.len)).2 = .complete ∧
    (writeLoop o.writeBody req.buffer.buf).2 = .complete
  response : messageOrNew cs.resp o.newResp = some resp
  length : body.length < 2 ^ 32
  frame : readLoop o.readLen 4 = (eggBufferEncodeUint32 body.length, .complete)
  content : readLoop o.readBody body.length = (body, .complete)
  room : (eggBufferReserve (eggBufferReset resp.buffer) body.length).1 = true
  added : (eggBufferAddEmpty (eggBufferReserve (eggBufferReset resp.buffer) body.length).2 body).1 =
    true

variable {s : ClientStub} {o : Outcomes} {cs : CallState} {resp : GkmRpcMessage}
  {body : Bytes}

theorem callWrite_complete {data : Bytes} {es : List WriteEvent} {cs : CallState}
    (hs : cs.socket.isSome = true) (hne : data ≠ []) (h : (writeLoop es data).2 = .complete) :
    ∃ sock, callWrite data es cs = .ok (.ok (), { cs with socket := some sock }) := by
  obtain ⟨sock, hsock⟩ := Option.isSome_iff_exists.1 hs
  unfold callWrite
  rw [cAssert_of_true (length_pos_iff.2 hne), ok_bind, hsock]
  rcases hloop : writeLoop es data with ⟨out, e⟩
  rw [hloop] at h
  obtain rfl : e = .complete := h
  exact ⟨_, rfl⟩

theorem callRead_complete {len : Nat} {es : List ReadEvent} {cs : CallState} {out : Bytes}
    (hs : cs.socket.isSome = true) (hpos : 0 < len) (h : readLoop es len = (out, .complete)) :
    ∃ sock, callRead len es cs = .ok (.ok out, { cs with socket := some sock }) := by
  obtain ⟨sock, hsock⟩ := Option.isSome_iff_exists.1 hs
  unfold callRead
  rw [cAssert_of_true hpos, ok_bind, hsock]
  simp only [h]
  exact ⟨_, rfl⟩

theorem received_buf (h : Answered s o cs resp body) : (received resp body).buffer.buf = body ∧
    (received resp body).buffer.failures = 0 := by
  obtain ⟨hbuf, hf⟩ := (eggBufferAppend_writes
    (eggBufferReserve (eggBufferReset resp.buffer) body.length).2 body).ok h.added
  rcases eggBufferReserve_cases (eggBufferReset resp.buffer) body.length with
    ⟨b', hres, hb, hfail, -⟩ | ⟨b', hres, -⟩
  · rw [hres] at hbuf hf
    refine ⟨?_, ?_⟩
    · show (eggBufferAppend _ body).2.buf = body
      rw [hres, hbuf, hb]
      rfl
    · show (eggBufferAppend _ body).2.failures = 0
      rw [hres, hf, hfail]
      rfl
  · have hroom := h.room
    rw [hres] at hroom
    simp at hroom

/-- The reading half of the dialog, for a body that is not empty. -/
theorem recvBody_answered (h : Answered s o cs resp body) (hne : body ≠ []) {cs₁ : CallState}
    (hs : cs₁.socket.isSome = true) : ∃ sock,
      recvBody o (gkmRpcMessageReset resp) body.length cs₁ = (do
        let (_, msg) ← gkmRpcMessageParse (received resp body) .response
        pure (ckrOk, msg, { cs₁ with socket := some sock })) := by
  obtain ⟨sock, hread⟩ := callRead_complete hs (length_pos_iff.2 hne) h.content
  have hempty : body.length + (gkmRpcMessageReset resp).buffer.len = body.length := Nat.add_zero _
  rcases eggBufferReserve_cases (eggBufferReset resp.buffer) body.length with
    ⟨b', hres, -, -, hle, -⟩ | ⟨b', hres, -⟩
  · refine ⟨sock, ?_⟩
    have hres' : eggBufferReserve (gkmRpcMessageReset resp).buffer body.length = (true, b') := hres
    have hrec : received resp body =
        { gkmRpcMessageReset resp with buffer := (eggBufferAddEmpty b' body).2 } := by
      rw [received, hres]
    unfold recvBody
    rw [hempty, hres']
    dsimp only
    rw [if_neg (by simp), hread, ok_bind, hrec]
    dsimp only
    rw [if_neg (by omega)]
  · have hroom := h.room
    rw [hres] at hroom
    simp at hroom

theorem sendRecv_answered (h : Answered s o cs resp body) (hne : body ≠ []) {req : GkmRpcMessage}
    (hreq : req.buffer.buf ≠ [])
    (hlen : (writeLoop o.writeLen (eggBufferEncodeUint32 req.buffer.len)).2 = .complete)
    (hbody : (writeLoop o.writeBody req.buffer.buf).2 = .complete) {cs₁ : CallState}
    (hs : cs₁.socket.isSome = true) : ∃ sock,
      sendRecv o req (gkmRpcMessageReset resp) cs₁ = (do
        let (_, msg) ← gkmRpcMessageParse (received resp body) .response
        pure (ckrOk, msg, { cs₁ with socket := some sock })) := by
  obtain ⟨sock₁, h₁⟩ := callWrite_complete hs (by simp [eggBufferEncodeUint32]) hlen
  obtain ⟨sock₂, h₂⟩ := @callWrite_complete _ _ { cs₁ with socket := some sock₁ } rfl hreq hbody
  obtain ⟨sock₃, h₃⟩ := @callRead_complete _ _ { cs₁ with socket := some sock₂ } _ rfl
    (by decide : 0 < 4) h.frame
  obtain ⟨sock₄, h₄⟩ := @recvBody_answered _ _ _ _ _ h hne { cs₁ with socket := some sock₃ } rfl
  refine ⟨sock₄, ?_⟩
  unfold sendRecv
  rw [h₁, ok_bind]
  dsimp only
  rw [h₂, ok_bind]
  dsimp only
  rw [h₃, ok_bind]
  dsimp only
  rw [decode_encodeUint32 h.length, h₄]

theorem sendRecv_empty (h : Answered s o cs resp []) {req : GkmRpcMessage}
    (hreq : req.buffer.buf ≠ [])
    (hlen : (writeLoop o.writeLen (eggBufferEncodeUint32 req.buffer.len)).2 = .complete)
    (hbody : (writeLoop o.writeBody req.buffer.buf).2 = .complete) {cs₁ : CallState}
    (hs : cs₁.socket.isSome = true) :
    sendRecv o req (gkmRpcMessageReset resp) cs₁ = .error .assertion := by
  obtain ⟨sock₁, h₁⟩ := callWrite_complete hs (by simp [eggBufferEncodeUint32]) hlen
  obtain ⟨sock₂, h₂⟩ := @callWrite_complete _ _ { cs₁ with socket := some sock₁ } rfl hreq hbody
  obtain ⟨sock₃, h₃⟩ := @callRead_complete _ _ { cs₁ with socket := some sock₂ } _ rfl
    (by decide : 0 < 4) h.frame
  unfold sendRecv
  rw [h₁, ok_bind]
  dsimp only
  rw [h₂, ok_bind]
  dsimp only
  rw [h₃, ok_bind]
  dsimp only
  rw [decode_encodeUint32 h.length]
  have hroom : (eggBufferReserve (gkmRpcMessageReset resp).buffer
      (([] : Bytes).length + (gkmRpcMessageReset resp).buffer.len)).1 = true := h.room
  rcases hres : eggBufferReserve (gkmRpcMessageReset resp).buffer
      (([] : Bytes).length + (gkmRpcMessageReset resp).buffer.len) with ⟨ok, b'⟩
  rw [hres] at hroom
  obtain rfl : ok = true := hroom
  unfold recvBody
  rw [hres]
  rfl

/-- The request of a stub that was answered. -/
structure Requested (s : ClientStub) (o : Outcomes) (cs : CallState) (req : GkmRpcMessage) :
    Prop where
  made : makeCall s.toCall o cs =
    processCall s.toCall o req { cs with req := some req, callStatus := .prep }
  callId : req.callId = s.stub.call.wire
  noError : gkmRpcMessageBufferError req = false
  verified : gkmRpcMessageIsVerified req = true
  nonempty : req.buffer.buf ≠ []
  sentLength : (writeLoop o.writeLen (eggBufferEncodeUint32 req.buffer.len)).2 = .complete
  sent : (writeLoop o.writeBody req.buffer.buf).2 = .complete

theorem exists_requested (h : Answered s o cs resp body) : ∃ req, Requested s o cs req := by
  obtain ⟨new, req, hnew, hbuild, hlen, hbody⟩ := h.request
  obtain ⟨prepared, hprep, hins, herr, hver⟩ := buildRequest_steps hbuild
  obtain ⟨hid, hexp, hbuf⟩ := callPrepare_eq_ok hprep
  have hsig : Expects prepared (s.stub.ins.flatMap (fun p => p.part.sig) ++ []) := by
    rwa [s.ins_sig, append_nil]
  obtain ⟨⟨buffer, hreq, hbuf', -⟩, -⟩ := writeIns_sent hsig hins
  refine ⟨req, ?_, ?_, herr, hver, ?_, hlen, hbody⟩
  · have hprepared : prepareCall s.toCall.call o cs =
        .ok (.ok (), { cs with req := some prepared, callStatus := .prep }) := by
      unfold prepareCall
      rw [cAssert_of_true h.ready, ok_bind, hnew]
      dsimp only
      rw [show callPrepare s.toCall.call new = .ok (.ok (), prepared) from hprep]
      rfl
    have hins' : s.toCall.ins prepared = .ok (.ok (), req) := hins
    unfold makeCall
    rw [hprepared, ok_bind]
    dsimp only
    rw [hins', ok_bind]
  · rw [hreq]
    exact hid
  · have hheader : s.stub.call.header .request ≠ [] := by
      intro hnil
      have hlen := congrArg List.length hnil
      simp [CallId.header] at hlen
    rw [hreq]
    show buffer.buf ≠ []
    rw [hbuf', hbuf]
    simp [hheader]

/-- The call state with the answer. -/
def answeredState (req msg : GkmRpcMessage) (sock : Socket) : CallState :=
  { socket := some sock, req := some req, resp := some msg, callStatus := .parse }

theorem callRun_answered (h : Answered s o cs resp body) (hne : body ≠ []) {req : GkmRpcMessage}
    (hreq : Requested s o cs req) : ∃ sock,
      callRun o req { cs with req := some req, callStatus := .prep } = (do
        let (_, msg) ← gkmRpcMessageParse (received resp body) .response
        checkAnswer req (answeredState req msg sock)) := by
  obtain ⟨sock, hsend⟩ := @sendRecv_answered _ _ _ _ _ h hne _ hreq.nonempty hreq.sentLength
    hreq.sent { cs with req := none, resp := none, callStatus := .transit } h.connected
  refine ⟨sock, ?_⟩
  unfold callRun callSendRecv
  rw [cAssert_of_true rfl, ok_bind, cAssert_of_true h.connected, ok_bind, hreq.noError,
    if_neg (by simp), cAssert_of_true hreq.verified, ok_bind]
  dsimp only
  rw [h.response]
  dsimp only
  rw [hsend]
  cases gkmRpcMessageParse (received resp body) .response with
  | error f => rfl
  | ok r => rfl

/-- What a stub does once the response was parsed. -/
def afterParse (s : ClientStub) (resp : GkmRpcMessage) : Checked CkRv := do
  match ← checkResponse s.stub.call.wire resp with
  | (.error ret, resp) => do
      let done ← callDoneRet ret resp
      pure (returned s.stub.call ret done)
  | (.ok (), resp) => do
      let (ret, _, resp) ← readOuts s.outs ckrOk resp
      let done ← callDoneRet ret resp
      pure (returned s.stub.call ret done)

theorem callDone_answered (pooled : Nat) (req msg : GkmRpcMessage) (sock : Socket) (ret : CkRv) :
    ∃ kept : CkRv → Option CallState, callDone pooled (answeredState req msg sock) ret = (do
      let done ← callDoneRet ret msg
      pure (done, kept done)) := by
  refine ⟨fun done =>
    if done ≠ ckrDeviceError ∧ done ≠ ckrDeviceRemoved ∧ pooled < maxCallStatePool then
      some { answeredState req msg sock with callStatus := .ready }
    else none, ?_⟩
  unfold callDone
  rw [cAssert_of_true (by simp [answeredState]), ok_bind]
  show (callDoneRet ret msg >>= _) = _
  cases callDoneRet ret msg with
  | error f => rfl
  | ok done =>
    simp only [ok_bind]
    by_cases hkeep : done ≠ ckrDeviceError ∧ done ≠ ckrDeviceRemoved ∧ pooled < maxCallStatePool
    · rw [if_pos hkeep, if_pos ⟨hkeep.1, hkeep.2.1, rfl, hkeep.2.2⟩]
    · rw [if_neg hkeep, if_neg fun hk => hkeep ⟨hk.1, hk.2.1, hk.2.2.2⟩]

/-- The end of a stub whose body ended with the code `ret`. -/
theorem end_answered (call : CallId) (pooled : Nat) (req msg : GkmRpcMessage) (sock : Socket)
    (ret : CkRv) :
    (do
      let r ← callDone pooled (answeredState req msg sock) ret
      pure (returned call ret r.1) : Checked CkRv) = (do
      let done ← callDoneRet ret msg
      pure (returned call ret done)) := by
  obtain ⟨kept, hdone⟩ := callDone_answered pooled req msg sock ret
  rw [hdone]
  cases callDoneRet ret msg with
  | error f => rfl
  | ok done => rfl

theorem code_of_stop {ret ret' : CkRv} {msg msg' : GkmRpcMessage}
    (h : (Prog.stop ret : Response Unit) msg = .ok (.error ret', msg')) : ret = ret' := by
  simp only [Prog.stop_apply, Except.ok.injEq, Prod.mk.injEq, Except.error.injEq] at h
  exact h.1

/-- `call_run` ends with an error code or goes on. -/
theorem checkResponse_ne {callId : Nat} {msg msg' : GkmRpcMessage} {ret : CkRv}
    (h : checkResponse callId msg = .ok (.error ret, msg')) : ret ≠ ckrOk := by
  unfold checkResponse at h
  rw [Prog.bind_of_ok (Prog.read_apply _ _)] at h
  split at h
  · -- an error response
    rcases hr : gkmRpcMessageReadUlong msg with f | ⟨v, msg₁⟩
    · have hrun : Prog.run (ρ := CkRv) gkmRpcMessageReadUlong msg = .error f := by
        simp [Prog.run, hr]
      have hbind : ∀ k : Option Nat → Response Unit,
          (Prog.run gkmRpcMessageReadUlong >>= k) msg = .error f := by
        intro k
        show Prog.andThen _ k msg = _
        simp [Prog.andThen, hrun]
      rw [hbind] at h
      simp at h
    · rw [Prog.bind_of_ok (Prog.run_apply hr)] at h
      cases v with
      | none =>
        rw [← code_of_stop h]
        decide
      | some ckerr =>
        dsimp only at h
        split at h
        · rw [← code_of_stop h]
          decide
        · rename_i hne
          rwa [← code_of_stop h]
  · rw [Prog.bind_of_ok (Prog.read_apply _ _)] at h
    split at h
    · rw [← code_of_stop h]
      decide
    · unfold Prog.run at h
      split at h
      · simp at h
      · simp at h

/-- The whole of a stub that was answered with a body that is not empty. -/
theorem runStub_answered (h : Answered s o cs resp body) (hne : body ≠ []) (pooled : Nat) :
    runStub s o pooled cs = (do
      let (_, msg) ← gkmRpcMessageParse (received resp body) .response
      afterParse s msg) := by
  obtain ⟨req, hreq⟩ := exists_requested h
  obtain ⟨sock, hrun⟩ := callRun_answered h hne hreq
  have hend := end_answered s.stub.call pooled req
  unfold runStub
  rw [hreq.made, processCall, hrun]
  cases gkmRpcMessageParse (received resp body) .response with
  | error f => rfl
  | ok r =>
    obtain ⟨ok, msg⟩ := r
    simp only [ok_bind]
    unfold checkAnswer afterParse
    rw [hreq.callId]
    cases hcheck : checkResponse s.stub.call.wire msg with
    | error f => simp only [answeredState, hcheck]; rfl
    | ok r =>
      obtain ⟨r, msg₁⟩ := r
      cases r with
      | error ret =>
        have hret := checkResponse_ne hcheck
        have h' := hend msg₁ sock ret
        simp only [answeredState, hcheck, ok_bind, pure_eq_ok, if_pos hret] at h' ⊢
        exact h'
      | ok u =>
        simp only [answeredState, hcheck, ok_bind, pure_eq_ok, ne_eq, not_true_eq_false,
          if_false, ClientStub.toCall]
        cases hr : readOuts s.outs ckrOk msg₁ with
        | error f => rfl
        | ok r' =>
          obtain ⟨ret, ms, msg₂⟩ := r'
          have h' := hend msg₂ sock ret
          simp only [answeredState, ok_bind, pure_eq_ok] at h' ⊢
          exact h'

theorem runStub_empty (h : Answered s o cs resp []) (pooled : Nat) :
    runStub s o pooled cs = .error .assertion := by
  obtain ⟨req, hreq⟩ := exists_requested h
  have hsend := @sendRecv_empty _ _ _ _ h _ hreq.nonempty hreq.sentLength hreq.sent
    { cs with req := none, resp := none, callStatus := .transit } h.connected
  have hrun : callRun o req { cs with req := some req, callStatus := .prep } =
      .error .assertion := by
    unfold callRun callSendRecv
    rw [cAssert_of_true rfl, ok_bind, cAssert_of_true h.connected, ok_bind, hreq.noError,
      if_neg (by simp), cAssert_of_true hreq.verified, ok_bind]
    dsimp only
    rw [h.response]
    dsimp only
    rw [hsend]
    rfl
  unfold runStub
  rw [hreq.made, processCall, hrun]
  rfl

/-! ## The parse -/

/-- What the parse of a response with the bytes `body` leaves, with its verdict: there is no call at
the front of the bytes, or no signature behind the call, or a signature that may be another one. -/
inductive Parsed (body : Bytes) : Bool → GkmRpcMessage → Prop
  | noCall {ok : Bool} {msg : GkmRpcMessage}
      (hid : ∀ (c : CallId) (off : Nat), uint32At body 0 ≠ some (c.wire, off))
      (hcall : msg.callId = 0) (hsig : msg.signature = none) : Parsed body ok msg
  | noSignature {c : CallId} {off : Nat} {msg : GkmRpcMessage}
      (hid : uint32At body 0 = some (c.wire, off)) (hval : byteArrayAt body off = none)
      (hcall : msg.callId = c.wire) (hfail : msg.buffer.failures ≠ 0) : Parsed body false msg
  | signature {c : CallId} {off off' : Nat} {val : Option Bytes} {msg : GkmRpcMessage}
      (hid : uint32At body 0 = some (c.wire, off)) (hval : byteArrayAt body off = some (val, off'))
      (hcall : msg.callId = c.wire) (hexp : Expects msg c.response)
      (hbuf : msg.buffer.buf = body) (hfail : msg.buffer.failures = 0)
      (hparsed : msg.parsed = off') : Parsed body (val.getD [] == c.response.bytes) msg

theorem gkmRpcMessageParse_response (hbuf : msg.buffer.buf = body) (hfail : msg.buffer.failures = 0)
    (hcall : msg.callId = 0) (hsig : msg.signature = none) :
    ∃ ok msg', gkmRpcMessageParse msg .response = .ok (ok, msg') ∧ Parsed body ok msg' := by
  unfold gkmRpcMessageParse
  rw [eggBufferGetUint32_eq, hbuf]
  cases hid : uint32At body 0 with
  | none =>
    refine ⟨_, _, rfl, .noCall ?_ hcall hsig⟩
    intro c off heq
    rw [hid] at heq
    simp at heq
  | some v =>
    simp only [readResult_some, ok_bind]
    by_cases h0 : v.1 = 0
    · rw [if_pos h0]
      refine ⟨_, _, rfl, .noCall ?_ hcall rfl⟩
      intro c off heq
      have hwire : v = (c.wire, off) := Option.some.inj (hid.symm.trans heq)
      exact absurd h0 (by rw [hwire]; exact Nat.pos_iff_ne_zero.1 c.wire_pos)
    · rw [if_neg h0]
      cases hc : CallId.ofWire v.1 with
      | none =>
        refine ⟨_, _, rfl, .noCall ?_ hcall rfl⟩
        intro c off heq
        have hwire : v = (c.wire, off) := Option.some.inj (hid.symm.trans heq)
        rw [hwire, CallId.ofWire_wire] at hc
        simp at hc
      | some c =>
        have hid' : uint32At body 0 = some (c.wire, v.2) := by
          rw [hid, CallId.wire_of_ofWire hc]
        simp only [eggBufferGetByteArray_eq, hbuf]
        cases hval : byteArrayAt body v.2 with
        | none =>
          refine ⟨_, _, rfl, .noSignature hid' hval (CallId.wire_of_ofWire hc).symm ?_⟩
          exact Nat.succ_ne_zero _
        | some d =>
          exact ⟨_, _, rfl, .signature hid' hval (CallId.wire_of_ofWire hc).symm ⟨rfl, rfl⟩
            hbuf hfail rfl⟩

/-! ## After the parse -/

theorem wire_injective {c c' : CallId} (h : c.wire = c'.wire) : c = c' := by
  have h' := congrArg CallId.ofWire h
  rw [CallId.ofWire_wire, CallId.ofWire_wire] at h'
  exact Option.some.inj h'

/-- An answer that is not one to the call is turned down. -/
theorem checkResponse_other {callId : Nat}
    (h : msg.callId = 0 ∧ msg.signature = none ∨ msg.callId ≠ 0 ∧ msg.callId ≠ callId) :
    ∃ ret msg', checkResponse callId msg = .ok (.error ret, msg') := by
  unfold checkResponse
  rw [Prog.bind_of_ok (Prog.read_apply _ _)]
  rcases h with ⟨h0, hsig⟩ | ⟨h0, hne⟩
  · rw [if_pos h0]
    have hr : gkmRpcMessageReadUlong msg = .ok (msg.got (uint64At msg.buffer.buf msg.parsed)) := by
      unfold gkmRpcMessageReadUlong assertPart
      rw [hsig]
      dsimp only
      rw [ok_bind, GkmRpcMessage.get_eq reads_getUint64]
    rcases hgot : msg.got (uint64At msg.buffer.buf msg.parsed) with ⟨v, msg₁⟩
    rw [hgot] at hr
    rw [Prog.bind_of_ok (Prog.run_apply hr)]
    cases v with
    | none => exact ⟨_, _, rfl⟩
    | some ckerr =>
      dsimp only
      split
      · exact ⟨_, _, rfl⟩
      · exact ⟨_, _, rfl⟩
  · rw [if_neg h0, Prog.bind_of_ok (Prog.read_apply _ _), if_pos hne]
    exact ⟨_, _, rfl⟩

theorem afterParse_other {msg : GkmRpcMessage}
    (h : msg.callId = 0 ∧ msg.signature = none ∨ msg.callId ≠ 0 ∧ msg.callId ≠ s.stub.call.wire) :
    ∃ ret, ret ≠ ckrOk ∧ afterParse s msg = .ok (returned s.stub.call ret ret) := by
  obtain ⟨ret, msg', hcheck⟩ := checkResponse_other h
  have hret := checkResponse_ne hcheck
  refine ⟨ret, hret, ?_⟩
  unfold afterParse
  rw [hcheck, ok_bind]
  simp [callDoneRet, hret]

theorem checkResponse_own {c : CallId} (hcall : msg.callId = c.wire) :
    checkResponse c.wire msg = (do
      cAssert (gkmRpcMessageBufferError msg = false)
      pure (.ok (), msg)) := by
  have hne : ¬ msg.callId = 0 := by
    rw [hcall]
    exact Nat.pos_iff_ne_zero.1 c.wire_pos
  unfold checkResponse
  rw [Prog.bind_of_ok (Prog.read_apply _ _), if_neg hne, Prog.bind_of_ok (Prog.read_apply _ _),
    if_neg (by rw [hcall]; simp)]
  unfold Prog.run
  cases hassert : cAssert (gkmRpcMessageBufferError msg = false) with
  | error f => simp [hassert]
  | ok u => simp [hassert]

/-- An answer to the call whose signature could not be read. -/
theorem afterParse_failed (hcall : msg.callId = s.stub.call.wire) (hfail : msg.buffer.failures ≠ 0) :
    afterParse s msg = .error .assertion := by
  have herr : gkmRpcMessageBufferError msg = true := by
    simpa [gkmRpcMessageBufferError, eggBufferHasError] using hfail
  unfold afterParse
  rw [checkResponse_own hcall, herr]
  rfl

theorem outs_sig (s : ClientStub) :
    s.outs.flatMap (fun m => m.kind.sig) = s.stub.call.response := by
  have h : s.outs.flatMap (fun m => m.kind.sig) =
      (s.outs.map OutMacro.kind).flatMap OutKind.sig := by
    rw [flatMap_map]
  rw [h, s.outs_kind, outMacros_sig]

section

variable (hcall : msg.callId = s.stub.call.wire) (hfail : msg.buffer.failures = 0)

include hcall hfail

/-- An answer to the call whose signature was read, when it has all of its arguments. -/
theorem afterParse_decoded (hexp : Expects msg s.stub.call.response) (hne : .attributeArray [] ∉ s.outs)
    {v : List OutMacro × Nat}
    (hv : resultsAt s.outs msg.buffer.buf msg.parsed = some v) :
    afterParse s msg = .ok ckrOk := by
  have herr : gkmRpcMessageBufferError msg = false := by
    simp [gkmRpcMessageBufferError, eggBufferHasError, hfail]
  have h := readOuts_decodes hne msg [] (by rwa [append_nil, outs_sig])
  rw [hv] at h
  unfold afterParse
  rw [checkResponse_own hcall, herr]
  show (readOuts s.outs ckrOk msg >>= _) = _
  rw [h, ok_bind]
  have hdone : callDoneRet ckrOk (reached msg [] v.2) = .ok ckrOk := by
    unfold callDoneRet
    rw [if_pos rfl, show gkmRpcMessageBufferError (reached msg [] v.2) = false from herr]
    rfl
  dsimp only
  rw [hdone, ok_bind]
  unfold returned
  simp

/-- The same when an argument is missing: the stub does not return `CKR_OK`. -/
theorem afterParse_undecoded (hexp : Expects msg s.stub.call.response) (hne : .attributeArray [] ∉ s.outs)
    (hv : resultsAt s.outs msg.buffer.buf msg.parsed = none) :
    afterParse s msg ≠ .ok ckrOk ∧ afterParse s msg ≠ .error .assertion := by
  have herr : gkmRpcMessageBufferError msg = false := by
    simp [gkmRpcMessageBufferError, eggBufferHasError, hfail]
  have hfinal : s.stub.call ≠ .cFinalize := by
    -- that stub has no arguments to read
    intro hc
    have hkind := s.outs_kind
    rw [hc] at hkind
    have hnil : s.outs = [] := map_eq_nil_iff.1 hkind
    rw [hnil] at hv
    simp [resultsAt, given] at hv
  have h := readOuts_decodes hne msg [] (by rwa [append_nil, outs_sig])
  rw [hv] at h
  have hafter : afterParse s msg = (do
      let (ret, _, resp) ← readOuts s.outs ckrOk msg
      let done ← callDoneRet ret resp
      pure (returned s.stub.call ret done)) := by
    unfold afterParse
    rw [checkResponse_own hcall, herr]
    rfl
  cases hr : readOuts s.outs ckrOk msg with
  | error f =>
    rw [hr] at h hafter
    rw [hafter]
    refine ⟨by simp, ?_⟩
    intro heq
    exact h (by simpa using heq)
  | ok r =>
    obtain ⟨ret, ms, msg'⟩ := r
    have hret : ret ≠ ckrOk := by
      rw [hr] at h
      exact h
    rw [hr] at hafter
    have hcode : afterParse s msg = .ok ret := by
      rw [hafter]
      simp [callDoneRet, hret, returned, hfinal]
    rw [hcode]
    exact ⟨by simpa using hret, by simp⟩

/-- The reader of attributes, when it is asked for none, after an answer to the call. -/
theorem afterParse_noAttributes (hmem : .attributeArray [] ∈ s.outs) :
    afterParse s msg = .error .assertion := by
  have herr : gkmRpcMessageBufferError msg = false := by
    simp [gkmRpcMessageBufferError, eggBufferHasError, hfail]
  have houts : s.outs = [.attributeArray []] := by
    -- no other macro goes with the one of attributes
    have hkind := s.outs_kind
    have hin : OutKind.attributeArray ∈ outMacros s.stub.call := by
      rw [← hkind]
      exact mem_map_of_mem hmem
    have hone : outMacros s.stub.call = [.attributeArray] := by
      cases hc : s.stub.call with
      | cGetAttributeValue => rfl
      | _ =>
        rw [hc] at hin
        simp [outMacros] at hin
    rw [hone] at hkind
    obtain ⟨m, hm, -⟩ := map_eq_singleton_iff.1 hkind
    rw [hm, mem_singleton] at hmem
    rw [hm, hmem]
  unfold afterParse
  rw [checkResponse_own hcall, herr, houts]
  rfl

end

/-! ## Validation -/

/-- The stub kept its word about the response with the bytes `body`: no assertion was false, and if
the code is `CKR_OK` the message was accepted as a response to the call, and all the arguments of
its signature were there. -/
def Validated (s : ClientStub) (resp : GkmRpcMessage) (body : Bytes) (r : Checked CkRv) : Prop :=
  r ≠ .error .assertion ∧ (r = .ok ckrOk → ∃ msg,
    gkmRpcMessageParse (received resp body) .response = .ok (true, msg) ∧
      msg.callId = s.stub.call.wire ∧ ∃ outs, resultsAt s.outs body msg.parsed = some outs)

/-- The bytes that a stub makes the right thing of. They are not empty. When they carry the
identifier of the call, there is a signature behind it, which is the one of the call unless what
follows it is not the arguments, and the stub asks for some attributes if it asks for any. The stub
of `C_Finalize`, which returns `CKR_OK` whatever happens, needs the header of its response. -/
structure Sound (s : ClientStub) (body : Bytes) : Prop where
  nonempty : body ≠ []
  own : ∀ off, uint32At body 0 = some (s.stub.call.wire, off) → .attributeArray [] ∉ s.outs ∧
    ∃ val off', byteArrayAt body off = some (val, off') ∧
      (val.getD [] = s.stub.call.response.bytes ∨ resultsAt s.outs body off' = none)
  finalize : s.stub.call = .cFinalize → ∃ off val off',
    uint32At body 0 = some (s.stub.call.wire, off) ∧ byteArrayAt body off = some (val, off') ∧
      val.getD [] = s.stub.call.response.bytes

theorem returned_ne {call : CallId} {ret : CkRv} (hret : ret ≠ ckrOk) (hc : call ≠ .cFinalize) :
    returned call ret ret ≠ ckrOk := by
  unfold returned
  rw [if_neg hc]
  split
  · exact hret
  · exact hret

/-- Bytes that do not carry the identifier of the call. -/
theorem validated_other {ok : Bool} (hne : body ≠ [])
    (hparse : gkmRpcMessageParse (received resp body) .response = .ok (ok, msg))
    (hid : ∀ off, uint32At body 0 ≠ some (s.stub.call.wire, off))
    (h : msg.callId = 0 ∧ msg.signature = none ∨ msg.callId ≠ 0 ∧ msg.callId ≠ s.stub.call.wire) :
    Validated s resp body (afterParse s msg) ↔ Sound s body := by
  obtain ⟨ret, hret, hafter⟩ := @afterParse_other s msg h
  rw [hafter]
  constructor
  · rintro ⟨-, hok⟩
    refine ⟨hne, fun off hoff => absurd hoff (hid off), ?_⟩
    intro hc
    -- the stub returned `CKR_OK`, so the call of the message is its own
    obtain ⟨msg', hparse', hcall, -⟩ := hok (by simp [returned, hc])
    rw [hparse] at hparse'
    simp only [Except.ok.injEq, Prod.mk.injEq] at hparse'
    rw [← hparse'.2] at hcall
    rcases h with ⟨h0, -⟩ | ⟨-, hother⟩
    · rw [h0] at hcall
      exact absurd hcall.symm (Nat.pos_iff_ne_zero.1 s.stub.call.wire_pos)
    · exact absurd hcall hother
  · rintro ⟨-, -, hfinal⟩
    refine ⟨by simp, ?_⟩
    intro hok
    have hc : s.stub.call ≠ .cFinalize := by
      intro hc
      obtain ⟨off, -, -, hoff, -⟩ := hfinal hc
      exact hid off hoff
    exact absurd (Except.ok.inj hok) (returned_ne hret hc)

/-- Bytes with the identifier of the call and a signature. -/
theorem validated_own {off off' : Nat} {val : Option Bytes} (hne : body ≠ [])
    (hparse : gkmRpcMessageParse (received resp body) .response =
      .ok (val.getD [] == s.stub.call.response.bytes, msg))
    (hid : uint32At body 0 = some (s.stub.call.wire, off)) (hval : byteArrayAt body off = some (val, off'))
    (hcall : msg.callId = s.stub.call.wire) (hexp : Expects msg s.stub.call.response)
    (hbuf : msg.buffer.buf = body) (hfail : msg.buffer.failures = 0) (hparsed : msg.parsed = off') :
    Validated s resp body (afterParse s msg) ↔ Sound s body := by
  have hown : ∀ {off₁ : Nat}, uint32At body 0 = some (s.stub.call.wire, off₁) → off₁ = off := by
    intro off₁ h₁
    rw [hid] at h₁
    simpa using h₁.symm
  by_cases hmem : .attributeArray [] ∈ s.outs
  · rw [afterParse_noAttributes hcall hfail hmem]
    constructor
    · intro h
      exact absurd rfl h.1
    · intro h
      exact absurd hmem (h.own off hid).1
  cases hv : resultsAt s.outs body off' with
  | none =>
    have hafter := afterParse_undecoded hcall hfail hexp hmem (by rw [hbuf, hparsed, hv])
    constructor
    · intro _
      refine ⟨hne, ?_, ?_⟩
      · intro off₁ h₁
        rw [hown h₁]
        exact ⟨hmem, val, off', hval, .inr hv⟩
      · intro hc
        -- that stub has no arguments to read
        have hkind := s.outs_kind
        rw [hc] at hkind
        rw [map_eq_nil_iff.1 hkind] at hv
        simp [resultsAt, given] at hv
    · intro _
      exact ⟨hafter.2, fun hok => absurd hok hafter.1⟩
  | some v =>
    rw [afterParse_decoded hcall hfail hexp hmem (by rw [hbuf, hparsed, hv])]
    constructor
    · rintro ⟨-, hok⟩
      obtain ⟨msg', hparse', -, -⟩ := hok rfl
      rw [hparse] at hparse'
      simp only [Except.ok.injEq, Prod.mk.injEq, beq_iff_eq] at hparse'
      refine ⟨hne, ?_, fun _ => ⟨off, val, off', hid, hval, hparse'.1⟩⟩
      intro off₁ h₁
      rw [hown h₁]
      exact ⟨hmem, val, off', hval, .inl hparse'.1⟩
    · intro h
      refine ⟨by simp, fun _ => ?_⟩
      obtain ⟨-, val₁, off₁, hval₁, hor⟩ := h.own off hid
      rw [hval] at hval₁
      cases hval₁
      have hsig : val.getD [] = s.stub.call.response.bytes := by
        rcases hor with hsig | hnone
        · exact hsig
        · rw [hv] at hnone
          simp at hnone
      refine ⟨msg, ?_, hcall, v, ?_⟩
      · rw [hparse]
        simp [hsig]
      · rw [hparsed, hv]

/-- The request of a stub is built, and all of it is written. -/
def isSent (o : Outcomes) : Checked (Except CkRv Unit × GkmRpcMessage) → Bool
  | .ok (.ok (), req) =>
    decide ((writeLoop o.writeLen (eggBufferEncodeUint32 req.buffer.len)).2 = .complete) &&
      decide ((writeLoop o.writeBody req.buffer.buf).2 = .complete)
  | _ => false

theorem exists_of_isSent {x : Checked (Except CkRv Unit × GkmRpcMessage)}
    (h : isSent o x = true) : ∃ req, x = .ok (.ok (), req) ∧
      (writeLoop o.writeLen (eggBufferEncodeUint32 req.buffer.len)).2 = .complete ∧
      (writeLoop o.writeBody req.buffer.buf).2 = .complete := by
  match x, h with
  | .ok (.ok (), req), h =>
    rw [isSent, Bool.and_eq_true, decide_eq_true_iff, decide_eq_true_iff] at h
    exact ⟨req, rfl, h.1, h.2⟩

/-- On a new connection any bytes can be the answer. -/
theorem smoothly_answered {s : ClientStub} {body : Bytes} (hlen : body.length < 2 ^ 32)
    (hsent : isSent (smoothly (fun _ _ => true) (eggBufferEncodeUint32 body.length) body)
      (buildRequest s.stub (gkmRpcMessageNew fun _ _ => true)) = true) :
    Answered s (smoothly (fun _ _ => true) (eggBufferEncodeUint32 body.length) body) callConnect
      (gkmRpcMessageNew fun _ _ => true) body where
  ready := rfl
  connected := rfl
  request := by
    obtain ⟨req, hreq, hsent⟩ := exists_of_isSent hsent
    exact ⟨_, req, rfl, hreq, hsent⟩
  response := rfl
  length := hlen
  frame := rfl
  content := by
    show readLoop [.got body] body.length = _
    cases body with
    | nil => rfl
    | cons b bs => simp [readLoop]
  room := by
    have hplenty : (eggBufferReset (gkmRpcMessageNew fun _ _ => true).buffer).Plenty :=
      ⟨_, rfl, fun _ _ => rfl⟩
    exact (eggBufferReserve_granted hplenty _).1
  added := by
    have hplenty : (eggBufferReset (gkmRpcMessageNew fun _ _ => true).buffer).Plenty :=
      ⟨_, rfl, fun _ _ => rfl⟩
    exact (eggBufferAppend_granted (eggBufferReserve_granted hplenty _).2 body).1

/-- A stub that was answered keeps its word exactly when the answer is sound. -/
theorem stub_validates_iff (h : Answered s o cs resp body) (pooled : Nat) :
    Validated s resp body (runStub s o pooled cs) ↔ Sound s body := by
  by_cases hne : body = []
  · subst hne
    rw [runStub_empty h]
    constructor
    · intro hv
      exact absurd rfl hv.1
    · intro hs
      exact absurd rfl hs.nonempty
  obtain ⟨hbuf, hfail⟩ := received_buf h
  obtain ⟨ok, msg, hparse, hparsed⟩ := gkmRpcMessageParse_response hbuf hfail rfl rfl
  rw [runStub_answered h hne, hparse, ok_bind]
  dsimp only
  cases hparsed with
  | noCall hid hcall hsig =>
    exact validated_other hne hparse (hid s.stub.call) (.inl ⟨hcall, hsig⟩)
  | @noSignature c off _ hid hval hcall hfailed =>
    by_cases hc : c = s.stub.call
    · subst hc
      rw [afterParse_failed hcall hfailed]
      constructor
      · intro hv
        exact absurd rfl hv.1
      · intro hs
        obtain ⟨-, val, off', hval', -⟩ := hs.own off hid
        rw [hval] at hval'
        simp at hval'
    · apply validated_other hne hparse
      · intro off₁ h₁
        rw [hid] at h₁
        exact hc (wire_injective (by simpa using congrArg (·.map Prod.fst) h₁))
      · right
        rw [hcall]
        exact ⟨Nat.pos_iff_ne_zero.1 c.wire_pos, fun heq => hc (wire_injective heq)⟩
  | @signature c off off' val _ hid hval hcall hexp hbuf' hfail' hparsed' =>
    by_cases hc : c = s.stub.call
    · subst hc
      exact validated_own hne hparse hid hval hcall hexp hbuf' hfail' hparsed'
    · apply validated_other hne hparse
      · intro off₁ h₁
        rw [hid] at h₁
        exact hc (wire_injective (by simpa using congrArg (·.map Prod.fst) h₁))
      · right
        rw [hcall]
        exact ⟨Nat.pos_iff_ne_zero.1 c.wire_pos, fun heq => hc (wire_injective heq)⟩

/-- `C_OpenSession` of slot 1. -/
def openSessionStub : ClientStub :=
  { stub := rpcCOpenSession 1 4 none none, outs := [.ulong (some 0)], ins_sig := rfl,
    outs_kind := rfl }

/-- The session 7, as the result of `C_OpenSession`. -/
theorem stub_validates_openSession :
    Validated openSessionStub (gkmRpcMessageNew fun _ _ => true)
      [0, 0, 0, 11, 0, 0, 0, 1, 117, 0, 0, 0, 0, 0, 0, 0, 7]
      (runStub openSessionStub (smoothly (fun _ _ => true) [0, 0, 0, 17]
        [0, 0, 0, 11, 0, 0, 0, 1, 117, 0, 0, 0, 0, 0, 0, 0, 7]) 0 callConnect) := by
  have hanswered := @smoothly_answered openSessionStub
    [0, 0, 0, 11, 0, 0, 0, 1, 117, 0, 0, 0, 0, 0, 0, 0, 7] (by decide) (by decide +kernel)
  refine (stub_validates_iff hanswered 0).2
    ⟨by simp, ?_, by simp [openSessionStub, rpcCOpenSession, stub]⟩
  intro off hoff
  have h4 : off = 4 := by
    have h : uint32At [0, 0, 0, 11, 0, 0, 0, 1, 117, 0, 0, 0, 0, 0, 0, 0, 7] 0 = some (11, 4) := by
      decide +kernel
    rw [h] at hoff
    simpa using (congrArg (·.map Prod.snd) hoff).symm
  subst h4
  refine ⟨by simp [openSessionStub], some [117], 9, by decide +kernel, .inl rfl⟩

/-- A response of `C_OpenSession` with the signature of a byte opens a session all the same. -/
theorem wrong_signature_accepted :
    ¬ ∀ (s : ClientStub) (o : Outcomes) (cs : CallState) (resp : GkmRpcMessage)
      (body : Bytes) (pooled : Nat), Answered s o cs resp body →
        Validated s resp body (runStub s o pooled cs) := by
  intro hall
  have hanswered := @smoothly_answered openSessionStub
    [0, 0, 0, 11, 0, 0, 0, 1, 121, 0, 0, 0, 0, 0, 0, 0, 7] (by decide) (by decide +kernel)
  have hok : runStub openSessionStub (smoothly (fun _ _ => true) [0, 0, 0, 17]
      [0, 0, 0, 11, 0, 0, 0, 1, 121, 0, 0, 0, 0, 0, 0, 0, 7]) 0 callConnect = .ok ckrOk := by
    decide +kernel
  obtain ⟨msg, hparse, -⟩ := (hall _ _ _ _ _ 0 hanswered).2 hok
  have hverdict : (gkmRpcMessageParse (received (gkmRpcMessageNew fun _ _ => true)
      [0, 0, 0, 11, 0, 0, 0, 1, 121, 0, 0, 0, 0, 0, 0, 0, 7]) .response).map Prod.fst =
      .ok false := by
    decide +kernel
  rw [hparse] at hverdict
  have hfalse : true = false := Except.ok.inj hverdict
  simp at hfalse

end MateKeyring.Rpc.Module
