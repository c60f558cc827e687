import MateKeyring.Rpc.Results

/-!
# The connections of the client

`gkm-rpc-module.c` keeps idle connections in `call_state_pool`. A thread takes one with
`call_lookup`, makes one call on it and gives it back with `call_done`, which looks at the code of
the call alone to tell whether the connection can serve again. The model follows the source from
`call_prepare` to `call_done`; what the socket and the allocator do in a call is its `Outcomes`.

A connection is in sync (`InSync`) when what was written to it is a sequence of whole requests and
what was read from it is as many whole responses. `pool_in_sync` shows that every connection in
the pool is so, as long as the memory for a response can be had once its length is read.
-/

set_option autoImplicit false

namespace MateKeyring.Rpc.Module

open Lib Egg List

variable {ret : CkRv} {req : GkmRpcMessage} {len : Nat}

/-! ## Connections -/

/-- `enum CallStatus`. -/
inductive CallStatus where
  | invalid | ready | prep | transit | parse
  deriving DecidableEq, Repr

/-- An open connection: the bytes written to it and the bytes read from it so far. -/
structure Socket where
  written : Bytes
  received : Bytes
  deriving DecidableEq, Repr

/-- `CallState`; a socket of `-1` is `none`. -/
structure CallState where
  socket : Option Socket
  req : Option GkmRpcMessage
  resp : Option GkmRpcMessage
  callStatus : CallStatus

/-- `MAX_CALL_STATE_POOL`. -/
def maxCallStatePool : Nat := 8

/-- What one `write` on the socket does: it takes some bytes, finds the connection closed
(`EPIPE`), has to be tried again (`EAGAIN`, `EINTR`) or fails. -/
inductive WriteEvent where
  | wrote (n : Nat)
  | epipe
  | retry
  | failed

/-- What one `read` on the socket does: it gives some bytes, finds the connection closed, has to
be tried again or fails. -/
inductive ReadEvent where
  | got (bytes : Bytes)
  | closed
  | retry
  | failed

/-- How a loop of reads or writes ends. -/
inductive LoopEnd where
  | complete
  | closed
  | failed
  deriving DecidableEq, Repr

/-- What happens around one call: whether new messages can be had and what the allocator will do
for them, and the outcomes of the system calls of each `call_write` and `call_read` in order. After
the last outcome listed the socket fails. -/
structure Outcomes where
  newReq : Option EggBufferAllocator
  newResp : Option EggBufferAllocator
  writeLen : List WriteEvent
  writeBody : List WriteEvent
  readLen : List ReadEvent
  readBody : List ReadEvent

/-- A step on a call state: stopping is returning a code other than `CKR_OK`. -/
abbrev Step := Prog Fault CallState CkRv

/-- `call_connect`, when it succeeds, on the state that `call_lookup` allocated. -/
def callConnect : CallState :=
  { socket := some { written := [], received := [] }, req := none, resp := none,
    callStatus := .ready }

/-- `call_disconnect`. -/
def callDisconnect (cs : CallState) : CallState := { cs with socket := none }

/-- The loop of `call_write`: the bytes that were taken, and how it ended. The check of the socket
in the loop is made once, in `callWrite`: only a round that ends the loop closes it. -/
def writeLoop : List WriteEvent → Bytes → Bytes × LoopEnd
  | _, [] => ([], .complete)
  | [], _ :: _ => ([], .failed)
  | .wrote n :: es, data =>
    let (out, e) := writeLoop es (data.drop n)
    (data.take n ++ out, e)
  | .epipe :: _, _ => ([], .closed)
  | .retry :: es, data => writeLoop es data
  | .failed :: _, _ => ([], .failed)

/-- The loop of `call_read`: the bytes that were read, and how it ended. A `read` never gives more
bytes than were asked for. -/
def readLoop : List ReadEvent → Nat → Bytes × LoopEnd
  | _, 0 => ([], .complete)
  | [], _ + 1 => ([], .failed)
  | .got bytes :: es, len =>
    let (out, e) := readLoop es (len - bytes.length)
    (bytes.take len ++ out, e)
  | .closed :: _, _ => ([], .closed)
  | .retry :: es, len => readLoop es len
  | .failed :: _, _ => ([], .failed)

/-- The state and the code after a loop on the socket. -/
def endLoop {α : Type} (cs : CallState) (a : α) : LoopEnd → Except CkRv α × CallState
  | .complete => (.ok a, cs)
  | .closed => (.error ckrDeviceError, callDisconnect cs)
  | .failed => (.error ckrDeviceError, cs)

/-- `call_write`. -/
def callWrite (data : Bytes) (events : List WriteEvent) : Step Unit := fun cs => do
  cAssert (0 < data.length)
  match cs.socket with
  | none => pure (.error ckrDeviceError, cs)
  | some s =>
    let (out, e) := writeLoop events data
    pure (endLoop { cs with socket := some { s with written := s.written ++ out } } () e)

/-- `call_read` of `len` bytes. -/
def callRead (len : Nat) (events : List ReadEvent) : Step Bytes := fun cs => do
  cAssert (0 < len)
  match cs.socket with
  | none => pure (.error ckrDeviceError, cs)
  | some s =>
    let (out, e) := readLoop events len
    pure (endLoop { cs with socket := some { s with received := s.received ++ out } } out e)

/-! ## A call -/

/-- A message, or a new one if there is none. -/
def messageOrNew (msg : Option GkmRpcMessage) (new : Option EggBufferAllocator) :
    Option GkmRpcMessage :=
  msg <|> new.map gkmRpcMessageNew

/-- `call_prepare` on a call state. -/
def prepareCall (call : CallId) (o : Outcomes) : Step Unit := fun cs => do
  cAssert (cs.callStatus = .ready)
  match messageOrNew cs.req o.newReq with
  | none => pure (.error ckrHostMemory, cs)
  | some req => do
      match ← callPrepare call req with
      | (.error ret, req) => pure (.error ret, { cs with req := some req })
      | (.ok (), req) => pure (.ok (), { cs with req := some req, callStatus := .prep })

/-- The reading half of `call_send_recv`, once the length of the response is read: the code, and
the response message. -/
def recvBody (o : Outcomes) (resp : GkmRpcMessage) (len : Nat) (cs : CallState) :
    Checked (CkRv × GkmRpcMessage × CallState) := do
  let (ok, buffer) := eggBufferReserve resp.buffer (len + resp.buffer.len)
  let resp := { resp with buffer }
  if ok = false then pure (ckrHostMemory, resp, cs)
  else do
    match ← callRead len o.readBody cs with
    | (.error ret, cs) => pure (ret, resp, cs)
    | (.ok data, cs) =>
      if buffer.allocatedLen < data.length then .error .outOfBounds
      else do
        -- a response that does not parse leaves `ret` at `CKR_OK`
        let (_, resp) ← gkmRpcMessageParse
          { resp with buffer := (eggBufferAddEmpty buffer data).2 } .response
        pure (ckrOk, resp, cs)

/-- `call_send_recv` between the two places where the messages are taken out of the call state and
put back: the code, and the response message. -/
def sendRecv (o : Outcomes) (req resp : GkmRpcMessage) (cs : CallState) :
    Checked (CkRv × GkmRpcMessage × CallState) := do
  match ← callWrite (eggBufferEncodeUint32 req.buffer.len) o.writeLen cs with
  | (.error ret, cs) => pure (ret, resp, cs)
  | (.ok (), cs) =>
    match ← callWrite req.buffer.buf o.writeBody cs with
    | (.error ret, cs) => pure (ret, resp, cs)
    | (.ok (), cs) =>
      match ← callRead 4 o.readLen cs with
      | (.error ret, cs) => pure (ret, resp, cs)
      | (.ok buf, cs) => recvBody o resp (eggBufferDecodeUint32 buf) cs

/-- `call_send_recv`. -/
def callSendRecv (o : Outcomes) (req : GkmRpcMessage) (cs : CallState) :
    Checked (CkRv × CallState) := do
  let cs := { cs with callStatus := .transit }
  match messageOrNew cs.resp o.newResp with
  | none => pure (ckrHostMemory, cs)
  | some resp => do
      let (ret, resp, cs) ← sendRecv o req (gkmRpcMessageReset resp)
        { cs with req := none, resp := none }
      pure (ret, { cs with req := some req, resp := some resp })

/-- The rest of `call_run`, once the dialog with the daemon was successful. -/
def checkAnswer (req : GkmRpcMessage) (cs : CallState) : Checked (CkRv × CallState) :=
  match cs.resp with
  | none => .error .nullPointer
  | some resp => do
      match ← checkResponse req.callId resp with
      | (.error ret, resp) => pure (ret, { cs with resp := some resp })
      | (.ok (), resp) => pure (ckrOk, { cs with resp := some resp })

/-- `call_run` of the request `req`. -/
def callRun (o : Outcomes) (req : GkmRpcMessage) (cs : CallState) : Checked (CkRv × CallState) := do
  cAssert (cs.callStatus = .prep)
  cAssert (cs.socket.isSome = true)
  if gkmRpcMessageBufferError req then pure (ckrHostMemory, cs)
  else do
    cAssert (gkmRpcMessageIsVerified req = true)
    let (ret, cs) ← callSendRecv o req cs
    let cs := { cs with callStatus := .parse }
    if ret ≠ ckrOk then pure (ret, cs) else checkAnswer req cs

/-- The code `call_done` works with: parsing errors that were not caught elsewhere are looked for
when there is a response. -/
def finalRet (cs : CallState) (ret : CkRv) : Checked CkRv :=
  match cs.callStatus, cs.req, cs.resp with
  | .parse, some _, some resp => callDoneRet ret resp
  | _, _, _ => .ok ret

/-- `call_done` with `pooled` call states in the pool: the code, and the call state that goes to the
pool unless it is destroyed. -/
def callDone (pooled : Nat) (cs : CallState) (ret : CkRv) : Checked (CkRv × Option CallState) := do
  cAssert (cs.callStatus ≠ .invalid)
  let ret ← finalRet cs ret
  -- certain codes cause us to discard the connection
  if ret ≠ ckrDeviceError ∧ ret ≠ ckrDeviceRemoved ∧ cs.socket.isSome ∧
      pooled < maxCallStatePool then
    pure (ret, some { cs with callStatus := .ready })
  else pure (ret, none)

/-- A call as the stubs make it: its identifier, what its `IN_*` macros do to the request and what
its `OUT_*` macros do to the response. -/
structure Call where
  call : CallId
  ins : Request Unit
  outs : GkmRpcMessage → Checked (CkRv × GkmRpcMessage)

/-- `PROCESS_CALL` and what follows it up to `END_CALL`. -/
def processCall (c : Call) (o : Outcomes) (req : GkmRpcMessage) (cs : CallState) :
    Checked (CkRv × CallState) := do
  let (ret, cs) ← callRun o req cs
  if ret ≠ ckrOk then pure (ret, cs)
  else
    match cs.resp with
    | none => .error .nullPointer
    | some resp => do
        let (ret, resp) ← c.outs resp
        pure (ret, { cs with resp := some resp })

/-- A stub from `BEGIN_CALL` to the jump to `END_CALL`: the code and the call state. -/
def makeCall (c : Call) (o : Outcomes) (cs : CallState) : Checked (CkRv × CallState) := do
  match ← prepareCall c.call o cs with
  | (.error ret, cs) => pure (ret, cs)
  | (.ok (), cs) =>
    match cs.req with
    | none => .error .nullPointer
    | some req => do
        match ← c.ins req with
        | (.error ret, req) => pure (ret, { cs with req := some req })
        | (.ok (), req) => processCall c o req { cs with req := some req }

/-! ## The client -/

/-- The state of the client: the call states in the pool, the first one on top, and those that
threads have looked up and not given back. -/
structure Client where
  pool : List CallState
  active : List CallState

/-- What a thread does next. The body of a call works on its own call state alone, so it is one
event with the `call_done` that ends it. -/
inductive Event where
  | lookup (connected : Bool)
  | call (i : Nat) (c : Call) (o : Outcomes)

/-- `call_lookup`: pop a call state from the pool, or connect a new one. -/
def callLookup (st : Client) (connected : Bool) : Client :=
  match st.pool with
  | cs :: pool => { pool, active := cs :: st.active }
  | [] => if connected then { st with active := callConnect :: st.active } else st

/-- The `i`-th active call state makes a call and is given back. -/
def finishCall (st : Client) (i : Nat) (c : Call) (o : Outcomes) : Checked Client :=
  match st.active[i]? with
  | none => .ok st
  | some cs => do
      let (ret, cs) ← makeCall c o cs
      let (_, kept) ← callDone st.pool.length cs ret
      pure { pool := kept.toList ++ st.pool, active := st.active.eraseIdx i }

/-- One event. -/
def Client.step (st : Client) : Event → Checked Client
  | .lookup connected => .ok (callLookup st connected)
  | .call i c o => finishCall st i c o

/-- The client before its first call. -/
def Client.start : Client := { pool := [], active := [] }

/-! ## Connections in sync -/

/-- A frame: four octets with the length of what follows them. -/
def IsFrame (bytes : Bytes) : Prop :=
  ∃ buf body, bytes = buf ++ body ∧ buf.length = 4 ∧ eggBufferDecodeUint32 buf = body.length

/-- What was written is a sequence of requests and what was read is their responses, one for each:
nothing of a request is missing, and nothing of a response is unread. -/
def InSync (s : Socket) : Prop :=
  ∃ dialog : List (Bytes × Bytes),
    (∀ x ∈ dialog, IsFrame x.1 ∧ IsFrame x.2) ∧
      s.written = (dialog.map Prod.fst).flatten ∧ s.received = (dialog.map Prod.snd).flatten

/-- A call state that can serve a call. -/
def CallState.Idle (cs : CallState) : Prop :=
  cs.callStatus = .ready ∧ ∃ s, cs.socket = some s ∧ InSync s

/-- The condition on one call, made on `cs`: if the length of the response can be read, then memory
for that length can be had, and the request is shorter than `2 ^ 32` bytes. -/
structure CallFits (c : Call) (o : Outcomes) (cs : CallState) : Prop where
  response : ∀ resp buf, messageOrNew cs.resp o.newResp = some resp →
    readLoop o.readLen 4 = (buf, .complete) →
      (eggBufferReserve (eggBufferReset resp.buffer) (eggBufferDecodeUint32 buf)).1 = true
  request : ∀ new prepared req, messageOrNew cs.req o.newReq = some new →
    callPrepare c.call new = .ok (.ok (), prepared) → c.ins prepared = .ok (.ok (), req) →
      req.buffer.len < 2 ^ 32

/-- The condition on an event. -/
def Event.Fits (st : Client) : Event → Prop
  | .lookup _ => True
  | .call i c o => ∀ cs, st.active[i]? = some cs → CallFits c o cs

/-- `st` is reached from the start of the client by events that meet `P`. -/
def Client.Reached (P : Client → Event → Prop) : Client → Prop :=
  Relation.ReflTransGen (fun st st' => ∃ e, P st e ∧ st.step e = .ok st') Client.start

theorem inSync_fresh : InSync { written := [], received := [] } := ⟨[], by simp, rfl, rfl⟩

variable {s : Socket}

/-- One more request with its response. -/
theorem InSync.exchange {request response : Bytes} (h : InSync s) (hreq : IsFrame request)
    (hresp : IsFrame response) :
    InSync { written := s.written ++ request, received := s.received ++ response } := by
  obtain ⟨dialog, hframes, hw, hr⟩ := h
  refine ⟨dialog ++ [(request, response)], ?_, ?_, ?_⟩
  · intro x hx
    rcases mem_append.1 hx with hx | hx
    · exact hframes x hx
    · rw [mem_singleton.1 hx]
      exact ⟨hreq, hresp⟩
  · simp [hw]
  · simp [hr]

/-- The length and the bytes of a message that is not too long are a frame. -/
theorem isFrame_encode {data : Bytes} (h : data.length < 2 ^ 32) :
    IsFrame (eggBufferEncodeUint32 data.length ++ data) :=
  ⟨_, data, rfl, rfl, decode_encodeUint32 h⟩

/-! ## The steps of a call -/

theorem writeLoop_complete {es : List WriteEvent} {data out : Bytes}
    (h : writeLoop es data = (out, .complete)) : out = data := by
  -- each round that goes on has sent the front of the data, the rest of the loop the rest
  induction es, data using writeLoop.induct generalizing out with
  | case1 es =>
    rw [writeLoop, Prod.mk.injEq] at h
    exact h.1.symm
  | case2 x xs => simp [writeLoop] at h
  | case3 n es data hne out' e heq ih =>
    rw [writeLoop, heq] at h
    · cases h
      rw [ih heq, take_append_drop]
    · exact hne
  | case4 es data hne =>
    rw [writeLoop] at h
    · simp at h
    · exact hne
  | case5 es data hne ih =>
    rw [writeLoop] at h
    · exact ih h
    · exact hne
  | case6 es data hne =>
    rw [writeLoop] at h
    · simp at h
    · exact hne

theorem readLoop_complete {es : List ReadEvent} {out : Bytes} (h : readLoop es len = (out, .complete)) :
    out.length = len := by
  induction es, len using readLoop.induct generalizing out with
  | case1 es =>
    rw [readLoop, Prod.mk.injEq] at h
    rw [← h.1]
    rfl
  | case2 n => simp [readLoop] at h
  | case3 bytes es len hne out' e heq ih =>
    rw [readLoop, heq] at h
    · cases h
      simp only [length_append, length_take, ih heq]
      omega
    · exact hne
  | case4 es len hne =>
    rw [readLoop] at h
    · simp at h
    · exact hne
  | case5 es len hne ih =>
    rw [readLoop] at h
    · exact ih h
    · exact hne
  | case6 es len hne =>
    rw [readLoop] at h
    · simp at h
    · exact hne

variable {cs cs' : CallState}

/-- A write fails with `CKR_DEVICE_ERROR` or sends all of its data. -/
theorem callWrite_cases {data : Bytes} {es : List WriteEvent} {r : Except CkRv Unit}
    (hs : cs.socket = some s) (h : callWrite data es cs = .ok (r, cs')) :
    r = .error ckrDeviceError ∨
      (r = .ok () ∧ cs' = { cs with socket := some { s with written := s.written ++ data } }) := by
  obtain ⟨-, -, h⟩ := bind_eq_ok.1 h
  rw [hs] at h
  rcases hloop : writeLoop es data with ⟨out, e⟩
  simp only [hloop, pure_eq_ok, Except.ok.injEq] at h
  cases e with
  | complete =>
    right
    rw [← writeLoop_complete hloop]
    simp only [endLoop, Prod.mk.injEq] at h
    exact ⟨h.1.symm, h.2.symm⟩
  | closed =>
    left
    exact (congrArg Prod.fst h).symm
  | failed =>
    left
    exact (congrArg Prod.fst h).symm

/-- A read fails with `CKR_DEVICE_ERROR` or gives all the bytes it was asked for. -/
theorem callRead_cases {es : List ReadEvent} {r : Except CkRv Bytes} (hs : cs.socket = some s)
    (h : callRead len es cs = .ok (r, cs')) :
    r = .error ckrDeviceError ∨
      ∃ out, readLoop es len = (out, .complete) ∧ r = .ok out ∧
        cs' = { cs with socket := some { s with received := s.received ++ out } } := by
  obtain ⟨-, -, h⟩ := bind_eq_ok.1 h
  rw [hs] at h
  rcases hloop : readLoop es len with ⟨out, e⟩
  simp only [hloop, pure_eq_ok, Except.ok.injEq] at h
  cases e with
  | complete =>
    right
    simp only [endLoop, Prod.mk.injEq] at h
    exact ⟨out, rfl, h.1.symm, h.2.symm⟩
  | closed =>
    left
    exact (congrArg Prod.fst h).symm
  | failed =>
    left
    exact (congrArg Prod.fst h).symm

variable {o : Outcomes}

/-- When the memory for the response can be had, its body is read in full or the code is
`CKR_DEVICE_ERROR`. -/
theorem recvBody_cases {resp resp' : GkmRpcMessage} (hs : cs.socket = some s)
    (hfit : (eggBufferReserve resp.buffer (len + resp.buffer.len)).1 = true)
    (h : recvBody o resp len cs = .ok (ret, resp', cs')) :
    ret = ckrDeviceError ∨
      ∃ body, body.length = len ∧ cs'.socket = some { s with received := s.received ++ body } := by
  unfold recvBody at h
  simp only [hfit, Bool.true_eq_false, if_false] at h
  obtain ⟨⟨r, cs₁⟩, hread, h⟩ := bind_eq_ok.1 h
  rcases callRead_cases hs hread with rfl | ⟨body, hbody, rfl, rfl⟩
  · left
    cases h
    rfl
  · right
    refine ⟨body, readLoop_complete hbody, ?_⟩
    dsimp only at h
    split at h
    · simp at h
    · obtain ⟨parsed, -, h⟩ := bind_eq_ok.1 h
      cases h
      rfl

/-- The dialog with the daemon is an exchange of a whole request and a whole response, or its code
is `CKR_DEVICE_ERROR`. -/
theorem sendRecv_cases {req resp resp' : GkmRpcMessage} (hs : cs.socket = some s) (hsync : InSync s)
    (hreq : req.buffer.len < 2 ^ 32) (hfit : ∀ buf, readLoop o.readLen 4 = (buf, .complete) →
      (eggBufferReserve resp.buffer (eggBufferDecodeUint32 buf + resp.buffer.len)).1 = true)
    (h : sendRecv o req resp cs = .ok (ret, resp', cs')) :
    ret = ckrDeviceError ∨ ∃ s', cs'.socket = some s' ∧ InSync s' := by
  obtain ⟨⟨r, cs₁⟩, hwlen, h⟩ := bind_eq_ok.1 h
  rcases callWrite_cases hs hwlen with rfl | ⟨rfl, rfl⟩
  · cases h
    exact .inl rfl
  obtain ⟨⟨r, cs₂⟩, hwbody, h⟩ := bind_eq_ok.1 h
  rcases callWrite_cases rfl hwbody with rfl | ⟨rfl, rfl⟩
  · cases h
    exact .inl rfl
  obtain ⟨⟨r, cs₃⟩, hrlen, h⟩ := bind_eq_ok.1 h
  rcases callRead_cases rfl hrlen with rfl | ⟨buf, hbuf, rfl, rfl⟩
  · cases h
    exact .inl rfl
  rcases recvBody_cases rfl (hfit buf hbuf) h with rfl | ⟨body, hbody, hsock⟩
  · exact .inl rfl
  · right
    refine ⟨_, hsock, ?_⟩
    have hframe : IsFrame (buf ++ body) := ⟨buf, body, rfl, readLoop_complete hbuf, hbody.symm⟩
    have hsync' := hsync.exchange (isFrame_encode hreq) hframe
    rw [← append_assoc, ← append_assoc] at hsync'
    exact hsync'

/-- What a call leaves behind: the code that discards the connection, or a connection in sync. -/
def Settled (ret : CkRv) (cs : CallState) : Prop :=
  ret = ckrDeviceError ∨ ∃ s, cs.socket = some s ∧ InSync s

theorem Settled.congr (h : Settled ret cs) (hsock : cs'.socket = cs.socket) : Settled ret cs' := by
  rcases h with h | h
  · exact .inl h
  · right
    rw [hsock]
    exact h

/-- After a successful code, what follows without using the connection may return any code. -/
theorem Settled.of_ok (h : Settled ckrOk cs) (hsock : cs'.socket = cs.socket) : Settled ret cs' := by
  rcases h with h | h
  · exact absurd h (by decide)
  · exact Settled.congr (.inr h) hsock

theorem checkAnswer_socket (h : checkAnswer req cs = .ok (ret, cs')) : cs'.socket = cs.socket := by
  unfold checkAnswer at h
  split at h
  · simp at h
  · obtain ⟨⟨r, resp⟩, -, h⟩ := bind_eq_ok.1 h
    cases r with
    | error code =>
      cases h
      rfl
    | ok u =>
      cases h
      rfl

variable {c : Call}

section

variable (hs : cs.socket = some s) (hsync : InSync s) (hreq : req.buffer.len < 2 ^ 32)
  (hfit : ∀ resp buf, messageOrNew cs.resp o.newResp = some resp →
    readLoop o.readLen 4 = (buf, .complete) →
      (eggBufferReserve (eggBufferReset resp.buffer) (eggBufferDecodeUint32 buf)).1 = true)

include hs hsync hreq hfit

theorem callSendRecv_settled (h : callSendRecv o req cs = .ok (ret, cs')) : Settled ret cs' := by
  unfold callSendRecv at h
  dsimp only at h
  cases hresp : messageOrNew cs.resp o.newResp with
  | none =>
    -- nothing was sent
    rw [hresp] at h
    cases h
    exact .inr ⟨s, hs, hsync⟩
  | some resp =>
    rw [hresp] at h
    obtain ⟨⟨ret', resp', cs₁⟩, hsend, h⟩ := bind_eq_ok.1 h
    cases h
    have hset : Settled ret' cs₁ := by
      refine sendRecv_cases ?_ hsync hreq (fun buf hbuf => ?_) hsend
      · exact hs
      · have hempty : (gkmRpcMessageReset resp).buffer.len = 0 := rfl
        rw [hempty, Nat.add_zero]
        exact hfit resp buf hresp hbuf
    exact hset.congr rfl

theorem callRun_settled (h : callRun o req cs = .ok (ret, cs')) : Settled ret cs' := by
  obtain ⟨⟨⟩, -, h⟩ := bind_eq_ok.1 h
  obtain ⟨⟨⟩, -, h⟩ := bind_eq_ok.1 h
  split at h
  · cases h
    exact .inr ⟨s, hs, hsync⟩
  · obtain ⟨⟨⟩, -, h⟩ := bind_eq_ok.1 h
    obtain ⟨⟨ret₁, cs₁⟩, hsend, h⟩ := bind_eq_ok.1 h
    have hset := callSendRecv_settled hs hsync hreq hfit hsend
    dsimp only at h
    split at h
    · cases h
      exact hset.congr rfl
    · rename_i hok
      rw [not_not.1 hok] at hset
      have hsock := checkAnswer_socket h
      exact hset.of_ok hsock

theorem processCall_settled (h : processCall c o req cs = .ok (ret, cs')) : Settled ret cs' := by
  obtain ⟨⟨ret₁, cs₁⟩, hrun, h⟩ := bind_eq_ok.1 h
  have hset := callRun_settled hs hsync hreq hfit hrun
  dsimp only at h
  split at h
  · cases h
    exact hset
  · rename_i hok
    rw [not_not.1 hok] at hset
    split at h
    · simp at h
    · obtain ⟨⟨ret₂, resp₂⟩, -, h⟩ := bind_eq_ok.1 h
      cases h
      exact hset.of_ok rfl

end

/-- A call made on an idle connection settles it. -/
theorem makeCall_settled (hidle : cs.Idle) (hfit : CallFits c o cs) (h : makeCall c o cs = .ok (ret, cs')) :
    Settled ret cs' := by
  obtain ⟨-, s, hs, hsync⟩ := hidle
  obtain ⟨⟨r, cs₁⟩, hprep, h⟩ := bind_eq_ok.1 h
  obtain ⟨⟨⟩, -, hprep⟩ := bind_eq_ok.1 hprep
  cases hnew : messageOrNew cs.req o.newReq with
  | none =>
    simp only [hnew, pure_eq_ok, Except.ok.injEq, Prod.mk.injEq] at hprep
    obtain ⟨rfl, rfl⟩ := hprep
    cases h
    exact .inr ⟨s, hs, hsync⟩
  | some new =>
    rw [hnew] at hprep
    obtain ⟨⟨rp, prepared⟩, hcall, hprep⟩ := bind_eq_ok.1 hprep
    cases rp with
    | error code =>
      cases hprep
      cases h
      exact .inr ⟨s, hs, hsync⟩
    | ok u =>
      cases u
      cases hprep
      obtain ⟨⟨ri, req⟩, hins, h⟩ := bind_eq_ok.1 h
      cases ri with
      | error code =>
        cases h
        exact .inr ⟨s, hs, hsync⟩
      | ok u =>
        cases u
        refine processCall_settled ?_ hsync
          (hfit.request new prepared req hnew hcall hins) ?_ h
        · exact hs
        · exact hfit.response

theorem finalRet_of_ne {ret ret' : CkRv} {cs : CallState} (hne : ret ≠ ckrOk)
    (h : finalRet cs ret = .ok ret') : ret' = ret := by
  unfold finalRet at h
  split at h
  · rw [callDoneRet, if_neg hne] at h
    exact (Except.ok.inj h).symm
  · exact (Except.ok.inj h).symm

/-- What `call_done` puts in the pool is idle. -/
theorem callDone_idle {pooled : Nat} {cs kept : CallState} {ret ret' : CkRv}
    (hset : Settled ret cs) (h : callDone pooled cs ret = .ok (ret', some kept)) : kept.Idle := by
  obtain ⟨⟨⟩, -, h⟩ := bind_eq_ok.1 h
  obtain ⟨final, hfinal, h⟩ := bind_eq_ok.1 h
  split at h
  · rename_i hpool
    cases h
    refine ⟨rfl, ?_⟩
    rcases hset with rfl | hsync
    · -- the code that discards the connection is still there
      exact absurd (finalRet_of_ne (by decide) hfinal) hpool.1
    · exact hsync
  · simp at h

/-! ## The pool -/

/-- Every call state of the client is idle, the pooled and the ones a thread has looked up. -/
def Client.InSync (st : Client) : Prop :=
  (∀ cs ∈ st.pool, cs.Idle) ∧ ∀ cs ∈ st.active, cs.Idle

theorem callConnect_idle : callConnect.Idle := ⟨rfl, _, rfl, inSync_fresh⟩

theorem callLookup_inSync {st : Client} (h : st.InSync) (connected : Bool) :
    (callLookup st connected).InSync := by
  obtain ⟨hpool, hactive⟩ := h
  unfold callLookup
  split
  · rename_i cs pool heq
    rw [heq] at hpool
    refine ⟨(forall_mem_cons.1 hpool).2, ?_⟩
    intro x hx
    rcases mem_cons.1 hx with rfl | hx
    · exact hpool x mem_cons_self
    · exact hactive x hx
  · split
    · refine ⟨hpool, ?_⟩
      intro x hx
      rcases mem_cons.1 hx with rfl | hx
      · exact callConnect_idle
      · exact hactive x hx
    · exact ⟨hpool, hactive⟩

theorem finishCall_inSync {st st' : Client} {i : Nat} (h : st.InSync)
    (hfit : ∀ cs, st.active[i]? = some cs → CallFits c o cs) (hstep : finishCall st i c o = .ok st') :
    st'.InSync := by
  obtain ⟨hpool, hactive⟩ := h
  unfold finishCall at hstep
  cases hcs : st.active[i]? with
  | none =>
    rw [hcs] at hstep
    cases hstep
    exact ⟨hpool, hactive⟩
  | some cs =>
    rw [hcs] at hstep
    obtain ⟨⟨ret, cs₁⟩, hmake, hstep⟩ := bind_eq_ok.1 hstep
    obtain ⟨⟨ret', kept⟩, hdone, hstep⟩ := bind_eq_ok.1 hstep
    cases hstep
    have hset := makeCall_settled (hactive cs (mem_of_getElem? hcs)) (hfit cs hcs) hmake
    refine ⟨?_, fun x hx => hactive x (mem_of_mem_eraseIdx hx)⟩
    intro x hx
    rcases mem_append.1 hx with hx | hx
    · rw [Option.mem_toList.1 hx] at hdone
      exact callDone_idle hset hdone
    · exact hpool x hx

theorem Client.step_inSync {st st' : Client} {e : Event} (h : st.InSync) (hfit : e.Fits st)
    (hstep : st.step e = .ok st') : st'.InSync := by
  cases e with
  | lookup connected =>
    cases hstep
    exact callLookup_inSync h connected
  | call i c o => exact finishCall_inSync h hfit hstep

/-- In every run of the client whose calls can get the memory for the responses they are announced,
every call state in the pool is ready, and open on a connection that is in sync. -/
theorem pool_in_sync {st : Client} (h : Client.Reached (fun st e => e.Fits st) st) :
    ∀ cs ∈ st.pool, cs.callStatus = .ready ∧ ∃ s, cs.socket = some s ∧ InSync s := by
  have hsync : st.InSync := by
    induction h with
    | refl => exact ⟨by simp [Client.start], by simp [Client.start]⟩
    | tail _ hstep ih =>
      obtain ⟨e, hfit, hstep⟩ := hstep
      exact Client.step_inSync ih hfit hstep
  intro cs hcs
  exact hsync.1 cs hcs

/-- `rpc_C_CloseSession`. -/
def closeSession (session : Nat) : Call :=
  { call := .cCloseSession, ins := writeIns (rpcCCloseSession session).ins,
    outs := fun resp => .ok (ckrOk, resp) }

/-- A call on a new connection where the socket does all it is asked for, the response arrives as
`len` and `body`, and the allocator of the response message is `alloc`. -/
def smoothly (alloc : EggBufferAllocator) (len body : Bytes) : Outcomes :=
  { newReq := some fun _ _ => true, newResp := some alloc, writeLen := [.wrote 4],
    writeBody := [.wrote 64], readLen := [.got len], readBody := [.got body] }

theorem closeSession_fits : CallFits (closeSession 5)
    (smoothly (fun _ _ => true) [0, 0, 0, 8] [0, 0, 0, 12, 0, 0, 0, 0]) callConnect where
  response := by
    intro resp buf hresp hbuf
    have hnew : resp = gkmRpcMessageNew fun _ _ => true := (Option.some.inj hresp).symm
    have hlen : buf = [0, 0, 0, 8] := (congrArg Prod.fst hbuf).symm
    subst hnew hlen
    decide +kernel
  request := by
    intro new prepared req hnew hprep hins
    have hnew : new = gkmRpcMessageNew fun _ _ => true := (Option.some.inj hnew).symm
    subst hnew
    obtain ⟨⟨r', req'⟩, heval, hlen⟩ := exists_of_resultOf (x := do
      let r ← callPrepare .cCloseSession (gkmRpcMessageNew fun _ _ => true)
      (closeSession 5).ins r.2) (f := fun r => r.2.buffer.len) (b := 17) (by decide +kernel)
    obtain ⟨r, hr, heval⟩ := bind_eq_ok.1 heval
    have hsame : r = (Except.ok (), prepared) := Except.ok.inj (hr.symm.trans hprep)
    subst hsame
    have hreq := Except.ok.inj (heval.symm.trans hins)
    simp only [Prod.mk.injEq] at hreq
    rw [← hreq.2, hlen]
    decide

/-- A response that was read to its end: the call state is in the pool again. -/
theorem pool_in_sync_closeSession :
    ∃ st cs, Client.Reached (fun st e => e.Fits st) st ∧ st.pool = [cs] ∧
      cs.callStatus = .ready ∧ ∃ s, cs.socket = some s ∧ InSync s := by
  obtain ⟨st, hst, hpool⟩ := exists_of_resultOf
    (x := Client.step { pool := [], active := [callConnect] } (.call 0 (closeSession 5)
      (smoothly (fun _ _ => true) [0, 0, 0, 8] [0, 0, 0, 12, 0, 0, 0, 0])))
    (f := fun st => st.pool.length) (b := 1) (by decide +kernel)
  have hreached : Client.Reached (fun st e => e.Fits st) st := by
    refine Relation.ReflTransGen.tail (b := { pool := [], active := [callConnect] }) ?_ ?_
    · exact Relation.ReflTransGen.single ⟨.lookup true, trivial, rfl⟩
    · refine ⟨_, ?_, hst⟩
      intro cs hcs
      cases hcs
      exact closeSession_fits
  obtain ⟨cs, hcs⟩ := length_eq_one_iff.1 hpool
  refine ⟨st, cs, hreached, hcs, ?_⟩
  exact pool_in_sync hreached cs (by rw [hcs]; exact mem_singleton_self cs)

/-- The first response of a connection in sync was read to its end. -/
theorem InSync.first_complete (h : InSync s) (hne : s.received ≠ []) :
    4 + eggBufferDecodeUint32 (s.received.take 4) ≤ s.received.length := by
  obtain ⟨dialog, hframes, -, hr⟩ := h
  cases dialog with
  | nil => exact absurd hr hne
  | cons x rest =>
    obtain ⟨-, buf, body, heq, hlen, hdec⟩ := hframes x mem_cons_self
    have hrec : s.received = buf ++ (body ++ (rest.map Prod.snd).flatten) := by
      rw [hr, map_cons, flatten_cons, heq, append_assoc]
    rw [hrec, ← hlen, take_left, hdec]
    simp only [length_append]
    omega

/-- Memory for a response cannot be had after its length is read: the code is `CKR_HOST_MEMORY`, and
the connection goes to the pool with the response still to be read. -/
theorem pool_out_of_sync :
    ¬ ∀ st, Client.Reached (fun _ _ => True) st →
      ∀ cs ∈ st.pool, cs.callStatus = .ready ∧ ∃ s, cs.socket = some s ∧ InSync s := by
  intro hall
  obtain ⟨st, hst, hpool⟩ := exists_of_resultOf
    (x := Client.step { pool := [], active := [callConnect] } (.call 0 (closeSession 5)
      (smoothly (fun _ _ => false) [0, 0, 1, 0] [])))
    (f := fun st => st.pool.map fun cs => cs.socket.map Socket.received)
    (b := [some [0, 0, 1, 0]]) (by decide +kernel)
  have hreached : Client.Reached (fun _ _ => True) st := by
    refine (Relation.ReflTransGen.single ?_).tail ⟨_, trivial, hst⟩
    exact ⟨.lookup true, trivial, rfl⟩
  obtain ⟨cs, hcs, hrec⟩ := map_eq_singleton_iff.1 hpool
  obtain ⟨-, s, hs, hsync⟩ := hall st hreached cs (by rw [hcs]; exact mem_singleton_self cs)
  rw [hs] at hrec
  have hrec : s.received = [0, 0, 1, 0] := Option.some.inj hrec
  have hle := hsync.first_complete (by rw [hrec]; simp)
  rw [hrec] at hle
  exact absurd hle (by decide +kernel)

end MateKeyring.Rpc.Module
