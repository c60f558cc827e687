import MateKeyring.Egg.Reader

/-!
# The control socket

`gkd-control-server.c` and the requests of `gkd-control-client.c`. `controlInput` is entered for
every event on a connection; how far the connection is follows from what is in the buffer: first the
credentials are read, then the four bytes of the packet size, then the packet. The result of each
`read` is part of the event, so that every way of splitting the stream into reads is a run.

Under `Guarded` events (the size is not four, what arrives fits the memory of the buffer, and the
components to initialize are not a null string), no assertion fails, nothing is read outside the memory, a packet is processed by the event that
completes it, and what the client wrote is what the server decodes (`control_socket_holds`).
-/

set_option autoImplicit false

namespace MateKeyring.Control

open Lib Egg BigEndian List

variable {stream : Bytes}

/-! ## Requests -/

abbrev gkdControlOpInitialize : Nat := 0
abbrev gkdControlOpUnlock : Nat := 1
abbrev gkdControlOpChange : Nat := 2
abbrev gkdControlOpQuit : Nat := 3

/-- What the server understood: an operation with its arguments, of which a null string is `none`,
or why there is none. -/
inductive Request where
  | unlockLogin (master : Option Bytes)
  | changeLogin (original master : Option Bytes)
  | initializeComponents (components : Option Bytes) (environment : List (Option Bytes))
  | quit
  | failed (op : Nat)
  | unsupported (op : Nat)
  | invalid
  deriving DecidableEq, Repr

/-- `control_unlock_login`, up to `gkd_login_unlock`. -/
def controlUnlockLogin : Reader Request := do
  let master ← get eggBufferGetString
  pure (.unlockLogin master)

/-- `control_change_login`, up to `gkd_login_change_lock`. -/
def controlChangeLogin : Reader Request := do
  let original ← get eggBufferGetString
  let master ← get eggBufferGetString
  pure (.changeLogin original master)

/-- `gkd_main_complete_initialization`, up to the steps of the daemon. -/
def gkdMainCompleteInitialization (components : Option Bytes) : Reader Unit :=
  Prog.run fun c => do
    cAssert components.isSome
    pure ((), c)

/-- `control_initialize_components`. The environment is set, and is not read again. -/
def controlInitializeComponents : Reader Request := do
  let components ← get eggBufferGetString
  let environment ← eggBufferGetStringv
  gkdMainCompleteInitialization components
  pure (.initializeComponents components environment)

/-- `control_quit`. -/
def controlQuit : Reader Request := pure .quit

/-- The operations read their arguments behind the operation; what they cannot read is answered
with `GKD_CONTROL_RESULT_FAILED`. -/
def perform (op : Nat) (r : Reader Request) (req : EggBuffer) : Checked Request := do
  match ← r ⟨req, 8⟩ with
  | (.ok request, _) => pure request
  | (.error _, _) => pure (.failed op)

/-- `control_process`, as far as the request goes. -/
def controlProcess (req : EggBuffer) : Checked Request := do
  match ← eggBufferGetUint32 req 4 with
  | (none, _) => pure .invalid
  | (some (op, _), req) =>
    if op = gkdControlOpUnlock then perform op controlUnlockLogin req
    else if op = gkdControlOpChange then perform op controlChangeLogin req
    else if op = gkdControlOpInitialize then perform op controlInitializeComponents req
    else if op = gkdControlOpQuit then perform op controlQuit req
    else pure (.unsupported op)

/-! ## Events -/

/-- What `egg_unix_credentials_read` answers. -/
inductive Credentials where
  | again
  | failed
  | uid (same : Bool)

/-- What `read` answers: an error, of which `EAGAIN` and `EINTR` are tried again, the end of the
stream, or some bytes. -/
inductive ReadResult where
  | again
  | failed
  | eof
  | data (bytes : Bytes)

/-- The bytes that were read. -/
def ReadResult.bytes : ReadResult → Bytes
  | .data bytes => bytes
  | _ => []

/-- An event on a connection. -/
structure Event where
  ioIn : Bool
  ioHup : Bool
  credentials : Credentials
  read : ReadResult

/-- `ControlData`. -/
structure ControlData where
  buffer : EggBuffer
  position : Nat

/-- `control_data_new`. When `egg_buffer_init_full` is not given memory the buffer stays without
allocator. -/
def controlDataNew (given : Bool) (allocator : EggBufferAllocator) : ControlData :=
  { buffer := if given then eggBufferInitFull 128 allocator
      else { buf := [], allocatedLen := 0, failures := 1, allocator := none, attempts := 1 }
    position := 0 }

/-- The `read` into the memory behind the bytes in use: whether the connection is finished, and the
buffer. -/
def readInto (buffer : EggBuffer) : ReadResult → Checked (Bool × EggBuffer)
  | .again => .ok (false, buffer)
  | .failed => .ok (true, buffer)
  | .eof => .ok (true, buffer)
  | .data bytes =>
    if buffer.len + bytes.length ≤ buffer.allocatedLen then
      .ok (false, { buffer with buf := buffer.buf ++ bytes })
    else .error .outOfBounds

/-- The phase of `control_input` that reads the credentials. -/
def inputCredentials (c : ControlData) : Credentials → Bool × ControlData
  | .again => (false, c)
  | .failed => (true, c)
  | .uid same => if same then (false, { c with position := 1 }) else (true, c)

/-- The phase of `control_input` that reads the packet: whether the connection is finished, the
request when it was processed, and the buffer. Whether memory was reserved is not looked at. -/
def inputPacket (buffer : EggBuffer) (read : ReadResult) :
    Checked (Bool × Option Request × EggBuffer) := do
  match ← eggBufferGetUint32 buffer 0 with
  | (none, buffer) => pure (true, none, buffer)
  | (some (packetSize, _), buffer) =>
    if packetSize < 4 then pure (true, none, buffer)
    else do
      cAssert (buffer.len < packetSize)
      let (finished, buffer) ← readInto (eggBufferReserve buffer packetSize).2 read
      cAssert (buffer.len ≤ packetSize)
      if buffer.len = packetSize then do
        let request ← controlProcess buffer
        pure (true, some request, buffer)
      else pure (finished, none, buffer)

/-- `control_input`: whether it is called again for the next event, the request when one was
processed, and the data of the connection. -/
def controlInput (c : ControlData) (e : Event) : Checked (Bool × Option Request × ControlData) :=
  if ¬ e.ioIn then .ok (!e.ioHup, none, c)
  else if c.position = 0 then
    let (finished, c) := inputCredentials c e.credentials
    .ok (!(finished || e.ioHup), none, c)
  else if c.buffer.len < 4 then do
    let (finished, buffer) ← readInto (eggBufferReserve c.buffer 4).2 e.read
    pure (!(finished || e.ioHup), none, { c with buffer := buffer })
  else do
    let (finished, request, buffer) ← inputPacket c.buffer e.read
    pure (!(finished || e.ioHup), request, { c with buffer := buffer })

/-! ## Runs -/

/-- The number in the first four bytes. -/
def packetSize (stream : Bytes) : Nat := decode (stream.take 4)

/-- How many bytes an event reads at most. -/
def wanted (c : ControlData) : Nat :=
  if c.buffer.len < 4 then 4 - c.buffer.len else packetSize c.buffer.buf - c.buffer.len

/-- The bytes of the stream that an event reads. -/
def arrived (c : ControlData) (e : Event) : Bytes :=
  if e.ioIn ∧ c.position ≠ 0 then e.read.bytes else []

/-- `read` gives no more bytes than it was asked for. -/
def Lawful (c : ControlData) (e : Event) : Prop := (arrived c e).length ≤ wanted c

/-- A run of the connection: the stream so far and the data, after events satisfying `C`. -/
inductive Reachable (C : ControlData → Event → Prop) : Bytes → ControlData → Prop where
  | start (given : Bool) (allocator : EggBufferAllocator) :
      Reachable C [] (controlDataNew given allocator)
  | step {stream : Bytes} {c c' : ControlData} {e : Event} {request : Option Request}
      (hc : Reachable C stream c) (he : C c e) (h : controlInput c e = .ok (true, request, c')) :
      Reachable C (stream ++ arrived c e) c'

/-- All bytes of the packet have arrived. -/
def Complete (stream : Bytes) : Prop :=
  4 ≤ stream.length ∧ stream.length = packetSize stream

/-- The size of the memory an event reserves. -/
def reserved (c : ControlData) : Nat := if c.buffer.len < 4 then 4 else packetSize c.buffer.buf

/-- The packet asks for the initialization of a null string, with an environment that can be read. -/
def NoComponents (packet : Bytes) : Prop :=
  uint32At packet 4 = some (gkdControlOpInitialize, 8) ∧
    ∃ offset, stringAt packet 8 = some (none, offset) ∧ ∃ (req : EggBuffer) (environment : _) (c : Cursor),
      req.buf = packet ∧ eggBufferGetStringv ⟨req, offset⟩ = .ok (.ok environment, c)

/-- The events that are handled as they should: the packet size is not four, memory is reserved for what
arrives or is there already, and the components are not missing. -/
structure Guarded (c : ControlData) (e : Event) : Prop where
  size : 4 ≤ (c.buffer.buf ++ arrived c e).length → packetSize (c.buffer.buf ++ arrived c e) ≠ 4
  memory : (eggBufferReserve c.buffer (reserved c)).1 = true ∨
    c.buffer.len + (arrived c e).length ≤ c.buffer.allocatedLen
  components : Complete (c.buffer.buf ++ arrived c e) → ¬ NoComponents (c.buffer.buf ++ arrived c e)

/-! ## One event -/

/-- A connection whose packet is not complete. -/
structure Partial (stream : Bytes) (c : ControlData) : Prop where
  buf : c.buffer.buf = stream
  credentials : c.position = 0 → stream = []
  fits : stream.length ≤ c.buffer.allocatedLen
  incomplete : 4 ≤ stream.length →
    packetSize stream < 4 ∧ stream.length = 4 ∨ stream.length < packetSize stream

theorem partial_new (given : Bool) (allocator : EggBufferAllocator) :
    Partial [] (controlDataNew given allocator) := by
  refine ⟨?_, fun _ => rfl, Nat.zero_le _, fun h => by simp at h⟩
  cases given <;> rfl

theorem packetSize_append {stream more : Bytes} (h : 4 ≤ stream.length) :
    packetSize (stream ++ more) = packetSize stream := by
  rw [packetSize, take_append_of_le_length h, packetSize]

theorem eggBufferGetUint32_packetSize (buffer : EggBuffer) (h : 4 ≤ buffer.buf.length) :
    eggBufferGetUint32 buffer 0 = .ok (some (packetSize buffer.buf, 4), buffer) := by
  have hs : sliceAt buffer.buf 0 4 = some (buffer.buf.take 4) := by
    rw [sliceAt_eq_some_iff]
    exact ⟨by omega, rfl⟩
  simp [eggBufferGetUint32_eq, uint32At, readAt, hs, packetSize]

theorem perform_ok (op : Nat) {r : Reader Request} {req : EggBuffer} (hr : ∃ x, r ⟨req, 8⟩ = .ok x) :
    ∃ request, perform op r req = .ok request := by
  obtain ⟨⟨x, c⟩, hx⟩ := hr
  cases x <;> exact ⟨_, by simp [perform, hx]; rfl⟩

/-- The components are read, and are not missing when the environment is read, too. -/
theorem initializeComponents_ok {req : EggBuffer} (h : ∀ offset, stringAt req.buf 8 = some (none, offset) →
      ∀ environment c, eggBufferGetStringv ⟨req, offset⟩ ≠ .ok (.ok environment, c)) :
    ∃ x, controlInitializeComponents ⟨req, 8⟩ = .ok x := by
  obtain ⟨req', hget, hsame⟩ := eggBufferGetString_eq req 8
  cases hat : stringAt req.buf 8 with
  | none =>
    have hfirst : Egg.get eggBufferGetString ⟨req, 8⟩ = .ok (.error (), ⟨req', 8⟩) := by
      simp [Egg.get, hget, hat]
    exact ⟨_, Prog.bind_of_stop hfirst _⟩
  | some r =>
    obtain ⟨components, offset⟩ := r
    have hfirst : Egg.get eggBufferGetString ⟨req, 8⟩ = .ok (.ok (components.map Subtype.val), ⟨req, offset⟩) := by
      rw [hat, hsame (by simp [hat])] at hget
      simp only [Egg.get, hget, ok_bind]
      rfl
    obtain ⟨⟨environment, c⟩, hstringv⟩ := total_stringv ⟨req, offset⟩
    rw [controlInitializeComponents, Prog.bind_of_ok hfirst]
    cases environment with
    | error u => exact ⟨_, Prog.bind_of_stop hstringv _⟩
    | ok environment =>
      rw [Prog.bind_of_ok hstringv]
      cases components with
      | none => exact absurd hstringv (h offset hat environment c)
      | some components => exact ⟨_, rfl⟩

/-- A packet is decoded without fault, whatever else is in it. -/
theorem controlProcess_total {req : EggBuffer} (h : ¬ NoComponents req.buf) :
    ∃ request, controlProcess req = .ok request := by
  unfold controlProcess
  rw [eggBufferGetUint32_eq]
  cases hop : uint32At req.buf 4 with
  | none => exact ⟨.invalid, rfl⟩
  | some r =>
    obtain ⟨op, offset⟩ := r
    simp only [readResult_some, ok_bind]
    split
    · exact perform_ok _ (total_string.bind (fun _ => total_pure _) _)
    split
    · exact perform_ok _ (total_string.bind (fun _ => total_string.bind fun _ => total_pure _) _)
    split
    · rename_i hinit
      subst hinit
      obtain ⟨-, rfl⟩ : gkdControlOpInitialize = gkdControlOpInitialize ∧ offset = 8 := by
        obtain ⟨v, -, hv⟩ := Option.map_eq_some_iff.1 hop
        exact ⟨rfl, (Prod.mk.inj hv).2.symm⟩
      refine perform_ok _ (initializeComponents_ok fun offset hat environment c hstringv => h ?_)
      exact ⟨hop, offset, hat, req, environment, c, rfl, hstringv⟩
    split
    · exact perform_ok _ (total_pure _ _)
    · exact ⟨_, rfl⟩

/-- Reading into memory that is large enough. -/
theorem readInto_ok (buffer : EggBuffer) (read : ReadResult)
    (h : buffer.len + read.bytes.length ≤ buffer.allocatedLen) :
    ∃ finished, readInto buffer read =
      .ok (finished, { buffer with buf := buffer.buf ++ read.bytes }) := by
  cases read with
  | again => exact ⟨false, by simp [readInto, ReadResult.bytes]⟩
  | failed => exact ⟨true, by simp [readInto, ReadResult.bytes]⟩
  | eof => exact ⟨true, by simp [readInto, ReadResult.bytes]⟩
  | data bytes => exact ⟨false, if_pos h⟩

/-- Reserving memory, then reading what the memory has room for. -/
theorem reserve_readInto {buffer : EggBuffer} {read : ReadResult} {n : Nat}
    (hn : buffer.len + read.bytes.length ≤ n)
    (h : (eggBufferReserve buffer n).1 = true ∨
      buffer.len + read.bytes.length ≤ buffer.allocatedLen) :
    ∃ finished buffer', readInto (eggBufferReserve buffer n).2 read = .ok (finished, buffer') ∧
      buffer'.buf = buffer.buf ++ read.bytes ∧ buffer'.buf.length ≤ buffer'.allocatedLen := by
  have hreserve : (eggBufferReserve buffer n).2.buf = buffer.buf ∧
      buffer.len + read.bytes.length ≤ (eggBufferReserve buffer n).2.allocatedLen := by
    rcases eggBufferReserve_cases buffer n with ⟨b', hr, hbuf, -, hle, -⟩ | ⟨b', hr, hbuf, -, hal⟩
    · rw [hr]
      exact ⟨hbuf, Nat.le_trans hn hle⟩
    · rw [hr] at h ⊢
      exact ⟨hbuf, by simpa [hal] using h⟩
  have hlen : (eggBufferReserve buffer n).2.len = buffer.len := congrArg List.length hreserve.1
  obtain ⟨finished, hread⟩ := readInto_ok _ read (hlen ▸ hreserve.2)
  refine ⟨finished, _, hread, by rw [hreserve.1], ?_⟩
  rw [length_append, hreserve.1]
  exact hreserve.2

variable {c : ControlData}

theorem Partial.not_complete (h : Partial stream c) : ¬ Complete stream := by
  rintro ⟨hlen, hsize⟩
  rcases h.incomplete hlen with ⟨h1, h2⟩ | h1 <;> omega

/-- What an event does to a connection whose packet is not complete. -/
structure Handled (stream : Bytes) (again : Bool) (request : Option Request)
    (c : ControlData) : Prop where
  buf : c.buffer.buf = stream
  processed : request.isSome = true ↔ Complete stream
  decoded : ∀ r, request = some r → controlProcess c.buffer = .ok r
  goesOn : again = true → Partial stream c

/-- Nothing arrived. -/
theorem Partial.handled_same (h : Partial stream c) (again : Bool) : Handled stream again none c :=
  ⟨h.buf, by simpa using h.not_complete, by simp, fun _ => h⟩

variable {e : Event}

section

variable (hp : Partial stream c) (hl : Lawful c e) (hg : Guarded c e)

include hp hl hg

theorem Partial.inputSize (hin : e.ioIn = true) (hpos : c.position ≠ 0) (hlen : c.buffer.len < 4) :
    ∃ again request c', controlInput c e = .ok (again, request, c') ∧
      Handled (stream ++ arrived c e) again request c' := by
  have harr : arrived c e = e.read.bytes := if_pos ⟨hin, hpos⟩
  have hstream : c.buffer.len = stream.length := congrArg List.length hp.buf
  have hroom : c.buffer.len + e.read.bytes.length ≤ 4 := by
    have := hl
    rw [Lawful, wanted, if_pos hlen, harr] at this
    omega
  have hmem := hg.memory
  rw [reserved, if_pos hlen, harr] at hmem
  obtain ⟨finished, buffer', hread, hbuf, hfit⟩ := reserve_readInto hroom hmem
  rw [hp.buf] at hbuf
  refine ⟨!(finished || e.ioHup), none, { c with buffer := buffer' }, ?_, ?_⟩
  · simp [controlInput, hin, hpos, hlen, hread]
  · -- four bytes are a packet only when they say four, which is excluded
    have hsize := hg.size
    rw [hp.buf, harr] at hsize
    rw [harr]
    have hshort : (stream ++ e.read.bytes).length ≤ 4 := by
      rw [length_append]
      omega
    refine ⟨hbuf, ?_, by simp, fun _ => ⟨hbuf, fun h => absurd h hpos, hbuf ▸ hfit, ?_⟩⟩
    · refine ⟨by simp, ?_⟩
      rintro ⟨h4, heq⟩
      exact absurd (by omega) (hsize h4)
    · intro h4
      have := hsize h4
      omega

theorem Partial.inputPacket (hin : e.ioIn = true) (hpos : c.position ≠ 0) (hlen : ¬ c.buffer.len < 4) :
    ∃ again request c', controlInput c e = .ok (again, request, c') ∧
      Handled (stream ++ arrived c e) again request c' := by
  have harr : arrived c e = e.read.bytes := if_pos ⟨hin, hpos⟩
  have hstream : c.buffer.len = stream.length := congrArg List.length hp.buf
  have h4 : 4 ≤ stream.length := by omega
  have hget : eggBufferGetUint32 c.buffer 0 = .ok (some (packetSize stream, 4), c.buffer) := by
    have := eggBufferGetUint32_packetSize c.buffer (by rw [hp.buf]; exact h4)
    rwa [hp.buf] at this
  have hroom : e.read.bytes.length ≤ packetSize stream - stream.length := by
    have := hl
    rwa [Lawful, wanted, if_neg hlen, harr, hp.buf, hstream] at this
  rcases hp.incomplete h4 with ⟨hsmall, hfour⟩ | hmore
  · -- the size is refused and nothing is read
    have hnil : e.read.bytes = [] := eq_nil_of_length_eq_zero (by omega)
    refine ⟨!(true || e.ioHup), none, c, ?_, ?_⟩
    · simp [controlInput, hin, hpos, hlen, Control.inputPacket, hget, hsmall]
    · rw [harr, hnil, append_nil]
      exact hp.handled_same _
  · have hmem := hg.memory
    rw [reserved, if_neg hlen, harr, hp.buf] at hmem
    obtain ⟨finished, buffer', hread, hbuf, hfit⟩ :=
      reserve_readInto (n := packetSize stream) (by omega) hmem
    rw [hp.buf] at hbuf
    have hlen' : buffer'.len = stream.length + e.read.bytes.length := by
      rw [EggBuffer.len, hbuf, length_append]
    have hsize : packetSize (stream ++ e.read.bytes) = packetSize stream := packetSize_append h4
    have hbig : ¬ packetSize stream < 4 := by omega
    have hassert : c.buffer.len < packetSize stream := by omega
    have hassert' : buffer'.len ≤ packetSize stream := by omega
    rw [harr]
    by_cases hfull : buffer'.len = packetSize stream
    · have hcomplete : Complete (stream ++ e.read.bytes) := by
        rw [Complete, hsize, length_append]
        omega
      have hcomponents := hg.components
      rw [harr, hp.buf, ← hbuf] at hcomponents
      obtain ⟨request, hrequest⟩ := controlProcess_total (hcomponents (hbuf ▸ hcomplete))
      refine ⟨!(true || e.ioHup), some request, { c with buffer := buffer' }, ?_, ?_⟩
      · simp [controlInput, hin, hpos, hlen, Control.inputPacket, hget, hbig, hassert, hread, hfull,
          hrequest]
      · exact ⟨hbuf, by simpa using hcomplete, fun r hr => by cases hr; exact hrequest, by simp⟩
    · refine ⟨!(finished || e.ioHup), none, { c with buffer := buffer' }, ?_, ?_⟩
      · simp [controlInput, hin, hpos, hlen, Control.inputPacket, hget, hbig, hassert, hread, hfull,
          hassert']
      · refine ⟨hbuf, ?_, by simp, fun _ => ⟨hbuf, fun h => absurd h hpos, hbuf ▸ hfit, ?_⟩⟩
        · simp only [Option.isSome_none, Bool.false_eq_true, false_iff, Complete, hsize,
            length_append]
          omega
        · intro _
          rw [hsize, length_append]
          omega

/-- A guarded event does not fault; it processes the packet when it completes it. -/
theorem Partial.input :
    ∃ again request c', controlInput c e = .ok (again, request, c') ∧
      Handled (stream ++ arrived c e) again request c' := by
  cases hin : e.ioIn with
  | false =>
    have harr : arrived c e = [] := if_neg (by simp [hin])
    rw [harr, append_nil]
    exact ⟨!e.ioHup, none, c, by simp [controlInput, hin], hp.handled_same _⟩
  | true =>
    by_cases hpos : c.position = 0
    · have harr : arrived c e = [] := if_neg (by simp [hpos])
      have hnil := hp.credentials hpos
      rw [harr, append_nil]
      refine ⟨_, none, (inputCredentials c e.credentials).2, by simp [controlInput, hin, hpos]; rfl,
        ?_⟩
      apply Partial.handled_same
      cases e.credentials with
      | again => exact hp
      | failed => exact hp
      | uid same =>
        cases same with
        | false => exact hp
        | true => exact ⟨hp.buf, fun _ => hnil, hp.fits, hp.incomplete⟩
    · by_cases hlen : c.buffer.len < 4
      · exact hp.inputSize hl hg hin hpos hlen
      · exact hp.inputPacket hl hg hin hpos hlen

end

theorem Reachable.isPartial (h : Reachable (fun c e => Lawful c e ∧ Guarded c e) stream c) : Partial stream c := by
  induction h with
  | start given allocator => exact partial_new given allocator
  | step _ he hstep ih =>
    obtain ⟨again, request, c', hinput, hhandled⟩ := ih.input he.1 he.2
    rw [hstep] at hinput
    cases hinput
    exact hhandled.goesOn rfl

end MateKeyring.Control
