import MateKeyring.Control.Server

/-!
# Requests of the control client

`gkd-control-client.c` builds a request in a buffer, writes its length over the first four bytes, and
sends it when no write failed. A string that is too long for the format is left out without counting
as a failure, and the length is cut to 32 bits, so the server decodes what was passed when the strings
and the whole request are short enough (`Built`).
-/

set_option autoImplicit false

namespace MateKeyring.Control

open Lib Egg BigEndian List

/-- The frame of the requests: what is sent, if anything. -/
def buildRequest (b : EggBuffer) (op : Nat) (args : EggBuffer → Bool × EggBuffer) : Option Bytes :=
  let b := (eggBufferAddUint32 b 0).2
  let b := (eggBufferAddUint32 b op).2
  let b := (args b).2
  let b := (eggBufferSetUint32 b 0 b.len).2
  if eggBufferHasError b then none else some b.buf

/-- `gkd_control_initialize`. -/
def gkdControlInitialize (b : EggBuffer) (components : Bytes) (envp : List Bytes) : Option Bytes :=
  buildRequest b gkdControlOpInitialize fun b =>
    -- whether the components could be added is not looked at
    eggBufferAddStringv (eggBufferAddString b (some components)).2 envp

/-- `gkd_control_unlock`. -/
def gkdControlUnlock (b : EggBuffer) (password : Bytes) : Option Bytes :=
  buildRequest b gkdControlOpUnlock fun b => eggBufferAddString b (some password)

/-- `gkd_control_change_lock`. -/
def gkdControlChangeLock (b : EggBuffer) (original password : Bytes) : Option Bytes :=
  buildRequest b gkdControlOpChange fun b =>
    eggBufferAddString (eggBufferAddString b (some original)).2 (some password)

/-- `gkd_control_quit`. -/
def gkdControlQuit (b : EggBuffer) : Option Bytes :=
  buildRequest b gkdControlOpQuit fun b => (true, b)

/-! ## The bytes of a request -/

/-- A request: its length, the operation and the arguments. -/
def requestBytes (op : Nat) (args : Bytes) : Bytes :=
  encode 4 (8 + args.length) ++ (encode 4 op ++ args)

theorem buildRequest_eq {b : EggBuffer} {op : Nat} {args : EggBuffer → Bool × EggBuffer}
    {out req : Bytes} (hempty : b.buf = []) (hargs : ∀ b, Wrote b (args b).2 out)
    (h : buildRequest b op args = some req) : req = requestBytes op out := by
  have hw : Wrote b (args (eggBufferAddUint32 (eggBufferAddUint32 b 0).2 op).2).2
      (encode 4 0 ++ (encode 4 op ++ out)) := by
    have h1 := (eggBufferAddUint32_writes b 0).wrote
    have h2 := (eggBufferAddUint32_writes (eggBufferAddUint32 b 0).2 op).wrote
    exact h1.trans (h2.trans (hargs _))
  simp only [buildRequest] at h
  generalize (args (eggBufferAddUint32 (eggBufferAddUint32 b 0).2 op).2).2 = b' at hw h
  by_cases hset : b'.len < 4 ∨ 0 > b'.len - 4
  · simp only [eggBufferSetUint32, if_pos hset] at h
    simp [eggBufferHasError] at h
  · simp only [eggBufferSetUint32, if_neg hset] at h
    by_cases herr : eggBufferHasError b' = true
    · simp [eggBufferHasError] at h herr
      exact absurd h.1 herr
    · have hbuf := hw.buf_of_noError (by simpa using herr)
      rw [hempty, nil_append] at hbuf
      have hlen : b'.len = 8 + out.length := by
        rw [EggBuffer.len, hbuf]
        simp
        omega
      have herr' : ¬ (b'.failures ≠ 0) := by simpa [eggBufferHasError] using herr
      simp only [eggBufferHasError, bne_iff_ne, if_neg herr', Option.some.injEq] at h
      rw [← h, hlen, hbuf, eggBufferEncodeUint32_eq]
      rfl

theorem requestBytes_complete {op : Nat} {args : Bytes}
    (h : (requestBytes op args).length < 2 ^ 32) : Complete (requestBytes op args) := by
  have hlen : (requestBytes op args).length = 8 + args.length := by
    simp [requestBytes]
    omega
  refine ⟨by omega, ?_⟩
  have htake : (requestBytes op args).take 4 = encode 4 (8 + args.length) := take_left' (by simp)
  rw [packetSize, htake, hlen, decode_encode_of_lt (by omega)]

/-- The operation is found behind the length, and the arguments behind the operation. -/
theorem controlProcess_requestBytes {buffer : EggBuffer} {op : Nat} {args : Bytes}
    (hbuf : buffer.buf = requestBytes op args) (hop : op < 2 ^ 32) {r : Reader Request}
    {request : Request} (hr : Reads r request args) :
    eggBufferGetUint32 buffer 4 = .ok (some (op, 8), buffer) ∧
      perform op r buffer = .ok request := by
  have hat : HasAt buffer.buf 4 (encode 4 op ++ args) :=
    ⟨encode 4 (8 + args.length), [], by simp [hbuf, requestBytes], by simp⟩
  constructor
  · rw [eggBufferGetUint32_eq, uint32At_of_hasAt hat.left hop, readResult_some]
  · have hargs := hat.right
    rw [length_encode] at hargs
    simp [perform, hr buffer 8 hargs]

/-- A request that the client sent, with what was passed to it. The strings and the whole request are
short enough for the format. -/
inductive Built : Bytes → Request → Prop where
  | unlock {b : EggBuffer} {req : Bytes} (password : CString) (hempty : b.buf = [])
      (hsent : gkdControlUnlock b password.val = some req)
      (hlen : password.val.length < 0x7fffffff) (hsize : req.length < 2 ^ 32) :
      Built req (.unlockLogin (some password.val))
  | change {b : EggBuffer} {req : Bytes} (original password : CString) (hempty : b.buf = [])
      (hsent : gkdControlChangeLock b original.val password.val = some req)
      (horiginal : original.val.length < 0x7fffffff) (hlen : password.val.length < 0x7fffffff)
      (hsize : req.length < 2 ^ 32) :
      Built req (.changeLogin (some original.val) (some password.val))
  | components {b : EggBuffer} {req : Bytes} (components : CString) (envp : List CString)
      (hempty : b.buf = [])
      (hsent : gkdControlInitialize b components.val (envp.map Subtype.val) = some req)
      (hlen : components.val.length < 0x7fffffff)
      (henvp : ∀ str ∈ envp, str.val.length < 0x7fffffff) (hsize : req.length < 2 ^ 32) :
      Built req (.initializeComponents (some components.val) (envp.map fun str => some str.val))
  | quit {b : EggBuffer} {req : Bytes} (hempty : b.buf = [])
      (hsent : gkdControlQuit b = some req) : Built req .quit

theorem length_le_stringvBytes (strv : List CString) :
    4 * strv.length ≤ (stringvBytes strv).length := by
  have hflat : 4 * strv.length ≤
      (strv.flatMap fun str => byteArrayBytes (some str.val)).length := by
    induction strv with
    | nil => simp
    | cons str strv ih =>
      simp only [flatMap_cons, length_append, length_cons, byteArrayBytes, length_encode] at ih ⊢
      omega
  rw [stringvBytes, length_append]
  omega

/-- What the client built is complete, and the server decodes what was passed. -/
theorem Built.spec {req : Bytes} {request : Request} (h : Built req request) :
    Complete req ∧ ∀ buffer : EggBuffer, buffer.buf = req →
      controlProcess buffer = .ok request := by
  cases h with
  | unlock password hempty hsent hlen hsize =>
    obtain rfl := buildRequest_eq hempty
      (fun b => (eggBufferAddString_writes b password.val hlen).wrote) hsent
    refine ⟨requestBytes_complete hsize, fun buffer hbuf => ?_⟩
    have hr : Reads controlUnlockLogin _ _ :=
      (reads_string password hlen).map fun master => Request.unlockLogin master
    obtain ⟨hop, hperform⟩ := controlProcess_requestBytes hbuf (by decide) hr
    simpa [controlProcess, hop] using hperform
  | change original password hempty hsent horiginal hlen hsize =>
    obtain rfl := buildRequest_eq hempty (fun b =>
      (eggBufferAddString_writes b original.val horiginal).wrote.trans
        (eggBufferAddString_writes _ password.val hlen).wrote) hsent
    refine ⟨requestBytes_complete hsize, fun buffer hbuf => ?_⟩
    have hr : Reads controlChangeLogin _ _ := (reads_string original horiginal).bind
      ((reads_string password hlen).map fun master =>
        Request.changeLogin (some original.val) master)
    obtain ⟨hop, hperform⟩ := controlProcess_requestBytes hbuf (by decide) hr
    simpa [controlProcess, hop] using hperform
  | components components envp hempty hsent hlen henvp hsize =>
    have hargs : ∀ b, Wrote b (eggBufferAddStringv (eggBufferAddString b
        (some components.val)).2 (envp.map Subtype.val)).2
        (byteArrayBytes (some components.val) ++ stringvBytes envp) := by
      intro b
      have hv := eggBufferAddStringv_writes (eggBufferAddString b (some components.val)).2
        (envp.map Subtype.val) (by simpa using henvp)
      rw [length_map, flatMap_map] at hv
      exact (eggBufferAddString_writes b components.val hlen).wrote.trans hv.wrote
    obtain rfl := buildRequest_eq hempty hargs hsent
    refine ⟨requestBytes_complete hsize, fun buffer hbuf => ?_⟩
    have hn : envp.length < 0xffffffff := by
      have h1 := length_le_stringvBytes envp
      simp only [requestBytes, length_append] at hsize
      omega
    have hr : Reads controlInitializeComponents _ _ := (reads_string components hlen).bind
      ((reads_stringv envp hn henvp).map fun environment =>
        Request.initializeComponents (some components.val) environment)
    obtain ⟨hop, hperform⟩ := controlProcess_requestBytes hbuf (by decide) hr
    simpa [controlProcess, hop] using hperform
  | quit hempty hsent =>
    obtain rfl : req = requestBytes gkdControlOpQuit [] :=
      buildRequest_eq hempty (fun b => Wrote.refl b) hsent
    refine ⟨requestBytes_complete (by decide), fun buffer hbuf => ?_⟩
    have hr : Reads controlQuit .quit [] := fun req off _ => rfl
    obtain ⟨hop, hperform⟩ := controlProcess_requestBytes hbuf (by decide) hr
    simpa [controlProcess, hop] using hperform

/-! ## The control socket -/

/-- What the control socket promises for an event: no assertion fails and nothing is read outside the
memory, the packet is processed when its last byte arrives, and what a client sent is decoded to what
was passed to it. -/
structure ControlHolds (stream : Bytes) (c : ControlData) (e : Event) : Prop where
  runs : ∃ r, controlInput c e = .ok r
  processed : ∀ again request c', controlInput c e = .ok (again, request, c') →
    (request.isSome = true ↔ Complete (stream ++ arrived c e))
  decoded : ∀ again request c' passed, controlInput c e = .ok (again, request, c') →
    Built (stream ++ arrived c e) passed → request = some passed

/-- In every run of a connection whose events are guarded, every guarded event does what the control
socket promises. -/
theorem control_socket_holds {stream : Bytes} {c : ControlData} {e : Event}
    (hc : Reachable (fun c e => Lawful c e ∧ Guarded c e) stream c) (hl : Lawful c e)
    (hg : Guarded c e) : ControlHolds stream c e := by
  obtain ⟨again, request, c', hinput, hhandled⟩ := hc.isPartial.input hl hg
  refine ⟨⟨_, hinput⟩, ?_, ?_⟩
  · intro again' request' c'' h
    rw [hinput] at h
    cases h
    exact hhandled.processed
  · intro again' request' c'' passed h hbuilt
    rw [hinput] at h
    cases h
    obtain ⟨hcomplete, hdecodes⟩ := hbuilt.spec
    obtain ⟨r, hr⟩ := Option.isSome_iff_exists.1 (hhandled.processed.2 hcomplete)
    have hsame := (hhandled.decoded r hr).symm.trans (hdecodes c'.buffer hhandled.buf)
    rw [hr, Except.ok.inj hsame]

/-- A connection that was given memory, after the credentials. -/
def sampleConnection (buf : Bytes) : ControlData :=
  { buffer := { eggBufferInitFull 128 (fun _ _ => false) with buf := buf }, position := 1 }

/-- Some bytes arrive. -/
def sampleEvent (bytes : Bytes) : Event := ⟨true, false, .uid true, .data bytes⟩

/-- The connection is ready for reading, and has nothing after all. -/
def sampleWake : Event := ⟨true, false, .uid true, .again⟩

theorem sampleConnection_start (C : ControlData → Event → Prop)
    (h : C (controlDataNew true fun _ _ => false) sampleWake) :
    Reachable C [] (sampleConnection []) :=
  .step (e := sampleWake) (.start true fun _ _ => false) h rfl

/-- The bytes behind the size of a packet: initialize the components `ssh`, with no environment. -/
def sampleRest : Bytes := [0, 0, 0, 0, 0, 0, 0, 3, 0x73, 0x73, 0x68, 0, 0, 0, 0]

theorem control_socket_holds_sample :
    Guarded (sampleConnection [0, 0, 0, 19]) (sampleEvent sampleRest) ∧
      ControlHolds [0, 0, 0, 19] (sampleConnection [0, 0, 0, 19]) (sampleEvent sampleRest) := by
  have hstart : Guarded (controlDataNew true fun _ _ => false) sampleWake :=
    ⟨fun h => absurd h (by decide), .inr (by decide), fun h => absurd h.1 (by decide)⟩
  have hsize : Guarded (sampleConnection []) (sampleEvent [0, 0, 0, 19]) :=
    ⟨fun _ => by decide, .inr (by decide), fun h => absurd h.2 (by decide)⟩
  have hguard : Guarded (sampleConnection [0, 0, 0, 19]) (sampleEvent sampleRest) := by
    refine ⟨fun _ => by decide, .inr (by decide), ?_⟩
    rintro - ⟨-, offset, hstring, -⟩
    cases hstring
  have hlawful : ∀ c e, (arrived c e).length ≤ wanted c → Lawful c e := fun _ _ h => h
  refine ⟨hguard, control_socket_holds (.step (e := sampleEvent [0, 0, 0, 19]) (sampleConnection_start _
    ⟨hlawful _ _ (by decide), hstart⟩) ⟨hlawful _ _ (by decide), hsize⟩ rfl) (hlawful _ _ (by decide)) hguard⟩

/-- A packet whose size is four fails an assertion at the next event, and one that names no components
fails one when it is complete; a packet for which no memory is given is read over the end of the buffer. -/
theorem size_four_asserts :
    (∃ stream c e, Reachable Lawful stream c ∧ Lawful c e ∧
      faultOf (controlInput c e) = some .assertion ∧ ¬ ControlHolds stream c e) ∧
    (∃ stream c e, Reachable Lawful stream c ∧ Lawful c e ∧ Complete (stream ++ arrived c e) ∧
      faultOf (controlInput c e) = some .assertion ∧ ¬ ControlHolds stream c e) ∧
    ∃ stream c e, Reachable Lawful stream c ∧ Lawful c e ∧
      faultOf (controlInput c e) = some .outOfBounds ∧ ¬ ControlHolds stream c e := by
  have hstart : Reachable Lawful [] (sampleConnection []) :=
    sampleConnection_start _ (by unfold Lawful; decide)
  have hfour : ∀ n : UInt8, Reachable Lawful [0, 0, 0, n] (sampleConnection [0, 0, 0, n]) := by
    intro n
    refine .step (e := sampleEvent [0, 0, 0, n]) hstart ?_ rfl
    unfold Lawful
    simp [arrived, sampleEvent, ReadResult.bytes, sampleConnection, wanted, EggBuffer.len]
  have hbad : ∀ {stream c e} {f : Fault}, faultOf (controlInput c e) = some f →
      ¬ ControlHolds stream c e := by
    rintro stream c e f hf ⟨⟨r, hr⟩, -, -⟩
    rw [hr] at hf
    simp [faultOf] at hf
  have hassert : faultOf (controlInput (sampleConnection [0, 0, 0, 4]) sampleWake) =
      some .assertion := by decide
  have hnone : faultOf (controlInput (sampleConnection [0, 0, 0, 16])
      (sampleEvent [0, 0, 0, 0, 255, 255, 255, 255, 0, 0, 0, 0])) = some .assertion := by rfl
  have hlawful'' : Lawful (sampleConnection [0, 0, 0, 16])
      (sampleEvent [0, 0, 0, 0, 255, 255, 255, 255, 0, 0, 0, 0]) := by
    unfold Lawful
    decide
  have hover : ∀ bytes : Bytes, bytes.length = 125 →
      faultOf (controlInput (sampleConnection [0, 0, 0, 129]) (sampleEvent bytes)) =
        some .outOfBounds := by
    intro bytes hbytes
    have hget : eggBufferGetUint32 (sampleConnection [0, 0, 0, 129]).buffer 0 =
        .ok (some (129, 4), (sampleConnection [0, 0, 0, 129]).buffer) := rfl
    have hread : readInto (eggBufferReserve (sampleConnection [0, 0, 0, 129]).buffer 129).2
        (.data bytes) = .error .outOfBounds := by
      rw [readInto, hbytes, if_neg (by decide)]
    have hpacket : inputPacket (sampleConnection [0, 0, 0, 129]).buffer (.data bytes) =
        .error .outOfBounds := by
      rw [inputPacket, hget]
      simp only [ok_bind]
      rw [if_neg (by decide), hread, cAssert_of_true (by decide)]
      rfl
    have hinput : controlInput (sampleConnection [0, 0, 0, 129]) (sampleEvent bytes) =
        .error .outOfBounds := by
      rw [controlInput, if_neg (by simp [sampleEvent]), if_neg (by decide), if_neg (by decide),
        sampleEvent, hpacket]
      rfl
    rw [hinput]
    rfl
  have hlawful : Lawful (sampleConnection [0, 0, 0, 4]) sampleWake := by
    unfold Lawful
    decide
  have hlawful' : Lawful (sampleConnection [0, 0, 0, 129]) (sampleEvent (replicate 125 0)) := by
    have hwanted : wanted (sampleConnection [0, 0, 0, 129]) = 125 := rfl
    rw [Lawful, hwanted, arrived, if_pos ⟨rfl, by decide⟩]
    exact Nat.le_of_eq length_replicate
  exact ⟨⟨_, _, _, hfour 4, hlawful, hassert, hbad hassert⟩,
    ⟨_, _, _, hfour 16, hlawful'', by unfold Complete; decide, hnone, hbad hnone⟩,
    _, _, _, hfour 129, hlawful', hover _ length_replicate, hbad (hover _ length_replicate)⟩

end MateKeyring.Control
