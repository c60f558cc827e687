import MateKeyring.Rpc.Transparency
import MateKeyring.Rpc.Results

/-!
# `C_GetAttributeValue` through the daemon and directly

`AttributeStore` is a module that answers `C_GetAttributeValue` by the convention of PKCS#11: it
holds a value for some attributes, and for each attribute of a template it gives the length, fills
the buffer, or marks the entry as not available. `AttributeStore.get` is the direct call. The same
call through the stub, the daemon and back is `rpcCGetAttributeValueCall`; with memory for both
ends and within the sizes of the protocol, the two agree exactly when the template is `Faithful`
(`rpcCGetAttributeValue_faithful`).

The difference is at buffers of length zero: the protocol has one form for a null pointer and for
an empty buffer, and the code that follows the attributes replaces the verdict of the client.
-/

set_option autoImplicit false

namespace MateKeyring.Rpc

open Lib Egg MateKeyring.Rpc.Module Dispatch BigEndian List

variable {resp : GkmRpcMessage} {attr : CkAttribute} {msg : GkmRpcMessage} {b : EggBuffer}
  {cs cs' : Dispatch.CallState} {off : Nat}

/-! ## The convention -/

/-- What an object holds for an attribute. -/
inductive Held where
  | value (v : Bytes)
  | sensitive
  | invalid
  deriving DecidableEq, Repr

/-- What becomes of an entry of a template. -/
def Held.answer (held : Held) (attr : CkAttribute) : CkAttribute :=
  match held with
  | .value v =>
    match attr.pValue with
    | none => { attr with ulValueLen := v.length }
    | some mem =>
      if v.length ≤ attr.ulValueLen then
        { attr with pValue := some (v ++ mem.drop v.length), ulValueLen := v.length }
      else { attr with ulValueLen := ckUnavailable }
  | .sensitive => { attr with ulValueLen := ckUnavailable }
  | .invalid => { attr with ulValueLen := ckUnavailable }

/-- The error that an entry of a template gives rise to. -/
def Held.code (held : Held) (attr : CkAttribute) : Option CkRv :=
  match held with
  | .value v =>
    if attr.pValue.isSome ∧ attr.ulValueLen < v.length then some ckrBufferTooSmall else none
  | .sensitive => some ckrAttributeSensitive
  | .invalid => some ckrAttributeTypeInvalid

/-- A module that keeps the convention. The code of a call is `CKR_OK` when no entry gives rise to
an error, and else one of the errors; which one may depend on everything but the buffers. -/
structure AttributeStore (σ : Type) where
  held : σ → Nat → Nat → Nat → Held
  code : σ → Nat → Nat → List (Nat × Option CkRv) → CkRv
  code_ok : ∀ st session object errs, (∀ e ∈ errs, e.2 = none) → code st session object errs = ckrOk
  code_mem : ∀ st session object errs, (∃ e ∈ errs, e.2 ≠ none) →
    ∃ e ∈ errs, e.2 = some (code st session object errs)

variable {σ : Type}

namespace AttributeStore

variable (store : AttributeStore σ) (st : σ) (session object : Nat)

/-- The entry of a template after a call. -/
def answer (attr : CkAttribute) : CkAttribute := (store.held st session object attr.type).answer attr

/-- The errors of a template. -/
def errors (template : List CkAttribute) : List (Nat × Option CkRv) :=
  template.map fun attr => (attr.type, (store.held st session object attr.type).code attr)

/-- The direct call. -/
def get (template : List CkAttribute) : CkRv × List CkAttribute :=
  (store.code st session object (store.errors st session object template),
    template.map (store.answer st session object))

end AttributeStore

/-- A module that has `C_GetAttributeValue` and answers as a store does. -/
def Dispatch.LowerModule.Follows (m : LowerModule σ) (store : AttributeStore σ) : Prop :=
  m.has .cGetAttributeValue = true ∧ ∀ st session object template,
    let ans := (m.call .cGetAttributeValue
      [.ulong session, .ulong object, .attributeBuffer template] st).1
    (ans.rv, ans.attrs) = store.get st session object template

/-- The sizes the protocol has room for: the request fits a frame, buffers fit the blocks of the
daemon, values fit byte arrays, and so many buffers fit the frame of the response. -/
structure Limits (store : AttributeStore σ) (st : σ) (session object : Nat)
    (template : List CkAttribute) : Prop where
  request : 32 + 8 * template.length < 0x0fffffff
  buffers : ∀ attr ∈ template, attr.bufferLen ≤ 0x7fffffff
  values : ∀ type v, store.held st session object type = .value v → v.length < 0x7fffffff
  response : (template.map fun attr => 13 + attr.bufferLen).sum < 0xffffff00

/-- The templates for which the daemon makes no difference: there is an entry, types have 32 bits,
and no empty buffer is given for a value that is not empty. -/
def Faithful (store : AttributeStore σ) (st : σ) (session object : Nat)
    (template : List CkAttribute) : Prop :=
  template ≠ [] ∧ ∀ attr ∈ template, attr.type < 2 ^ 32 ∧
    ∀ v, store.held st session object attr.type = .value v → attr.pValue.isSome →
      attr.ulValueLen = 0 → v = []

/-! ## Messages that are given memory -/

theorem gkmRpcMessagePrep_granted (h : msg.buffer.Plenty) (c : CallId) (type : GkmRpcMessageType)
    (hlen : (c.signature type).bytes.length < 0x7fffffff) :
    ∃ buffer, gkmRpcMessagePrep msg c.wire type = .ok (true,
        { callId := c.wire, callType := some type, signature := some (c.signature type),
          buffer := buffer, parsed := 0, sigverify := some (c.signature type) }) ∧
      Appended (eggBufferReset msg.buffer) buffer (c.header type) := by
  have hreset : (eggBufferReset msg.buffer).Plenty := h
  have h1 := appended_addUint32 hreset c.wire
  have h2 := h1.trans (@appended_addByteArray _ h1.plenty (some (c.signature type).bytes)
    fun d hd => by
      have hd' : (c.signature type).bytes = d := by simpa using hd
      rw [← hd']
      exact hlen)
  have herr : eggBufferHasError (eggBufferAddByteArray (eggBufferAddUint32
      (eggBufferReset msg.buffer) c.wire).2 (some (c.signature type).bytes)).2 = false := by
    rw [eggBufferHasError, h2.failures]
    rfl
  refine ⟨_, ?_, h2⟩
  simp only [gkmRpcMessagePrep, CallId.ofWire_wire, Option.isSome_some, or_true,
    cAssert_of_true, ok_bind, Option.map_some, pure_eq_ok, herr, Bool.not_false]

/-- A writer of a message that succeeds, and appends `out`. -/
def MsgGives (msg : GkmRpcMessage) (part : Signature) (out : Bytes)
    (r : Checked (Bool × GkmRpcMessage)) : Prop :=
  ∀ rest, Expects msg (part ++ rest) → ∃ buffer,
    r = .ok (true, { msg with buffer := buffer, sigverify := some rest }) ∧
      Appended msg.buffer buffer out

theorem gkmRpcMessageWriteUlong_granted (h : msg.buffer.Plenty) (val : Nat) :
    MsgGives msg [.u] (encode 8 val) (gkmRpcMessageWriteUlong msg val) := by
  intro rest hexp
  have hg := eggBufferAddUint64_granted h val
  refine ⟨_, ?_, hg.appended (eggBufferAddUint64_writes msg.buffer val)⟩
  rw [gkmRpcMessageWriteUlong, assertPart_of_expects hexp]
  simp only [ok_bind, pure_eq_ok, GkmRpcMessage.put, hg.1]

theorem addAttributeBuffers_appended (h : b.Plenty) (arr : List CkAttribute) :
    Appended b (addAttributeBuffers arr b).2 (attributeBufferBytes arr) := by
  induction arr generalizing b with
  | nil => exact ⟨h, by simp [attributeBufferBytes, addAttributeBuffers], rfl⟩
  | cons attr arr ih =>
    have h1 := appended_addUint32 h attr.type
    have h2 := h1.trans (appended_addUint32 h1.plenty attr.bufferLen)
    have h3 := h2.trans (ih h2.plenty)
    simpa [attributeBufferBytes, addAttributeBuffers, writeBoth] using h3

theorem hasError_of_appended {b b' : EggBuffer} {out : Bytes} (h : Appended b b' out)
    (h0 : b.failures = 0) : eggBufferHasError b' = false := by
  rw [eggBufferHasError, h.failures, h0]
  rfl

theorem gkmRpcMessageWriteAttributeBuffer_granted (h : msg.buffer.Plenty) (h0 : msg.buffer.failures = 0)
    (arr : List CkAttribute) :
    MsgGives msg [.f, .attr] (encode 4 arr.length ++ attributeBufferBytes arr)
      (gkmRpcMessageWriteAttributeBuffer msg arr) := by
  intro rest hexp
  have h1 := appended_addUint32 h arr.length
  have h2 := h1.trans (addAttributeBuffers_appended h1.plenty arr)
  refine ⟨_, ?_, h2⟩
  rw [gkmRpcMessageWriteAttributeBuffer, assertPart_of_expects hexp]
  simp only [ok_bind, pure_eq_ok, GkmRpcMessage.put, orError, writeBoth,
    hasError_of_appended h2 h0, Bool.not_false]

theorem addAttribute_appended (hread : attr.Readable) (hsend : attr.Sendable) (h : b.Plenty) :
    ∃ b', addAttribute attr b = .ok b' ∧ Appended b b' (attributeBytes attr) := by
  have h1 := appended_addUint32 h attr.type
  unfold addAttribute attributeBytes
  by_cases hun : attr.ulValueLen = ckUnavailable
  · rw [if_pos hun, if_pos hun]
    exact ⟨_, rfl, h1.trans (appended_addByte h1.plenty 0)⟩
  · rw [if_neg hun, if_neg hun]
    have h2 := appended_addByte h1.plenty 1
    have h3 := appended_addUint32 h2.plenty attr.ulValueLen
    have h4 := @appended_addByteArray _ h3.plenty
      (regionBytes attr.pValue attr.ulValueLen) fun d hd => by
        have hlen := regionBytes_length hread hsend hun hd
        omega
    refine ⟨_, ?_, h1.trans (h2.trans (h3.trans h4))⟩
    cases hp : attr.pValue with
    | none => simp [addRegion, regionBytes]
    | some mem =>
      have hlt : ¬ 0x7fffffff ≤ attr.ulValueLen := by
        have hlt' := hsend hun (by simp [hp])
        omega
      have hle := hread hun mem hp (by omega)
      simp [addRegion, regionBytes, memRead, hle, hlt]

theorem addAttributes_appended {arr : List CkAttribute}
    (hattrs : ∀ attr ∈ arr, attr.Readable ∧ attr.Sendable) (h : b.Plenty) :
    ∃ b', addAttributes arr b = .ok b' ∧ Appended b b' (arr.flatMap attributeBytes) := by
  induction arr generalizing b with
  | nil => exact ⟨b, rfl, h, by simp, rfl⟩
  | cons attr arr ih =>
    obtain ⟨hread, hsend⟩ := hattrs attr (by simp)
    obtain ⟨b₁, h1, hb₁⟩ := addAttribute_appended hread hsend h
    obtain ⟨b₂, h2, hb₂⟩ := ih (fun a ha => hattrs a (by simp [ha])) hb₁.plenty
    exact ⟨b₂, by simp [addAttributes, h1, h2], hb₁.trans hb₂⟩

theorem gkmRpcMessageWriteAttributeArray_granted (h : msg.buffer.Plenty) (h0 : msg.buffer.failures = 0)
    {arr : List CkAttribute} (hattrs : ∀ attr ∈ arr, attr.Readable ∧ attr.Sendable) :
    MsgGives msg [.a, .attr] (encode 4 arr.length ++ arr.flatMap attributeBytes)
      (gkmRpcMessageWriteAttributeArray msg arr) := by
  intro rest hexp
  have h1 := appended_addUint32 h arr.length
  obtain ⟨b', hadd, h2⟩ := addAttributes_appended hattrs h1.plenty
  have h3 := h1.trans h2
  refine ⟨b', ?_, h3⟩
  rw [gkmRpcMessageWriteAttributeArray, assertPart_of_expects hexp]
  simp only [ok_bind, pure_eq_ok, hadd, hasError_of_appended h3 h0, Bool.not_false]

/-! ## The request -/

/-- A message that is being filled in. -/
def GkmRpcMessage.filling (msg : GkmRpcMessage) (buffer : EggBuffer) (rest : Signature) :
    GkmRpcMessage :=
  { msg with buffer := buffer, sigverify := some rest }

theorem orHostMemory_of_gives {msg : GkmRpcMessage} (hsig : msg.signature.isSome = true)
    {b : EggBuffer} {part rest : Signature} {out : Bytes}
    {w : GkmRpcMessage → Checked (Bool × GkmRpcMessage)}
    (hw : MsgGives (msg.filling b (part ++ rest)) part out (w (msg.filling b (part ++ rest)))) :
    ∃ b', orHostMemory w (msg.filling b (part ++ rest)) = .ok (.ok (), msg.filling b' rest) ∧
      Appended b b' out := by
  obtain ⟨b', hr, happ⟩ := hw rest ⟨hsig, rfl⟩
  refine ⟨b', ?_, happ⟩
  unfold orHostMemory
  rw [Prog.bind_of_ok (Prog.run_apply hr)]
  rfl

theorem writeIns_cons {p : InMacro} {ps : List InMacro} {msg msg₁ msg₂ : GkmRpcMessage}
    (h1 : p.write msg = .ok (.ok (), msg₁)) (h2 : writeIns ps msg₁ = .ok (.ok (), msg₂)) :
    writeIns (p :: ps) msg = .ok (.ok (), msg₂) :=
  Prog.bind_eq_ok.2 ⟨(), msg₁, h1, h2⟩

theorem buildRequest_of_ins {s : Stub} {msg msg₁ msg₂ : GkmRpcMessage} (hacc : s.accepts = true)
    (hprep : callPrepare s.call msg = .ok (.ok (), msg₁))
    (hins : writeIns s.ins msg₁ = .ok (.ok (), msg₂))
    (herr : gkmRpcMessageBufferError msg₂ = false) (hver : gkmRpcMessageIsVerified msg₂ = true) :
    buildRequest s msg = .ok (.ok (), msg₂) := by
  unfold buildRequest
  rw [if_pos hacc, Prog.bind_of_ok hprep, Prog.bind_of_ok hins,
    Prog.bind_of_ok (Prog.read_apply _ _), herr]
  simp [Prog.run, hver]

/-- With memory the stub builds the octets of its request. -/
theorem buildRequest_getAttributeValue {req : GkmRpcMessage} (h : req.buffer.Plenty)
    (session object : Nat) (template : List CkAttribute) : ∃ req',
      buildRequest (Module.rpcCGetAttributeValue session object (some template) template.length)
        req = .ok (.ok (), req') ∧
      req'.buffer.buf =
        (Module.rpcCGetAttributeValue session object (some template) template.length).bytes ∧
      req'.callId = CallId.cGetAttributeValue.wire := by
  have hreset : (gkmRpcMessageReset req).buffer.Plenty := h
  obtain ⟨b₀, hprep, h₀⟩ := gkmRpcMessagePrep_granted hreset .cGetAttributeValue .request (by decide)
  let msg : GkmRpcMessage :=
    { callId := CallId.cGetAttributeValue.wire, callType := some .request,
      signature := some [.u, .u, .f, .attr], buffer := b₀, parsed := 0,
      sigverify := some [.u, .u, .f, .attr] }
  have hsig : msg.signature.isSome = true := rfl
  obtain ⟨b₁, hw₁, h₁⟩ := @orHostMemory_of_gives msg hsig b₀ [.u] [.u, .f, .attr] _
    (gkmRpcMessageWriteUlong · session)
    (gkmRpcMessageWriteUlong_granted h₀.plenty session)
  obtain ⟨b₂, hw₂, h₂⟩ := @orHostMemory_of_gives msg hsig b₁ [.u] [.f, .attr] _
    (gkmRpcMessageWriteUlong · object)
    (gkmRpcMessageWriteUlong_granted h₁.plenty object)
  have hfail : b₂.failures = 0 := by rw [h₂.failures, h₁.failures, h₀.failures]; rfl
  obtain ⟨b₃, hw₃, h₃⟩ := @orHostMemory_of_gives msg hsig b₂ [.f, .attr] [] _
    (gkmRpcMessageWriteAttributeBuffer · template)
    (gkmRpcMessageWriteAttributeBuffer_granted h₂.plenty hfail template)
  refine ⟨msg.filling b₃ [], ?_, ?_, rfl⟩
  · have hprep' : callPrepare .cGetAttributeValue req = .ok (.ok (), msg) := by
      unfold callPrepare
      rw [Prog.bind_of_ok (Prog.run_apply hprep)]
      rfl
    have hins : writeIns (Module.rpcCGetAttributeValue session object (some template)
        template.length).ins msg = .ok (.ok (), msg.filling b₃ []) := by
      have hbuf : (InMacro.attributeBuffer (some template) template.length).write
          (msg.filling b₂ [.f, .attr]) = .ok (.ok (), msg.filling b₃ []) := by
        rw [InMacro.write, if_neg (by simp)]
        have helem : elementsOf (some template) template.length (msg.filling b₂ [.f, .attr]) =
            .ok (.ok template, msg.filling b₂ [.f, .attr]) := by
          simp [elementsOf, elements, Prog.run]
        rw [Prog.bind_of_ok helem]
        exact hw₃
      exact writeIns_cons hw₁ (writeIns_cons hw₂ (writeIns_cons hbuf rfl))
    have herr : gkmRpcMessageBufferError (msg.filling b₃ []) = false :=
      hasError_of_appended h₃ hfail
    exact buildRequest_of_ins rfl hprep' hins herr rfl
  · show b₃.buf = _
    rw [h₃.buf_eq, h₂.buf_eq, h₁.buf_eq, h₀.buf_eq]
    simp [Stub.bytes, Module.rpcCGetAttributeValue, stub, InMacro.arg, Arg.bytes,
      gkmRpcMessageReset, eggBufferReset]

/-! ## The daemon -/

/-- An entry as the request carries it. -/
def CkAttribute.wire (attr : CkAttribute) : CkAttribute := { attr with type := attr.type % 2 ^ 32 }

theorem attributeBufferBytes_wire (arr : List CkAttribute) :
    attributeBufferBytes (arr.map CkAttribute.wire) = attributeBufferBytes arr := by
  rw [attributeBufferBytes, flatMap_map]
  apply flatMap_congr
  intro attr _
  have htype : encode 4 (attr.type % 2 ^ 32) = encode 4 attr.type := by
    simpa using @encode_mod 4 4 (Nat.le_refl _) attr.type
  show encode 4 (attr.type % 2 ^ 32) ++ encode 4 attr.bufferLen = _
  rw [htype]

theorem take_map_wire (arr : List CkAttribute) :
    (arr.map CkAttribute.wire).take arr.length = arr.map CkAttribute.wire := by
  rw [← length_map CkAttribute.wire, take_length]

/-- The template the module below is given. -/
def deliveredTemplate (template : List CkAttribute) : List CkAttribute :=
  template.map fun attr => attr.wire.deliveredBuffer

variable {store : AttributeStore σ} {lower : σ} {session object : Nat}
  {template : List CkAttribute}

/-- The handler reads the template from the octets of the request. -/
theorem getAttributeValue_readArgs (hlim : Limits store lower session object template)
    (hs : session < 2 ^ 64) (ho : object < 2 ^ 64) {cs : Dispatch.CallState}
    (hmalloc : ∀ i n, cs.malloc i n = true)
    (hreq : cs.req.buffer.buf =
      (Module.rpcCGetAttributeValue session object (some template) template.length).bytes) :
    gkmRpcMessageParse cs.req .request = .ok (true, cs.req.headed .cGetAttributeValue .request) ∧
      ∃ n off, Dispatch.rpcCGetAttributeValue.readArgs
          { cs with req := cs.req.headed .cGetAttributeValue .request } =
        .ok (.ok [.ulong session, .ulong object, .attributeBuffer (deliveredTemplate template)],
          { cs with req := cs.req.headed .cGetAttributeValue .request }.reach n [] off) := by
  have hcount := hlim.request
  have hplain : Plain (Module.rpcCGetAttributeValue session object
      (some (template.map CkAttribute.wire)) template.length) := by
    refine ⟨?_, ?_, by simp [Module.rpcCGetAttributeValue, stub],
      fun h => by simp [Module.rpcCGetAttributeValue, stub] at h⟩
    · intro arg harg
      simp only [Module.rpcCGetAttributeValue, stub, map_cons, map_nil, InMacro.arg,
        mem_cons, not_mem_nil, or_false] at harg
      rcases harg with rfl | rfl | rfl
      · exact hs
      · exact ho
      · rw [Option.getD_some, take_map_wire]
        refine ⟨by rw [length_map]; omega, ?_⟩
        intro attr hattr
        obtain ⟨a, ha, rfl⟩ := mem_map.1 hattr
        have hbuf := hlim.buffers a ha
        have hsame : a.wire.bufferLen = a.bufferLen := rfl
        exact ⟨Nat.mod_lt _ (by decide), by omega⟩
    · intro arg harg
      simp only [Module.rpcCGetAttributeValue, stub, map_cons, map_nil, InMacro.arg,
        dropLast_cons_cons, dropLast_singleton, mem_cons, not_mem_nil,
        or_false] at harg
      rcases harg with rfl | rfl
      · rfl
      · rfl
  have hbytes : cs.req.buffer.buf = (Module.rpcCGetAttributeValue session object
      (some (template.map CkAttribute.wire)) template.length).bytes := by
    rw [hreq]
    simp [Stub.bytes, Module.rpcCGetAttributeValue, stub, InMacro.arg, Arg.bytes, take_map_wire,
      attributeBufferBytes_wire]
  obtain ⟨h, off, hmatch, hparse, hdel⟩ := readArgs_of_bytes .cGetAttributeValue hplain
    (by
      intro p hp
      simp only [Module.rpcCGetAttributeValue, stub, mem_cons, not_mem_nil, or_false] at hp
      rcases hp with rfl | rfl | rfl <;> exact ⟨trivial, rfl⟩) hbytes
  have hh : Dispatch.rpcCGetAttributeValue = h := Option.some.inj hmatch.handler
  subst hh
  refine ⟨hparse, ?_⟩
  rcases hdel with ⟨n, hread⟩ | ⟨cs', -, size, hsize, href⟩
  · refine ⟨n, off, ?_⟩
    have hargs : ((Module.rpcCGetAttributeValue session object
        (some (template.map CkAttribute.wire)) template.length).ins.map InMacro.arg).map
          Arg.delivered =
        [.ulong session, .ulong object, .attributeBuffer (deliveredTemplate template)] := by
      simp [Module.rpcCGetAttributeValue, stub, InMacro.arg, Arg.delivered, take_map_wire,
        deliveredTemplate]
    rw [hargs] at hread
    exact hread
  · -- no block is refused: all are short enough, and there is memory
    exfalso
    have hshort : size ≤ 0x7fffffff := by
      simp only [Module.rpcCGetAttributeValue, stub, map_cons, map_nil, InMacro.arg,
        Option.getD_some, take_map_wire, flatMap_cons, flatMap_nil, Arg.blocks, nil_append,
        append_nil, length_map, mem_cons, mem_map] at hsize
      rcases hsize with rfl | ⟨a, ⟨b, hb, rfl⟩, rfl⟩
      · omega
      · exact hlim.buffers b hb
    rcases href with hlong | ⟨i, hi⟩
    · omega
    · have hgrant := hmalloc i (8 + size)
      rw [show cs.malloc i (8 + size) = false from hi] at hgrant
      exact absurd hgrant (by decide)

theorem respWrite_of_gives {cs : Dispatch.CallState} {part rest : Signature} {out : Bytes}
    {w : GkmRpcMessage → Checked (Bool × GkmRpcMessage)}
    (hw : MsgGives cs.resp part out (w cs.resp)) (hexp : Expects cs.resp (part ++ rest)) :
    ∃ buffer, respWrite w cs = .ok (.ok true, { cs with resp := cs.resp.filling buffer rest }) ∧
      Appended cs.resp.buffer buffer out := by
  obtain ⟨buffer, hr, happ⟩ := hw rest hexp
  refine ⟨buffer, ?_, happ⟩
  apply Prog.run_apply
  rw [hr]
  rfl

/-- With memory the daemon writes the attributes and the code. -/
theorem protoWriteAttributeArray_granted {cs : Dispatch.CallState} (hplenty : cs.resp.buffer.Plenty)
    (h0 : cs.resp.buffer.failures = 0) (hexp : Expects cs.resp [.a, .attr, .u])
    {arr : List CkAttribute} (hattrs : ∀ attr ∈ arr, attr.Readable ∧ attr.Sendable) {ret : CkRv}
    (hret : passedWithAttributes ret = true) : ∃ buffer,
      protoWriteAttributeArray arr ret cs =
        .ok (.ok ckrOk, { cs with resp := cs.resp.filling buffer [] }) ∧
      Appended cs.resp.buffer buffer (encode 4 arr.length ++
        arr.flatMap attributeBytes ++ encode 8 ret) := by
  obtain ⟨b₁, hw₁, h₁⟩ := @respWrite_of_gives cs [.a, .attr] [.u] _
    (gkmRpcMessageWriteAttributeArray · arr)
    (gkmRpcMessageWriteAttributeArray_granted hplenty h0 hattrs) hexp
  obtain ⟨b₂, hw₂, h₂⟩ := @respWrite_of_gives { cs with resp := cs.resp.filling b₁ [.u] } [.u] [] _
    (gkmRpcMessageWriteUlong · ret)
    (gkmRpcMessageWriteUlong_granted h₁.plenty ret) ⟨hexp.1, rfl⟩
  refine ⟨b₂, ?_, h₁.trans h₂⟩
  have hall : respWriteAll
      [(gkmRpcMessageWriteAttributeArray · arr), (gkmRpcMessageWriteUlong · ret)] cs =
      .ok (.ok true, { cs with resp := cs.resp.filling b₂ [] }) := by
    unfold respWriteAll
    rw [Prog.bind_of_ok hw₁, if_pos rfl]
    unfold respWriteAll
    rw [Prog.bind_of_ok hw₂, if_pos rfl]
    rfl
  unfold protoWriteAttributeArray orPrepError
  rw [if_pos hret, Prog.bind_of_ok hall]
  rfl

/-- The octets of the response. -/
def responseBytes (store : AttributeStore σ) (lower : σ) (session object : Nat)
    (template : List CkAttribute) : Bytes :=
  CallId.cGetAttributeValue.header .response ++
    (encode 4 template.length ++
      ((deliveredTemplate template).map (store.answer lower session object)).flatMap
        attributeBytes ++
      encode 8 (store.get lower session object (deliveredTemplate template)).1)

/-- A store answers with one of the codes that come along with attributes. -/
theorem AttributeStore.passed (store : AttributeStore σ) (lower : σ) (session object : Nat)
    (template : List CkAttribute) :
    passedWithAttributes (store.get lower session object template).1 = true := by
  unfold AttributeStore.get
  by_cases herr : ∃ e ∈ store.errors lower session object template, e.2 ≠ none
  · obtain ⟨e, he, hcode⟩ := store.code_mem lower session object _ herr
    simp only [AttributeStore.errors, mem_map] at he
    obtain ⟨attr, -, rfl⟩ := he
    have hone : ∀ ret, (store.held lower session object attr.type).code attr = some ret →
        passedWithAttributes ret = true := by
      intro ret hc
      unfold Held.code at hc
      split at hc
      · split at hc
        · cases hc
          rfl
        · cases hc
      · cases hc
        rfl
      · cases hc
        rfl
    exact hone _ hcode
  · have hok := store.code_ok lower session object
      (store.errors lower session object template) fun e he => by
        by_contra hne
        exact herr ⟨e, he, hne⟩
    rw [hok]
    rfl

/-- What the store answers for the template it is given can be sent. -/
theorem answer_sendable (hvalues : ∀ type v, store.held lower session object type = .value v →
      v.length < 0x7fffffff) (attr : CkAttribute) :
    (store.answer lower session object attr.deliveredBuffer).Readable ∧
      (store.answer lower session object attr.deliveredBuffer).Sendable := by
  unfold AttributeStore.answer
  cases hheld : store.held lower session object attr.deliveredBuffer.type with
  | sensitive => exact ⟨fun hne => absurd rfl hne, fun hne => absurd rfl hne⟩
  | invalid => exact ⟨fun hne => absurd rfl hne, fun hne => absurd rfl hne⟩
  | value v =>
    have hv := hvalues _ v hheld
    unfold CkAttribute.deliveredBuffer Held.answer
    by_cases h0 : attr.bufferLen = 0
    · rw [if_pos h0]
      exact ⟨fun _ mem hmem => by simp at hmem, fun _ hsome => by simp at hsome⟩
    · rw [if_neg h0]
      dsimp only
      by_cases hle : v.length ≤ attr.bufferLen
      · rw [if_pos hle]
        refine ⟨?_, fun _ _ => hv⟩
        intro _ mem hmem _
        have hmem' : v ++ (replicate attr.bufferLen 0xff).drop v.length = mem := by
          simpa using hmem
        rw [← hmem']
        simp
      · rw [if_neg hle]
        exact ⟨fun hne => absurd rfl hne, fun hne => absurd rfl hne⟩

theorem response_bytes_length :
    (CallId.cGetAttributeValue.signature .response).bytes.length < 0x7fffffff := by decide

theorem Dispatch.Handler.process_eq {h : Handler} {m : LowerModule σ} {args : List Arg} {s s' : σ}
    {ans : Answer} {ret : CkRv} (hcall : m.call h.call (h.args cs args) s = (ans, s'))
    (houts : writeOuts h.outs args ans ans.rv { cs with applicationId := ans.applicationId } =
      .ok (.ok ret, cs')) : h.process m args cs s = .ok (ret, cs', s') := by
  simp [Handler.process, hcall, houts]

theorem Dispatch.Handler.run_eq {h : Handler} {m : LowerModule σ} {args : List Arg} {s : σ}
    (hhas : m.has h.call = true) (hread : h.readArgs cs = .ok (.ok args, cs')) :
    h.run m cs s = h.process m args cs' s := by
  simp [Handler.run, hhas, hread]

theorem dispatchCall_eq {m : LowerModule σ} {c : CallId} {s s' : σ} (hid : cs.req.callId = c.wire)
    (hprep : gkmRpcMessagePrep cs.resp c.wire .response = .ok (true, resp))
    (hcall : rpcCall m c { cs with resp } s = .ok (ckrOk, cs', s'))
    (hresp : gkmRpcMessageBufferError cs'.resp = false) (hreq : gkmRpcMessageBufferError cs'.req = false)
    (hver : gkmRpcMessageIsVerified cs'.resp = true) (htype : cs'.resp.callType = some .response)
    (hsame : cs'.resp.callId = cs'.req.callId) (hsig : cs'.resp.signature = some c.response) :
    dispatchCall m cs s = .ok (true, cs', s') := by
  have hpos : 0 < cs.req.callId := by
    rw [hid]
    exact c.wire_pos
  have hle : cs.req.callId ≤ CallId.all.length := by
    rw [hid]
    cases c <;> decide
  have hret : checkedRet ckrOk cs' = ckrOk := by simp [checkedRet, hresp, hreq]
  unfold dispatchCall
  rw [cAssert_of_true hpos, cAssert_of_true hle]
  simp [hid, hprep, CallId.ofWire_wire, hcall, hret, cAssert, hver, htype, hsame, hsig]

section

variable {m : LowerModule σ} (hm : m.Follows store) (hlim : Limits store lower session object template)

include hm hlim

/-- The rest of the handler, in a call state whose response has just been prepared. -/
theorem getAttributeValue_process {cs : Dispatch.CallState}
    (hplenty : cs.resp.buffer.Plenty) (h0 : cs.resp.buffer.failures = 0)
    (hexp : Expects cs.resp [.a, .attr, .u]) : ∃ buffer applicationId lower',
      Dispatch.rpcCGetAttributeValue.process m
          [.ulong session, .ulong object, .attributeBuffer (deliveredTemplate template)] cs lower =
        .ok (ckrOk, { cs with applicationId, resp := cs.resp.filling buffer [] }, lower') ∧
      Appended cs.resp.buffer buffer (encode 4 template.length ++
        ((deliveredTemplate template).map (store.answer lower session object)).flatMap
          attributeBytes ++
        encode 8 (store.get lower session object (deliveredTemplate template)).1) := by
  obtain ⟨-, hget⟩ := hm
  have hans := hget lower session object (deliveredTemplate template)
  dsimp only at hans
  generalize hcall : m.call .cGetAttributeValue
    [.ulong session, .ulong object, .attributeBuffer (deliveredTemplate template)] lower = r at hans
  obtain ⟨ans, lower'⟩ := r
  have hrv : ans.rv = (store.get lower session object (deliveredTemplate template)).1 :=
    congrArg Prod.fst hans
  have hattrs : ans.attrs = (deliveredTemplate template).map (store.answer lower session object) :=
    congrArg Prod.snd hans
  have hpassed : passedWithAttributes ans.rv = true := by
    rw [hrv]
    exact store.passed lower session object _
  have hsendable : ∀ attr ∈ ans.attrs, attr.Readable ∧ attr.Sendable := by
    rw [hattrs, deliveredTemplate, map_map]
    intro attr hattr
    obtain ⟨a, -, rfl⟩ := mem_map.1 hattr
    exact answer_sendable hlim.values a.wire
  obtain ⟨buffer, hwrite, happ⟩ :=
    @protoWriteAttributeArray_granted { cs with applicationId := ans.applicationId } hplenty h0 hexp
      ans.attrs hsendable ans.rv hpassed
  have hlen : ans.attrs.length = template.length := by
    rw [hattrs, length_map, deliveredTemplate, length_map]
  refine ⟨buffer, ans.applicationId, lower', ?_, ?_⟩
  · have houts : writeOuts [.attributeArray]
        [.ulong session, .ulong object, .attributeBuffer (deliveredTemplate template)] ans ans.rv
        { cs with applicationId := ans.applicationId } =
        .ok (.ok ckrOk, { cs with
          applicationId := ans.applicationId, resp := cs.resp.filling buffer [] }) := by
      exact Prog.bind_eq_ok.2 ⟨ckrOk, _, hwrite, rfl⟩
    exact Handler.process_eq hcall houts
  · rw [hlen, hattrs, hrv] at happ
    exact happ

/-- With memory the daemon answers a request for attributes with those of the store. -/
theorem dispatchCall_getAttributeValue (hs : session < 2 ^ 64)
    (ho : object < 2 ^ 64) {cs : Dispatch.CallState} (hmalloc : ∀ i n, cs.malloc i n = true)
    (hresp : cs.resp.buffer.Plenty) (h0 : cs.req.buffer.failures = 0)
    (hreq : cs.req.buffer.buf =
      (Module.rpcCGetAttributeValue session object (some template) template.length).bytes) :
    ∃ cs' lower', dispatchCall m
        { cs with req := cs.req.headed .cGetAttributeValue .request } lower =
          .ok (true, cs', lower') ∧
      cs'.resp.buffer.buf = responseBytes store lower session object template := by
  obtain ⟨b₀, hprep, h₀⟩ :=
    gkmRpcMessagePrep_granted hresp .cGetAttributeValue .response response_bytes_length
  have hfail : b₀.failures = 0 := h₀.failures
  let resp₀ : GkmRpcMessage :=
    { callId := CallId.cGetAttributeValue.wire, callType := some .response,
      signature := some CallId.cGetAttributeValue.response, buffer := b₀, parsed := 0,
      sigverify := some CallId.cGetAttributeValue.response }
  obtain ⟨-, n, off, hread⟩ := @getAttributeValue_readArgs σ store lower session object template
    hlim hs ho { cs with resp := resp₀ } hmalloc hreq
  obtain ⟨buffer, applicationId, lower', hprocess, happ⟩ :=
    @getAttributeValue_process σ store lower session object template m hm hlim
      ({ cs with resp := resp₀, req := cs.req.headed .cGetAttributeValue .request }.reach n [] off)
      h₀.plenty hfail ⟨rfl, rfl⟩
  have hrun : rpcCall m .cGetAttributeValue
      { cs with resp := resp₀, req := cs.req.headed .cGetAttributeValue .request } lower =
      .ok (ckrOk, { { cs with
        resp := resp₀, req := cs.req.headed .cGetAttributeValue .request }.reach n [] off with
          applicationId, resp := resp₀.filling buffer [] }, lower') := by
    show Handler.run _ m _ lower = _
    rw [Handler.run_eq hm.1 hread]
    exact hprocess
  refine ⟨{ { cs with
      resp := resp₀, req := cs.req.headed .cGetAttributeValue .request }.reach n [] off with
        applicationId, resp := resp₀.filling buffer [] }, lower', ?_, ?_⟩
  · have hrespok : eggBufferHasError buffer = false := hasError_of_appended happ hfail
    have hreqok : eggBufferHasError cs.req.buffer = false := by
      rw [eggBufferHasError, h0]
      rfl
    exact dispatchCall_eq rfl hprep hrun hrespok hreqok rfl rfl rfl rfl
  · show buffer.buf = _
    rw [happ.buf_eq]
    show b₀.buf ++ _ = _
    rw [h₀.buf_eq]
    rfl

end

/-! ## The loop of the daemon -/

/-- A connection of the daemon with memory, whose frames can be sent. -/
structure Served (st : LoopState σ) : Prop where
  req : st.cs.req.buffer.Plenty
  resp : st.cs.resp.buffer.Plenty
  malloc : ∀ i n, st.cs.malloc i n = true
  canSend : ∀ i, st.canSend i = true

theorem readAll_append {xs ys : Bytes} {n : Nat} (hn : n = xs.length) (hpos : 0 < n) :
    readAll (xs ++ ys) n = .ok (some (xs, ys)) := by
  subst hn
  simp [readAll, hpos]

/-- Reserving and filling an empty buffer that grows. -/
theorem reserve_and_fill (h : b.Plenty) (hbuf : b.buf = []) (data : Bytes) :
    ∃ b', eggBufferReserve b (b.len + data.length) = (true, b') ∧
      data.length ≤ b'.allocatedLen ∧ b'.failures = b.failures ∧
      (eggBufferAddEmpty b' data).2.buf = data ∧
      (eggBufferAddEmpty b' data).2.failures = b.failures := by
  obtain ⟨hok, hplenty⟩ := eggBufferReserve_granted h (b.len + data.length)
  rcases eggBufferReserve_cases b (b.len + data.length) with
    ⟨b', hres, hb, hf, hle, -⟩ | ⟨b', hres, -⟩
  · rw [hres] at hplenty
    obtain ⟨hadd, -⟩ := eggBufferAppend_granted hplenty data
    obtain ⟨h1, h2⟩ := (eggBufferAppend_writes b' data).ok hadd
    refine ⟨b', hres, by omega, hf, ?_, ?_⟩
    · show (eggBufferAppend b' data).2.buf = data
      rw [h1, hb, hbuf, nil_append]
    · show (eggBufferAppend b' data).2.failures = b.failures
      rw [h2, hf]
  · rw [hres] at hok
    simp at hok

/-- A frame whose request parses is received. -/
theorem receiveRequest_eq {req : GkmRpcMessage} (h : req.buffer.Plenty) (hbuf : req.buffer.buf = [])
    (h0 : req.buffer.failures = 0) {request : Bytes} (hne : request ≠ []) {c : CallId}
    (hparse : ∀ buffer : EggBuffer, buffer.buf = request →
      gkmRpcMessageParse { req with buffer := buffer } .request =
        .ok (true, GkmRpcMessage.headed { req with buffer := buffer } c .request)) :
    ∃ buffer : EggBuffer, buffer.buf = request ∧ buffer.failures = 0 ∧
      receiveRequest req request request.length =
        .ok (some (GkmRpcMessage.headed { req with buffer := buffer } c .request, [])) := by
  obtain ⟨b', hres, hle, hf, hbuf', hf'⟩ := reserve_and_fill h hbuf request
  refine ⟨(eggBufferAddEmpty b' request).2, hbuf', by rw [hf', h0], ?_⟩
  have herr : eggBufferHasError b' = false := by
    rw [eggBufferHasError, hf, h0]
    rfl
  have hread : readAll request request.length = .ok (some (request, [])) := by
    have hpos : 0 < request.length := length_pos_iff.2 hne
    simpa using @readAll_append request [] request.length rfl hpos
  have hroom : ¬ b'.allocatedLen < request.length := by omega
  unfold receiveRequest
  rw [hres]
  simp [herr, hread, hroom, hparse _ hbuf']

theorem attributeBufferBytes_length (arr : List CkAttribute) :
    (attributeBufferBytes arr).length = 8 * arr.length := by
  induction arr with
  | nil => rfl
  | cons attr arr ih =>
    rw [attributeBufferBytes, flatMap_cons, length_append, ← attributeBufferBytes, ih]
    simp
    omega

theorem getAttributeValue_bytes_length (session object : Nat) (template : List CkAttribute) :
    (Module.rpcCGetAttributeValue session object (some template) template.length).bytes.length =
      32 + 8 * template.length := by
  have hheader : (CallId.cGetAttributeValue.header .request).length = 12 := by decide
  simp [Stub.bytes, Module.rpcCGetAttributeValue, stub, InMacro.arg, Arg.bytes, hheader,
    attributeBufferBytes_length]
  omega

/-- With memory the daemon answers the request with one frame. -/
theorem daemonAnswers_getAttributeValue {m : LowerModule σ} (hm : m.Follows store)
    {st : LoopState σ} (hst : Served st) (hlim : Limits store st.lower session object template)
    (hs : session < 2 ^ 64) (ho : object < 2 ^ 64) :
    daemonAnswers m st
        (Module.rpcCGetAttributeValue session object (some template) template.length).bytes =
      .ok (some (eggBufferEncodeUint32
          (responseBytes store st.lower session object template).length ++
        responseBytes store st.lower session object template)) := by
  have hlen := getAttributeValue_bytes_length session object template
  have hcount := hlim.request
  generalize hreq :
    (Module.rpcCGetAttributeValue session object (some template) template.length).bytes = request
    at hlen
  have hne : request ≠ [] := by
    intro h
    rw [h, length_nil] at hlen
    omega
  -- the request is received and parsed
  obtain ⟨buffer, hbuf, h0, hrecv⟩ := @receiveRequest_eq (callReset st.cs).req hst.req rfl rfl
    request hne .cGetAttributeValue fun buffer hb =>
      (@getAttributeValue_readArgs σ store st.lower session object template hlim hs ho
        { st.cs with req := { (callReset st.cs).req with buffer := buffer } } hst.malloc
        (by rw [hreq]; exact hb)).1
  -- it is dispatched to the handler
  obtain ⟨cs', lower', hdisp, hresp⟩ := @dispatchCall_getAttributeValue σ store st.lower session
    object template m hm hlim hs ho
    { callReset st.cs with req := { (callReset st.cs).req with buffer := buffer } } hst.malloc
    hst.resp h0 (by rw [hreq]; exact hbuf)
  have hsend : sendFrame cs'.resp = .ok (eggBufferEncodeUint32
      (responseBytes store st.lower session object template).length ++
        responseBytes store st.lower session object template) := by
    have hpos : 0 < cs'.resp.buffer.len := by
      rw [EggBuffer.len, hresp, responseBytes, length_append]
      have hheader : (CallId.cGetAttributeValue.header .response).length = 11 := by decide
      omega
    rw [sendFrame, cAssert_of_true hpos, EggBuffer.len, hresp]
    rfl
  have hserve : serveFrame m { st with input := eggBufferEncodeUint32 request.length ++ request }
      request request.length = .ok (some { st with
        cs := cs', input := []
        output := st.output ++ [eggBufferEncodeUint32
          (responseBytes store st.lower session object template).length ++
            responseBytes store st.lower session object template]
        lower := lower' }) := by
    unfold serveFrame
    rw [if_neg (by omega)]
    dsimp only
    rw [hrecv, ok_bind]
    dsimp only
    rw [show dispatchCall m { callReset st.cs with
      req := GkmRpcMessage.headed { (callReset st.cs).req with buffer := buffer }
        .cGetAttributeValue .request } st.lower = .ok (true, cs', lower') from hdisp, ok_bind]
    simp [hsend, hst.canSend]
  have hround : dispatchRound m
      { st with input := eggBufferEncodeUint32 request.length ++ request } = .ok (some { st with
        cs := cs', input := []
        output := st.output ++ [eggBufferEncodeUint32
          (responseBytes store st.lower session object template).length ++
            responseBytes store st.lower session object template]
        lower := lower' }) := by
    unfold dispatchRound
    dsimp only
    rw [@readAll_append (eggBufferEncodeUint32 request.length) request 4 rfl (by decide), ok_bind]
    dsimp only
    rw [decode_encodeUint32 (by omega)]
    exact hserve
  unfold daemonAnswers
  rw [hround, ok_bind]
  simp

/-! ## The response -/

theorem receiveBody_eq {resp resp' : GkmRpcMessage} {input data tail : Bytes} {len : Nat} {ok : Bool}
    (hres : eggBufferReserve resp.buffer (len + resp.buffer.len) = (true, b))
    (hread : readAll input len = .ok (some (data, tail))) (hroom : ¬ b.allocatedLen < data.length)
    (hparse : gkmRpcMessageParse { resp with buffer := (eggBufferAddEmpty b data).2 } .response =
      .ok (ok, resp')) : receiveBody resp input len = .ok (.ok resp') := by
  simp [receiveBody, hres, hread, hroom, hparse]

/-- A frame with a response that starts with the header of a call is received. -/
theorem receiveResponse_eq {resp : GkmRpcMessage} (h : resp.buffer.Plenty)
    (hbuf : resp.buffer.buf = []) (h0 : resp.buffer.failures = 0) {body : Bytes}
    (hne : body ≠ []) (hlen : body.length < 2 ^ 32) {c : CallId}
    (hsig : (c.signature .response).bytes.length < 0x7fffffff)
    (hat : HasAt body 0 (c.header .response)) :
    ∃ buffer : EggBuffer, buffer.buf = body ∧ buffer.failures = 0 ∧
      receiveResponse resp (eggBufferEncodeUint32 body.length ++ body) =
        .ok (.ok (GkmRpcMessage.headed { resp with buffer := buffer } c .response)) := by
  obtain ⟨b', hres, hle, -, hbuf', hf'⟩ := reserve_and_fill h hbuf body
  refine ⟨(eggBufferAddEmpty b' body).2, hbuf', by rw [hf', h0], ?_⟩
  have hread : readAll body body.length = .ok (some (body, [])) := by
    have hpos : 0 < body.length := length_pos_iff.2 hne
    simpa using @readAll_append body [] body.length rfl hpos
  have hroom : ¬ b'.allocatedLen < body.length := by omega
  have hparse := @gkmRpcMessageParse_header
    { resp with buffer := (eggBufferAddEmpty b' body).2 } c .response hsig (by rw [hbuf']; exact hat)
  unfold receiveResponse
  rw [@readAll_append (eggBufferEncodeUint32 body.length) body 4 rfl (by decide), ok_bind]
  dsimp only
  rw [decode_encodeUint32 hlen]
  exact receiveBody_eq (by rw [Nat.add_comm, hres]) hread hroom hparse

/-- A response of the call that was made passes the checks. -/
theorem checkResponse_eq {c : CallId} (hid : resp.callId = c.wire) (h0 : resp.buffer.failures = 0) :
    checkResponse c.wire resp = .ok (.ok (), resp) := by
  have hne : ¬ resp.callId = 0 := by
    rw [hid]
    exact Nat.pos_iff_ne_zero.1 c.wire_pos
  have herr : gkmRpcMessageBufferError resp = false := by
    rw [gkmRpcMessageBufferError, eggBufferHasError, h0]
    rfl
  unfold checkResponse
  rw [Prog.bind_of_ok (Prog.read_apply _ _), if_neg hne, Prog.bind_of_ok (Prog.read_apply _ _),
    if_neg (by rw [hid]; simp)]
  simp [Prog.run, herr]

theorem getOrParseError_eq {α : Type} {r : Getter α}
    {val : Bytes → Nat → Option (α × Nat)} (h : Reads r val) {v : α} {off off' : Nat}
    (hv : val resp.buffer.buf off = some (v, off')) :
    getOrParseError r { resp with parsed := off } = .ok (.ok v, { resp with parsed := off' }) := by
  have hget : GkmRpcMessage.get { resp with parsed := off } r =
      .ok (some v, { resp with parsed := off' }) := by
    rw [GkmRpcMessage.get_eq h]
    show Except.ok (GkmRpcMessage.got _ (val resp.buffer.buf off)) = _
    rw [hv]
    rfl
  unfold getOrParseError
  rw [Prog.bind_of_ok (Prog.run_apply hget)]
  rfl

/-- The outcome of reading the attribute `w` into the caller's entry `attr`. -/
def readInto (attr w : CkAttribute) (resp : GkmRpcMessage) :
    Checked (Except CkRv (CkAttribute × CkRv) × GkmRpcMessage) :=
  if attr.type ≠ w.type then .ok (.error ckrDeviceError, resp)
  else if w.ulValueLen = ckUnavailable then
    .ok (.ok ({ attr with ulValueLen := ckUnavailable }, ckrOk), resp)
  else
    match stuff attr w.ulValueLen (regionBytes w.pValue w.ulValueLen) with
    | .error f => .error f
    | .ok r => .ok (.ok r, resp)

theorem readAttribute_eq {attr w : CkAttribute} (hread : w.Readable) (hsend : w.Sendable)
    (htype : w.type < 2 ^ 32) (hlen : w.ulValueLen ≠ ckUnavailable → w.ulValueLen < 2 ^ 32)
    (hat : HasAt resp.buffer.buf off (attributeBytes w)) :
    Module.readAttribute attr { resp with parsed := off } =
      readInto attr w { resp with parsed := off + (attributeBytes w).length } := by
  unfold attributeBytes at hat ⊢
  unfold Module.readAttribute readInto
  rw [Prog.bind_of_ok (getOrParseError_eq reads_getUint32 (uint32At_of_hasAt hat.left htype))]
  have hvalid := hat.right
  rw [length_encode] at hvalid
  by_cases hun : w.ulValueLen = ckUnavailable
  · rw [if_pos hun] at hvalid
    rw [if_pos hun, if_pos hun, Prog.bind_of_ok
      (getOrParseError_eq reads_getByte (byteAt_of_hasAt hvalid)), if_pos rfl]
    simp only [length_append, length_encode, length_singleton, ← Nat.add_assoc]
    split <;> rfl
  · rw [if_neg hun] at hvalid
    have hvalue := hvalid.right
    rw [length_singleton] at hvalue
    have hdata := byteArrayAt_of_hasAt hvalue.right fun d hd => by
      have h := regionBytes_length hread hsend hun hd
      omega
    rw [length_encode] at hdata
    have hmatch : ¬ ((regionBytes w.pValue w.ulValueLen).isSome = true ∧
        w.ulValueLen ≠ ((regionBytes w.pValue w.ulValueLen).getD []).length) := by
      rintro ⟨hsome, hne⟩
      obtain ⟨d, hd⟩ := Option.isSome_iff_exists.1 hsome
      rw [hd, Option.getD_some] at hne
      exact hne (regionBytes_length hread hsend hun hd).1.symm
    rw [if_neg hun, if_neg hun, Prog.bind_of_ok
      (getOrParseError_eq reads_getByte (byteAt_of_hasAt hvalid)), if_neg (by decide),
      Prog.bind_of_ok (getOrParseError_eq reads_getUint32
        (uint32At_of_hasAt hvalue.left (hlen hun))),
      Prog.bind_of_ok (getOrParseError_eq reads_getByteArray hdata), if_neg hmatch]
    simp only [length_append, length_encode, length_singleton, ← Nat.add_assoc]
    split
    · rfl
    · unfold Prog.run
      cases stuff attr w.ulValueLen (regionBytes w.pValue w.ulValueLen) <;> rfl

/-- The caller's entry after the response was read: for an empty buffer it holds the length the
value has, as for a null pointer. -/
def received (held : Held) (attr : CkAttribute) : CkAttribute :=
  match held with
  | .value v =>
    if attr.pValue.isSome ∧ attr.ulValueLen = 0 then { attr with ulValueLen := v.length }
    else held.answer attr
  | _ => held.answer attr

theorem wire_eq (htype : attr.type < 2 ^ 32) : attr.wire = attr := by
  unfold CkAttribute.wire
  rw [Nat.mod_eq_of_lt htype]

theorem deliveredBuffer_type (attr : CkAttribute) : attr.deliveredBuffer.type = attr.type := by
  unfold CkAttribute.deliveredBuffer
  split <;> rfl

theorem answer_type (held : Held) (attr : CkAttribute) : (held.answer attr).type = attr.type := by
  unfold Held.answer
  split
  · split
    · rfl
    · split <;> rfl
  · rfl
  · rfl

variable {held : Held}

/-- Reading what was answered for the entry that was delivered. -/
theorem readInto_answer (hmem : ∀ mem, attr.pValue = some mem → attr.ulValueLen ≤ mem.length)
    (hv : ∀ v, held = .value v → v.length < 0x7fffffff) (resp : GkmRpcMessage) :
    ∃ verdict, readInto attr (held.answer attr.deliveredBuffer) resp =
      .ok (.ok (received held attr, verdict), resp) := by
  have htype : ¬ attr.type ≠ (held.answer attr.deliveredBuffer).type := by
    rw [answer_type, deliveredBuffer_type]
    simp
  rw [readInto, if_neg htype]
  cases held with
  | sensitive => exact ⟨ckrOk, rfl⟩
  | invalid => exact ⟨ckrOk, rfl⟩
  | value v =>
    have hlt := hv v rfl
    have hne : ¬ v.length = ckUnavailable := by
      show ¬ v.length = 2 ^ 64 - 1
      omega
    cases hp : attr.pValue with
    | none =>
      -- a null pointer: only the length is asked for
      have hb0 : attr.bufferLen = 0 := by simp [CkAttribute.bufferLen, hp]
      refine ⟨ckrOk, ?_⟩
      rw [CkAttribute.deliveredBuffer, if_pos hb0]
      simp [Held.answer, hne, stuff, hp, received]
    | some mem =>
      by_cases h0 : attr.ulValueLen = 0
      · -- an empty buffer is sent as a null pointer
        have hb0 : attr.bufferLen = 0 := by simp [CkAttribute.bufferLen, h0]
        rw [CkAttribute.deliveredBuffer, if_pos hb0]
        by_cases hnil : v = []
        · refine ⟨ckrOk, ?_⟩
          simp [Held.answer, stuff, hp, received, h0, hnil, regionBytes]
        · have hpos : 0 < v.length := length_pos_iff.2 hnil
          refine ⟨ckrBufferTooSmall, ?_⟩
          simp [Held.answer, hne, stuff, hp, received, h0, hpos]
      · have hblen : attr.bufferLen = attr.ulValueLen := by simp [CkAttribute.bufferLen, hp]
        rw [CkAttribute.deliveredBuffer, hblen, if_neg h0]
        by_cases hle : v.length ≤ attr.ulValueLen
        · have hroom : v.length ≤ mem.length := le_trans hle (hmem mem hp)
          have hnlt : ¬ attr.ulValueLen < v.length := by omega
          refine ⟨ckrOk, ?_⟩
          simp [Held.answer, hle, hne, stuff, hp, hnlt, received, h0, regionBytes, copyInto, hroom]
        · refine ⟨ckrOk, ?_⟩
          simp [Held.answer, hle, received, hp, h0]

/-- The lengths of what is answered fit 32 bits. -/
theorem answer_length_lt (hvalues : ∀ type v, store.held lower session object type = .value v →
      v.length < 0x7fffffff) (attr : CkAttribute)
    (hne : (store.answer lower session object attr).ulValueLen ≠ ckUnavailable) :
    (store.answer lower session object attr).ulValueLen < 2 ^ 32 := by
  unfold AttributeStore.answer at hne ⊢
  cases hheld : store.held lower session object attr.type with
  | sensitive =>
    rw [hheld] at hne
    exact absurd rfl hne
  | invalid =>
    rw [hheld] at hne
    exact absurd rfl hne
  | value v =>
    rw [hheld] at hne
    have hv := hvalues _ v hheld
    unfold Held.answer at hne ⊢
    dsimp only at hne ⊢
    split
    · dsimp only
      omega
    · split
      · dsimp only
        omega
      · rename_i mem hmem hle
        rw [hmem] at hne
        dsimp only at hne
        rw [if_neg hle] at hne
        exact absurd rfl hne

/-- The octets of the attributes of the response. -/
def answeredBytes (store : AttributeStore σ) (lower : σ) (session object : Nat)
    (template : List CkAttribute) : Bytes :=
  ((deliveredTemplate template).map (store.answer lower session object)).flatMap attributeBytes

theorem readAttribute_answer (hvalues : ∀ type v,
      store.held lower session object type = .value v → v.length < 0x7fffffff) (attr : CkAttribute)
    (hat : HasAt resp.buffer.buf off
      (attributeBytes (store.answer lower session object attr.wire.deliveredBuffer))) :
    Module.readAttribute attr { resp with parsed := off } =
      readInto attr (store.answer lower session object attr.wire.deliveredBuffer)
        { resp with parsed := off +
          (attributeBytes (store.answer lower session object attr.wire.deliveredBuffer)).length } := by
  obtain ⟨hread, hsend⟩ := answer_sendable hvalues attr.wire
  have htype : (store.answer lower session object attr.wire.deliveredBuffer).type < 2 ^ 32 := by
    rw [AttributeStore.answer, answer_type, deliveredBuffer_type]
    exact Nat.mod_lt _ (by decide)
  exact readAttribute_eq hread hsend htype (answer_length_lt hvalues _) hat

theorem answeredBytes_cons (attr : CkAttribute) :
    answeredBytes store lower session object (attr :: template) =
      attributeBytes (store.answer lower session object attr.wire.deliveredBuffer) ++
        answeredBytes store lower session object template := by
  rw [answeredBytes, deliveredTemplate, map_cons, map_cons, flatMap_cons]
  rfl

section

variable (hvalues : ∀ type v, store.held lower session object type = .value v → v.length < 0x7fffffff)

include hvalues

/-- One round of the client's loop, for an entry whose type has 32 bits. -/
theorem readAttribute_received (htype : attr.type < 2 ^ 32)
    (hmem : ∀ mem, attr.pValue = some mem → attr.ulValueLen ≤ mem.length)
    (hat : HasAt resp.buffer.buf off
      (attributeBytes (store.answer lower session object attr.wire.deliveredBuffer))) :
    ∃ verdict, Module.readAttribute attr { resp with parsed := off } =
      .ok (.ok (received (store.held lower session object attr.type) attr, verdict),
        { resp with parsed := off + (attributeBytes
          (store.answer lower session object attr.wire.deliveredBuffer)).length }) := by
  rw [readAttribute_answer hvalues attr hat, wire_eq htype, AttributeStore.answer,
    deliveredBuffer_type]
  exact readInto_answer hmem (fun v hv => hvalues _ v hv) _

/-- The loop of the client over the attributes of the response. -/
theorem readAttributes_received
    (hmem : ∀ attr ∈ template, ∀ mem, attr.pValue = some mem → attr.ulValueLen ≤ mem.length)
    (htypes : ∀ attr ∈ template, attr.type < 2 ^ 32) {resp : GkmRpcMessage} {off : Nat}
    (hat : HasAt resp.buffer.buf off (answeredBytes store lower session object template))
    (ret : CkRv) : ∃ verdict, Module.readAttributes template ret { resp with parsed := off } =
      .ok (.ok verdict,
        template.map fun attr => received (store.held lower session object attr.type) attr,
        { resp with parsed :=
          off + (answeredBytes store lower session object template).length }) := by
  induction template generalizing off ret with
  | nil => exact ⟨ret, rfl⟩
  | cons attr template ih =>
    rw [answeredBytes_cons] at hat
    obtain ⟨verdict, hone⟩ := readAttribute_received hvalues (htypes attr (by simp))
      (hmem attr (by simp)) hat.left
    obtain ⟨verdicts, hrest⟩ := ih (fun a ha => hmem a (by simp [ha]))
      (fun a ha => htypes a (by simp [ha])) hat.right (if verdict = ckrOk then ret else verdict)
    refine ⟨verdicts, ?_⟩
    rw [answeredBytes_cons, length_append, ← Nat.add_assoc]
    simp [Module.readAttributes, hone, hrest]

/-- A type that does not fit 32 bits comes back as another one, which the client takes for a
wrong order. -/
theorem readAttributes_wrong_type
    (hmem : ∀ attr ∈ template, ∀ mem, attr.pValue = some mem → attr.ulValueLen ≤ mem.length)
    (hwrong : ¬ ∀ attr ∈ template, attr.type < 2 ^ 32) {resp : GkmRpcMessage} {off : Nat}
    (hat : HasAt resp.buffer.buf off (answeredBytes store lower session object template))
    (ret : CkRv) : ∃ arr resp', Module.readAttributes template ret { resp with parsed := off } =
      .ok (.error ckrDeviceError, arr, resp') := by
  induction template generalizing off ret with
  | nil => exact absurd (by simp) hwrong
  | cons attr template ih =>
    rw [answeredBytes_cons] at hat
    by_cases htype : attr.type < 2 ^ 32
    · obtain ⟨verdict, hone⟩ := readAttribute_received hvalues htype (hmem attr (by simp)) hat.left
      have hwrong' : ¬ ∀ a ∈ template, a.type < 2 ^ 32 := by
        intro h
        apply hwrong
        intro a ha
        rcases mem_cons.1 ha with rfl | ha
        · exact htype
        · exact h a ha
      obtain ⟨arr, resp', hrest⟩ := ih (fun a ha => hmem a (by simp [ha])) hwrong' hat.right
        (if verdict = ckrOk then ret else verdict)
      exact ⟨_, resp', by simp [Module.readAttributes, hone, hrest]; rfl⟩
    · have hne : attr.type ≠ (store.answer lower session object attr.wire.deliveredBuffer).type := by
        rw [AttributeStore.answer, answer_type, deliveredBuffer_type]
        show attr.type ≠ attr.type % 2 ^ 32
        have hlt := Nat.mod_lt attr.type (show 0 < 2 ^ 32 by decide)
        omega
      have hone := readAttribute_answer hvalues attr hat.left
      rw [readInto, if_pos hne] at hone
      exact ⟨_, _, by simp [Module.readAttributes, hone]; exact ⟨rfl, rfl⟩⟩

end

theorem lt_of_passed {ret : CkRv} (h : passedWithAttributes ret = true) : ret < 2 ^ 64 := by
  simp only [passedWithAttributes, Bool.or_eq_true, beq_iff_eq] at h
  rcases h with ((h | h) | h) | h <;> rw [h] <;> decide

/-- What is answered for a buffer fits the buffer. -/
theorem answer_region_le {d : Bytes} (hd : regionBytes (held.answer attr.deliveredBuffer).pValue
      (held.answer attr.deliveredBuffer).ulValueLen = some d)
    (hne : (held.answer attr.deliveredBuffer).ulValueLen ≠ ckUnavailable) :
    d.length ≤ attr.bufferLen := by
  unfold CkAttribute.deliveredBuffer at hd hne
  cases held with
  | sensitive => exact absurd rfl hne
  | invalid => exact absurd rfl hne
  | value v =>
    by_cases h0 : attr.bufferLen = 0
    · simp [h0, Held.answer, regionBytes] at hd
    · rw [if_neg h0] at hd hne
      by_cases hle : v.length ≤ attr.bufferLen
      · have hd' : v = d := by simpa [Held.answer, hle, regionBytes] using hd
        rw [← hd']
        exact hle
      · simp [Held.answer, hle] at hne

theorem answeredBytes_length_le (template : List CkAttribute) :
    (answeredBytes store lower session object template).length ≤
      (template.map fun attr => 13 + attr.bufferLen).sum := by
  induction template with
  | nil => exact Nat.le_refl 0
  | cons attr template ih =>
    rw [answeredBytes_cons, length_append, map_cons, sum_cons]
    apply Nat.add_le_add _ ih
    unfold attributeBytes
    split
    · simp
      omega
    · rename_i hne
      cases hr : regionBytes
          (store.answer lower session object attr.wire.deliveredBuffer).pValue
          (store.answer lower session object attr.wire.deliveredBuffer).ulValueLen with
      | none => simp [byteArrayBytes]
      | some d =>
        have hle := answer_region_le hr hne
        have hwire : attr.wire.bufferLen = attr.bufferLen := rfl
        simp [byteArrayBytes]
        omega

theorem responseBytes_eq : responseBytes store lower session object template =
    CallId.cGetAttributeValue.header .response ++ (encode 4 template.length ++
      (answeredBytes store lower session object template ++ encode 8
        (store.get lower session object (deliveredTemplate template)).1)) := by
  rw [responseBytes, answeredBytes, append_assoc]

/-- A response to read: the octets of the response, at the end of the header. -/
structure Received (store : AttributeStore σ) (lower : σ) (session object : Nat)
    (template : List CkAttribute) (resp : GkmRpcMessage) : Prop where
  buf : resp.buffer.buf = responseBytes store lower session object template
  failures : resp.buffer.failures = 0
  signature : resp.signature.isSome = true
  sigverify : resp.sigverify = some [.a, .attr, .u]
  parsed : resp.parsed = (CallId.cGetAttributeValue.header .response).length

/-- The client reads the number of attributes, and goes on with the loop. -/
theorem protoReadAttributeArray_received (hlim : Limits store lower session object template)
    (hne : template ≠ []) (hresp : Received store lower session object template resp) :
    Module.protoReadAttributeArray template resp = readAttributesAndCode template
      { resp with sigverify := some [.u], parsed := resp.parsed + 4 } := by
  have hcount := hlim.request
  have hlen : template.length ≠ 0 := by simpa using hne
  have hat : HasAt resp.buffer.buf 0 (responseBytes store lower session object template) :=
    ⟨[], [], by simp [hresp.buf], rfl⟩
  rw [responseBytes_eq] at hat
  have hnum := uint32At_of_hasAt hat.right.left (by omega)
  rw [Nat.zero_add, ← hresp.parsed] at hnum
  have hpart : assertPart resp [.a, .attr] = .ok { resp with sigverify := some [.u] } :=
    assertPart_of_expects ⟨hresp.signature, hresp.sigverify⟩
  have hget : GkmRpcMessage.get { resp with sigverify := some [.u] } eggBufferGetUint32 =
      .ok (some template.length,
        { resp with sigverify := some [.u], parsed := resp.parsed + 4 }) := by
    rw [GkmRpcMessage.get_eq reads_getUint32]
    show Except.ok (GkmRpcMessage.got _ (uint32At resp.buffer.buf resp.parsed)) = _
    rw [hnum]
    rfl
  unfold Module.protoReadAttributeArray
  rw [cAssert_of_true hlen, ok_bind, hpart, ok_bind, hget, ok_bind]
  simp

/-- The octets of the attributes and of the code, where the loop starts. -/
theorem received_rest (hresp : Received store lower session object template resp) :
    HasAt resp.buffer.buf (resp.parsed + 4)
      (answeredBytes store lower session object template ++ encode 8
        (store.get lower session object (deliveredTemplate template)).1) := by
  have hat : HasAt resp.buffer.buf 0 (responseBytes store lower session object template) :=
    ⟨[], [], by simp [hresp.buf], rfl⟩
  rw [responseBytes_eq] at hat
  have h := hat.right.right
  rwa [Nat.zero_add, ← hresp.parsed, length_encode] at h

/-- When all types fit, the code that follows the attributes is the code of the call. -/
theorem readAttributesAndCode_received (hlim : Limits store lower session object template)
    (hmem : ∀ attr ∈ template, ∀ mem, attr.pValue = some mem → attr.ulValueLen ≤ mem.length)
    (htypes : ∀ attr ∈ template, attr.type < 2 ^ 32)
    (hresp : Received store lower session object template resp) :
    ∃ off, readAttributesAndCode template
        { resp with sigverify := some [.u], parsed := resp.parsed + 4 } =
      .ok ((store.get lower session object (deliveredTemplate template)).1,
        template.map fun attr => received (store.held lower session object attr.type) attr,
        { resp with sigverify := some [], parsed := off }) := by
  have hat := received_rest hresp
  obtain ⟨verdict, hloop⟩ := @readAttributes_received σ store lower session object template
    hlim.values hmem htypes { resp with sigverify := some [.u] } (resp.parsed + 4) hat.left ckrOk
  have hcode := uint64At_of_hasAt hat.right
    (lt_of_passed (store.passed lower session object (deliveredTemplate template)))
  have hver := @assertPart_of_expects { resp with
    sigverify := some [.u]
    parsed := resp.parsed + 4 + (answeredBytes store lower session object template).length }
    [.u] [] ⟨hresp.signature, rfl⟩
  have hread : gkmRpcMessageReadUlong { resp with
      sigverify := some [.u]
      parsed := resp.parsed + 4 + (answeredBytes store lower session object template).length } =
      .ok (some (store.get lower session object (deliveredTemplate template)).1, { resp with
        sigverify := some []
        parsed := resp.parsed + 4 +
          (answeredBytes store lower session object template).length + 8 }) := by
    unfold gkmRpcMessageReadUlong
    rw [hver, ok_bind, GkmRpcMessage.get_eq reads_getUint64]
    show Except.ok (GkmRpcMessage.got _ (uint64At resp.buffer.buf (resp.parsed + 4 +
      (answeredBytes store lower session object template).length))) = _
    rw [hcode]
    rfl
  refine ⟨resp.parsed + 4 + (answeredBytes store lower session object template).length + 8, ?_⟩
  unfold readAttributesAndCode
  rw [hloop, ok_bind]
  dsimp only
  rw [hread]
  rfl

/-! ## The two calls compared -/

/-- What the stub makes of the frame of the daemon. -/
theorem readAttributeAnswer_eq (hlim : Limits store lower session object template)
    (hplenty : resp.buffer.Plenty) : ∃ resp', Received store lower session object template resp' ∧
      readAttributeAnswer CallId.cGetAttributeValue.wire resp
          (eggBufferEncodeUint32 (responseBytes store lower session object template).length ++
            responseBytes store lower session object template) template =
        (do
          let (ret, template, resp) ← Module.protoReadAttributeArray template resp'
          let ret ← callDoneRet ret resp
          pure (ret, template)) := by
  have hle := @answeredBytes_length_le σ store lower session object template
  have hroom := hlim.response
  have hlen : (responseBytes store lower session object template).length =
      23 + (answeredBytes store lower session object template).length := by
    have hheader : (CallId.cGetAttributeValue.header .response).length = 11 := by decide
    rw [responseBytes_eq]
    simp only [length_append, length_encode, hheader]
    omega
  have hne : responseBytes store lower session object template ≠ [] := by
    intro h
    rw [h, length_nil] at hlen
    omega
  have hat : HasAt (responseBytes store lower session object template) 0
      (CallId.cGetAttributeValue.header .response) :=
    ⟨[], _, by rw [nil_append, responseBytes_eq], rfl⟩
  obtain ⟨buffer, hbuf, h0, hrecv⟩ := @receiveResponse_eq (gkmRpcMessageReset resp) hplenty rfl rfl
    _ hne (by omega) .cGetAttributeValue response_bytes_length hat
  refine ⟨GkmRpcMessage.headed { gkmRpcMessageReset resp with buffer := buffer }
    .cGetAttributeValue .response, ⟨hbuf, h0, rfl, rfl, rfl⟩, ?_⟩
  unfold readAttributeAnswer
  rw [hrecv, ok_bind]
  dsimp only
  rw [checkResponse_eq rfl h0, ok_bind]

/-- The whole call up to the reading of the attributes. -/
theorem rpcCGetAttributeValueCall_eq {m : LowerModule σ} (hm : m.Follows store)
    {st : LoopState σ} (hst : Served st) (hlim : Limits store st.lower session object template)
    (hs : session < 2 ^ 64) (ho : object < 2 ^ 64) {req resp : GkmRpcMessage}
    (hreq : req.buffer.Plenty) (hresp : resp.buffer.Plenty) : ∃ resp',
      Received store st.lower session object template resp' ∧
      rpcCGetAttributeValueCall m st req resp session object template =
        (do
          let (ret, template, resp) ← Module.protoReadAttributeArray template resp'
          let ret ← callDoneRet ret resp
          pure (ret, template)) := by
  obtain ⟨req', hbuild, hbytes, hid⟩ := buildRequest_getAttributeValue hreq session object template
  obtain ⟨resp', hreceived, hread⟩ := readAttributeAnswer_eq hlim hresp
  refine ⟨resp', hreceived, ?_⟩
  unfold rpcCGetAttributeValueCall
  rw [hbuild, ok_bind]
  dsimp only
  rw [hbytes, daemonAnswers_getAttributeValue hm hst hlim hs ho, ok_bind]
  dsimp only
  rw [hid]
  exact hread

theorem received_eq_answer (h : ∀ v, held = .value v → attr.pValue.isSome → attr.ulValueLen = 0 → v = []) :
    received held attr = held.answer attr := by
  cases held with
  | sensitive => rfl
  | invalid => rfl
  | value v =>
    unfold received
    by_cases hempty : attr.pValue.isSome = true ∧ attr.ulValueLen = 0
    · have hv := h v rfl hempty.1 hempty.2
      obtain ⟨mem, hmem⟩ := Option.isSome_iff_exists.1 hempty.1
      simp [hempty, hv, Held.answer, hmem]
    · simp only [if_neg hempty]

theorem received_ne_answer {v : Bytes} (hsome : attr.pValue.isSome = true) (h0 : attr.ulValueLen = 0)
    (hv : v ≠ []) (hlen : v.length < 0x7fffffff) :
    received (.value v) attr ≠ (Held.value v).answer attr := by
  obtain ⟨mem, hmem⟩ := Option.isSome_iff_exists.1 hsome
  have hpos : ¬ v.length ≤ 0 := by
    have := length_pos_iff.2 hv
    omega
  intro heq
  have hl := congrArg CkAttribute.ulValueLen heq
  simp only [received, hmem, Option.isSome_some, h0, and_self, if_true, Held.answer,
    if_neg hpos] at hl
  have hl' : v.length = 2 ^ 64 - 1 := hl
  omega

/-- The error of an entry that is delivered is that of the caller's entry. -/
theorem code_delivered (h : ∀ v, held = .value v → attr.pValue.isSome → attr.ulValueLen = 0 → v = []) :
    held.code attr.deliveredBuffer = held.code attr := by
  cases held with
  | sensitive => rfl
  | invalid => rfl
  | value v =>
    unfold Held.code CkAttribute.deliveredBuffer
    by_cases h0 : attr.bufferLen = 0
    · rw [if_pos h0]
      cases hp : attr.pValue with
      | none => simp
      | some mem =>
        have hlen : attr.ulValueLen = 0 := by simpa [CkAttribute.bufferLen, hp] using h0
        have hv := h v rfl (by simp [hp]) hlen
        simp [hv]
    · rw [if_neg h0]
      have hsome : attr.pValue.isSome = true := by
        by_contra hnone
        exact h0 (by simp [CkAttribute.bufferLen, hnone])
      have hlen : attr.bufferLen = attr.ulValueLen := by
        rw [CkAttribute.bufferLen, if_pos hsome]
      simp [hsome, hlen]

/-- The errors of the template that is delivered are those of the caller's template. -/
theorem errors_delivered (hfaith : ∀ attr ∈ template, attr.type < 2 ^ 32 ∧
      ∀ v, store.held lower session object attr.type = .value v → attr.pValue.isSome →
        attr.ulValueLen = 0 → v = []) :
    store.errors lower session object (deliveredTemplate template) =
      store.errors lower session object template := by
  unfold AttributeStore.errors deliveredTemplate
  rw [map_map]
  apply map_congr_left
  intro attr hattr
  obtain ⟨htype, hempty⟩ := hfaith attr hattr
  show (attr.wire.deliveredBuffer.type,
    (store.held lower session object attr.wire.deliveredBuffer.type).code
      attr.wire.deliveredBuffer) = _
  rw [wire_eq htype, deliveredBuffer_type, code_delivered hempty]

theorem callDoneRet_ok {ret : CkRv} {resp : GkmRpcMessage} (h0 : resp.buffer.failures = 0)
    (hver : resp.sigverify = some []) : callDoneRet ret resp = .ok ret := by
  have herr : gkmRpcMessageBufferError resp = false := by
    rw [gkmRpcMessageBufferError, eggBufferHasError, h0]
    rfl
  have hverified : gkmRpcMessageIsVerified resp = true := by
    simp [gkmRpcMessageIsVerified, hver]
  unfold callDoneRet
  by_cases hret : ret = ckrOk
  · simp [hret, herr, hverified]
  · rw [if_neg hret]

/-- An entry of a template is filled: its buffer starts with the value, which fits it. -/
def Filled (held : Held) (before after : CkAttribute) : Prop :=
  before.pValue.isSome → ∃ v mem, held = .value v ∧ after.pValue = some mem ∧
    after.ulValueLen = v.length ∧ v.length ≤ before.ulValueLen ∧ mem.take v.length = v

/-- A direct call that succeeds filled every buffer. -/
theorem get_ok_filled (h : (store.get lower session object template).1 = ckrOk) :
    ∀ attr ∈ template, Filled (store.held lower session object attr.type) attr
      (store.answer lower session object attr) := by
  intro attr hattr hsome
  obtain ⟨mem, hmem⟩ := Option.isSome_iff_exists.1 hsome
  have hnone : (store.held lower session object attr.type).code attr = none := by
    by_contra hne
    have hin : (attr.type, (store.held lower session object attr.type).code attr) ∈
        store.errors lower session object template := mem_map.2 ⟨attr, hattr, rfl⟩
    obtain ⟨e, he, hcode⟩ := store.code_mem lower session object _ ⟨_, hin, hne⟩
    obtain ⟨a, -, rfl⟩ := mem_map.1 he
    rw [show store.code lower session object (store.errors lower session object template) = ckrOk
      from h] at hcode
    unfold Held.code at hcode
    dsimp only at hcode
    split at hcode
    · split at hcode <;> simp at hcode
    · simp at hcode
    · simp at hcode
  unfold AttributeStore.answer
  cases hheld : store.held lower session object attr.type with
  | sensitive => simp [hheld, Held.code] at hnone
  | invalid => simp [hheld, Held.code] at hnone
  | value v =>
    have hle : v.length ≤ attr.ulValueLen := by
      simpa [hheld, Held.code, hsome] using hnone
    refine ⟨v, v ++ mem.drop v.length, rfl, ?_, ?_, hle, by simp⟩
    · simp [Held.answer, hmem, hle]
    · simp [Held.answer, hmem, hle]

/-- The call through the daemon has the outcome of the direct call exactly for the templates that
are faithful; it then succeeds only if every buffer was filled. -/
theorem rpcCGetAttributeValue_faithful {m : LowerModule σ} (hm : m.Follows store)
    {st : LoopState σ} (hst : Served st) (hlim : Limits store st.lower session object template)
    (hs : session < 2 ^ 64) (ho : object < 2 ^ 64)
    (hmem : ∀ attr ∈ template, ∀ mem, attr.pValue = some mem → attr.ulValueLen ≤ mem.length)
    {req resp : GkmRpcMessage} (hreq : req.buffer.Plenty) (hresp : resp.buffer.Plenty) :
    (rpcCGetAttributeValueCall m st req resp session object template =
        .ok (store.get st.lower session object template) ↔
      Faithful store st.lower session object template) ∧
    (Faithful store st.lower session object template → ∀ template',
      rpcCGetAttributeValueCall m st req resp session object template = .ok (ckrOk, template') →
        template' = template.map (store.answer st.lower session object) ∧
        ∀ attr ∈ template, Filled (store.held st.lower session object attr.type) attr
          (store.answer st.lower session object attr)) := by
  obtain ⟨resp', hreceived, hcall⟩ := rpcCGetAttributeValueCall_eq hm hst hlim hs ho hreq hresp
  have hfaithful : Faithful store st.lower session object template →
      rpcCGetAttributeValueCall m st req resp session object template =
        .ok (store.get st.lower session object template) := by
    rintro ⟨hne, hall⟩
    obtain ⟨off, hread⟩ := readAttributesAndCode_received hlim hmem (fun a ha => (hall a ha).1)
      hreceived
    rw [hcall, protoReadAttributeArray_received hlim hne hreceived, hread, ok_bind]
    dsimp only
    rw [@callDoneRet_ok _ { resp' with sigverify := some [], parsed := off } hreceived.failures rfl,
      ok_bind]
    have hsame : template.map (fun attr =>
        received (store.held st.lower session object attr.type) attr) =
        template.map (store.answer st.lower session object) :=
      map_congr_left fun attr ha => received_eq_answer (hall attr ha).2
    rw [hsame, AttributeStore.get, AttributeStore.get, errors_delivered hall]
    rfl
  refine ⟨⟨?_, hfaithful⟩, ?_⟩
  · intro heq
    rw [hcall] at heq
    by_cases hne : template = []
    · -- the client asserts that there is an attribute
      subst hne
      simp [Module.protoReadAttributeArray, cAssert] at heq
    · rw [protoReadAttributeArray_received hlim hne hreceived] at heq
      refine ⟨hne, ?_⟩
      by_cases htypes : ∀ attr ∈ template, attr.type < 2 ^ 32
      · obtain ⟨off, hread⟩ := readAttributesAndCode_received hlim hmem htypes hreceived
        rw [hread, ok_bind] at heq
        dsimp only at heq
        rw [@callDoneRet_ok _ { resp' with sigverify := some [], parsed := off } hreceived.failures rfl,
          ok_bind] at heq
        have hattrs := congrArg Prod.snd (Except.ok.inj heq)
        dsimp only [AttributeStore.get] at hattrs
        intro attr hattr
        refine ⟨htypes attr hattr, ?_⟩
        intro v hv hsome h0
        by_contra hnil
        have hone := map_inj_left.1 hattrs attr hattr
        rw [AttributeStore.answer, hv] at hone
        exact received_ne_answer hsome h0 hnil (hlim.values _ v hv) hone
      · -- the client stops with a code that is not one of the module's
        exfalso
        have hat := (received_rest hreceived).left
        obtain ⟨arr, resp'', hloop⟩ := @readAttributes_wrong_type σ store st.lower session object
          template hlim.values hmem htypes { resp' with sigverify := some [.u] } (resp'.parsed + 4)
          hat ckrOk
        unfold readAttributesAndCode at heq
        rw [hloop, ok_bind] at heq
        dsimp only at heq
        rw [pure_eq_ok, ok_bind] at heq
        dsimp only at heq
        rw [callDoneRet, if_neg (by decide), ok_bind] at heq
        have hret := congrArg Prod.fst (Except.ok.inj heq)
        have hpassed := store.passed st.lower session object template
        rw [← hret] at hpassed
        have hcode : passedWithAttributes ckrDeviceError = true := hpassed
        exact absurd hcode (by decide)
  · intro hfaith template' hok
    rw [hfaithful hfaith] at hok
    have hpair := Except.ok.inj hok
    have hret : (store.get st.lower session object template).1 = ckrOk := by rw [hpair]
    refine ⟨?_, get_ok_filled hret⟩
    have hattrs : (store.get st.lower session object template).2 = template' := by rw [hpair]
    rw [← hattrs]
    rfl

/-- A store with the value `1 2 3` for every attribute; its code is the first error. -/
def constantStore : AttributeStore Unit where
  held := fun _ _ _ _ => .value [1, 2, 3]
  code := fun _ _ _ errs => (errs.findSome? Prod.snd).getD ckrOk
  code_ok := by
    intro _ _ _ errs h
    rw [findSome?_eq_none_iff.2 h, Option.getD_none]
  code_mem := by
    rintro _ _ _ errs ⟨e, he, hne⟩
    have hsome : (errs.findSome? Prod.snd).isSome = true := by
      rw [findSome?_isSome_iff]
      exact ⟨e, he, Option.isSome_iff_ne_none.2 hne⟩
    obtain ⟨ret, hret⟩ := Option.isSome_iff_exists.1 hsome
    obtain ⟨e', he', hcode⟩ := List.exists_of_findSome?_eq_some hret
    exact ⟨e', he', by rw [hcode, hret, Option.getD_some]⟩

/-- A module that answers for attributes as a store does. -/
def storeModule (store : AttributeStore Unit) : LowerModule Unit where
  has := fun _ => true
  call := fun c args st =>
    match args with
    | [.ulong session, .ulong object, .attributeBuffer template] =>
      ({ (failingModule.call c args st).1 with
          rv := (store.get st session object template).1
          attrs := (store.get st session object template).2 }, st)
    | _ => failingModule.call c args st

theorem storeModule_follows (store : AttributeStore Unit) : (storeModule store).Follows store :=
  ⟨rfl, fun _ _ _ _ => rfl⟩

/-- A message of a client that has memory. -/
def plentyMessage : GkmRpcMessage := gkmRpcMessageNew fun _ _ => true

theorem plentyMessage_plenty : plentyMessage.buffer.Plenty := ⟨_, rfl, fun _ _ => rfl⟩

theorem plentyLoop_served : Served (plentyLoop []) :=
  ⟨plentyMessage_plenty, plentyMessage_plenty, fun _ _ => rfl, fun _ => rfl⟩

/-- A template with a buffer, a buffer that is too small, and a null pointer. -/
def threeEntries : List CkAttribute :=
  [⟨0x11, some [0, 0, 0, 0], 4⟩, ⟨0x102, some [7], 1⟩, ⟨0x3, none, 0⟩]

theorem rpcCGetAttributeValue_faithful_threeEntries :
    rpcCGetAttributeValueCall (storeModule constantStore) (plentyLoop []) plentyMessage
        plentyMessage 1 2 threeEntries =
      .ok (ckrBufferTooSmall, [⟨0x11, some [1, 2, 3, 0], 3⟩, ⟨0x102, some [7], ckUnavailable⟩,
        ⟨0x3, none, 3⟩]) := by
  have hlim : Limits constantStore () 1 2 threeEntries := by
    refine ⟨by decide, by decide, ?_, by decide⟩
    intro type v hv
    have hv' : [1, 2, 3] = v := by simpa [constantStore] using hv
    rw [← hv']
    decide
  have hmem : ∀ attr ∈ threeEntries, ∀ mem, attr.pValue = some mem →
      attr.ulValueLen ≤ mem.length := by
    intro attr hattr mem hp
    simp only [threeEntries, mem_cons, not_mem_nil, or_false] at hattr
    rcases hattr with rfl | rfl | rfl
    · cases hp
      decide
    · cases hp
      decide
    · cases hp
  have hfaith : Faithful constantStore () 1 2 threeEntries := by
    refine ⟨by decide, ?_⟩
    intro attr hattr
    simp only [threeEntries, mem_cons, not_mem_nil, or_false] at hattr
    rcases hattr with rfl | rfl | rfl
    · exact ⟨by decide, fun _ _ _ h => absurd h (by decide)⟩
    · exact ⟨by decide, fun _ _ _ h => absurd h (by decide)⟩
    · exact ⟨by decide, fun _ _ h => absurd h (by decide)⟩
  exact (rpcCGetAttributeValue_faithful (storeModule_follows constantStore) plentyLoop_served hlim
    (by decide) (by decide) hmem plentyMessage_plenty plentyMessage_plenty).1.2 hfaith

/-- For an empty buffer the call through the daemon reports success with nothing filled in, where
the direct call reports that the buffer is too small. -/
theorem rpcCGetAttributeValue_empty_buffer :
    resultOf (rpcCGetAttributeValueCall (storeModule constantStore) (plentyLoop []) plentyMessage
        plentyMessage 1 2 [⟨0x11, some [], 0⟩]) = some (ckrOk, [⟨0x11, some [], 3⟩]) ∧
      constantStore.get () 1 2 [⟨0x11, some [], 0⟩] =
        (ckrBufferTooSmall, [⟨0x11, some [], ckUnavailable⟩]) := by
  refine ⟨by decide +kernel, by decide⟩

end MateKeyring.Rpc
