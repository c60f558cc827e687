import MateKeyring.Rpc.Reading

/-!
# Writing a response does not fault

The grammar of responses: `PartBytes` are the octets of one value, `Payload` those of a sequence,
and `WellFormedFrame` is a frame with a response. `OutPart.write_writer` says that an `OUT_*` macro
run where the signature of the response expects it does not fault, and that it leaves `CKR_OK`
only when it has written its part; `writeOuts_writer` says so of the macros of a handler. The
module below is only asked for what PKCS#11 says of its answers (`AllowedAnswer`).
-/

set_option autoImplicit false

namespace MateKeyring.Rpc.Dispatch

open Lib Egg BigEndian List

variable {ret : CkRv} {P : CallState → Prop} {len : Nat}

/-! ## The grammar of responses -/

/-- The octets of an attribute: its type, and the length and value if it is available. -/
inductive AttributeOctets : Bytes → Prop where
  | unavailable (type : Nat) : AttributeOctets (encode 4 type ++ [0])
  | lengthOnly (type len : Nat) : AttributeOctets
      (encode 4 type ++ ([1] ++ (encode 4 len ++ byteArrayBytes none)))
  | value (type : Nat) (data : Bytes) (h : data.length < 0x7fffffff) : AttributeOctets
      (encode 4 type ++
        ([1] ++ (encode 4 data.length ++ byteArrayBytes (some data))))

/-- The octets of one value of a response. -/
inductive PartBytes : Signature → Bytes → Prop where
  | ulong (val : Nat) : PartBytes [.u] (encode 8 val)
  | version (v : CkVersion) : PartBytes [.v] [v.major, v.minor]
  | spaceString (s : Bytes) (h : s.length < 0x7fffffff) :
      PartBytes [.s] (byteArrayBytes (some s))
  | noBytes (num : Nat) : PartBytes [.a, .y] ([0] ++ encode 4 num)
  | bytes (data : Bytes) (h : data.length < 0x7fffffff) :
      PartBytes [.a, .y] ([1] ++ byteArrayBytes (some data))
  | noUlongs (num : Nat) : PartBytes [.a, .u] ([0] ++ encode 4 num)
  | ulongs (vs : List Nat) (h : vs.length < 2 ^ 32) : PartBytes [.a, .u]
      ([1] ++ (encode 4 vs.length ++ vs.flatMap (encode 8)))
  | attributes (items : List Bytes) (hlen : items.length < 2 ^ 32)
      (h : ∀ x ∈ items, AttributeOctets x) :
      PartBytes [.a, .attr] (encode 4 items.length ++ items.flatten)

/-- The octets of a sequence of values. -/
inductive Payload : Signature → Bytes → Prop where
  | nil : Payload [] []
  | append {done part : Signature} {body out : Bytes} (h : Payload done body)
      (hp : PartBytes part out) : Payload (done ++ part) (body ++ out)

/-- The octets before the values of a response. -/
abbrev headerBytes (c : CallId) : Bytes := c.header .response

/-- A response: to a call, with the values its signature says, or an error code. -/
inductive WellFormedResponse : Bytes → Prop where
  | call (c : CallId) (body : Bytes) (h : Payload c.response body) :
      WellFormedResponse (headerBytes c ++ body)
  | error (code : Nat) :
      WellFormedResponse (encode 4 0 ++ encode 8 code)

/-- A frame with a response: its length says how long the response is. -/
def WellFormedFrame (frame : Bytes) : Prop :=
  ∃ bytes, WellFormedResponse bytes ∧ bytes.length < 2 ^ 32 ∧
    frame = encode 4 bytes.length ++ bytes

/-! ## What the module below may answer -/

/-- An attribute of an answer, for the attribute that was asked for: the type and the memory of
the value stay, and a length says how much of that memory was filled or that there is no value. -/
structure AllowedAttribute (given attr : CkAttribute) : Prop where
  type : attr.type = given.type
  memory : attr.pValue.map List.length = given.pValue.map List.length
  length : given.pValue.isSome = true →
    attr.ulValueLen ≤ given.ulValueLen ∨ attr.ulValueLen = ckUnavailable

/-- What PKCS#11 allows as an answer to a call with these arguments: on success a buffer still has
its size and no more than its room is reported as filled, and so for each attribute whenever the
code goes with the attributes. -/
structure AllowedAnswer (args : List Arg) (ans : Answer) : Prop where
  bytes : ans.rv = ckrOk → ∀ mem len, .byteBuffer (some mem) len ∈ args →
    ans.bytes.length = mem.length ∧ ans.len ≤ len
  ulongs : ans.rv = ckrOk → ∀ mem len, .ulongBuffer (some mem) len ∈ args →
    ans.ulongs.length = mem.length ∧ ans.len ≤ len
  attrs : ∀ arr, .attributeBuffer arr ∈ args → passedWithAttributes ans.rv = true →
    List.Forall₂ AllowedAttribute arr ans.attrs

/-! ## Writing -/

/-- A response to `c` that has been written without errors and still expects `rest`; its values
take at most `lim` octets. -/
structure Writing (c : CallId) (rest : Signature) (lim : Nat) (cs : CallState) : Prop where
  expects : Expects cs.resp rest
  noError : cs.resp.buffer.failures = 0
  callType : cs.resp.callType = some .response
  callId : cs.resp.callId = c.wire
  signature : cs.resp.signature = some c.response
  reqCallId : cs.req.callId = c.wire
  payload : ∃ done body, c.response = done ++ rest ∧ Payload done body ∧ body.length ≤ lim ∧
    cs.resp.buffer.buf = headerBytes c ++ body

variable {α : Type}

/-- Triples of steps that never stop. -/
abbrev Writer (P : CallState → Prop) (x : Proto α) (Q : α → CallState → Prop) : Prop :=
  Prog.Triple P x Q fun _ _ => False

/-- What a write leaves: the call, and when it succeeded a response with more in it. -/
def Answered (c : CallId) (rest : Signature) (lim : Nat) (ok : Prop) (cs : CallState) : Prop :=
  cs.req.callId = c.wire ∧ (ok → Writing c rest lim cs)

variable {c : CallId} {rest : Signature} {lim : Nat}

theorem respWrite_writer {w : GkmRpcMessage → Checked (Bool × GkmRpcMessage)}
    {part : Signature} {out : Bytes} (hw : ∀ msg, MsgWrites msg part out (w msg))
    (hp : PartBytes part out) :
    Writer (Writing c (part ++ rest) lim) (respWrite w)
      fun ok => Answered c rest (lim + out.length) (ok = true) := by
  intro cs hcs
  obtain ⟨ok, buffer, hres, -, hok⟩ := hw cs.resp rest hcs.expects
  refine Or.inl ⟨ok, { cs with resp := { cs.resp with buffer := buffer, sigverify := some rest } },
    ?_, hcs.reqCallId, ?_⟩
  · apply Prog.run_apply
    rw [hres]
    rfl
  · intro htrue
    obtain ⟨hbuf, hfail⟩ := hok htrue
    obtain ⟨done, body, hsig, hpay, hlim, hcur⟩ := hcs.payload
    refine ⟨⟨hcs.expects.1, rfl⟩, ?_, hcs.callType, hcs.callId, hcs.signature, hcs.reqCallId,
      done ++ part, body ++ out, ?_, hpay.append hp, ?_, ?_⟩
    · show buffer.failures = 0
      rw [hfail]
      exact hcs.noError
    · rw [hsig, append_assoc]
    · rw [length_append]
      omega
    · show buffer.buf = _
      rw [hbuf, hcur, append_assoc]

/-- A write with the part of the signature and the octets it writes. -/
structure Part where
  write : GkmRpcMessage → Checked (Bool × GkmRpcMessage)
  sig : Signature
  out : Bytes
  writes : ∀ msg, MsgWrites msg sig out (write msg)
  bytes : PartBytes sig out

theorem respWriteAll_writer (parts : List Part) :
    Writer (Writing c (parts.flatMap Part.sig ++ rest) lim) (respWriteAll (parts.map Part.write))
      fun ok => Answered c rest (lim + (parts.flatMap Part.out).length) (ok = true) := by
  induction parts generalizing lim with
  | nil =>
    apply Prog.Triple.pure
    intro cs hcs
    exact ⟨hcs.reqCallId, fun _ => hcs⟩
  | cons p ps ih =>
    rw [flatMap_cons, append_assoc]
    apply Prog.Triple.bind (respWrite_writer p.writes p.bytes)
    intro ok cs hcs
    cases ok with
    | false =>
      refine Or.inl ⟨false, cs, rfl, hcs.1, ?_⟩
      intro h
      exact absurd h (by simp)
    | true =>
      have hlim : lim + ((p :: ps).flatMap Part.out).length =
          lim + p.out.length + (ps.flatMap Part.out).length := by
        rw [flatMap_cons, length_append]
        omega
      rw [hlim]
      exact ih cs (hcs.2 rfl)

theorem orPrepError_writer {w : Proto Bool} (hw : Writer P w fun ok => Answered c rest lim (ok = true)) :
    Writer P (orPrepError w) fun ret => Answered c rest lim (ret = ckrOk) := by
  apply Prog.Triple.bind hw
  intro ok
  cases ok with
  | false =>
    apply Prog.Triple.pure
    intro cs hcs
    exact ⟨hcs.1, fun h => absurd h (by decide)⟩
  | true =>
    apply Prog.Triple.pure
    intro cs hcs
    exact ⟨hcs.1, fun _ => hcs.2 rfl⟩

theorem Writing.mono {lim' : Nat} {cs : CallState} (h : Writing c rest lim cs)
    (hle : lim ≤ lim') : Writing c rest lim' cs := by
  obtain ⟨done, body, hsig, hpay, hlim, hbuf⟩ := h.payload
  exact { h with payload := ⟨done, body, hsig, hpay, by omega, hbuf⟩ }

theorem Answered.mono {lim' : Nat} {ok : Prop} {cs : CallState} (h : Answered c rest lim ok cs)
    (hle : lim ≤ lim') : Answered c rest lim' ok cs :=
  ⟨h.1, fun hok => (h.2 hok).mono hle⟩

/-- A code that is not `CKR_OK` is passed through. -/
theorem pass_writer (hret : ret ≠ ckrOk) (hP : ∀ cs, P cs → cs.req.callId = c.wire) :
    Writer P (pure ret : Proto CkRv) fun ret => Answered c rest lim (ret = ckrOk) := by
  apply Prog.Triple.pure
  intro cs hcs
  exact ⟨hP cs hcs, fun h => absurd h hret⟩

/-! ## The parts of responses -/

/-- A number. -/
def ulongPart (val : Nat) : Part where
  write := (gkmRpcMessageWriteUlong · val)
  sig := [.u]
  out := encode 8 val
  writes := fun msg => gkmRpcMessageWriteUlong_writes msg val
  bytes := .ulong val

/-- A version. -/
def versionPart (v : CkVersion) : Part where
  write := (gkmRpcMessageWriteVersion · v)
  sig := [.v]
  out := [v.major, v.minor]
  writes := fun msg => gkmRpcMessageWriteVersion_writes msg v
  bytes := .version v

/-- A space padded string of one of the lengths in use. -/
def spaceStringPart {n : Nat} (s : Octets n) (hpos : 0 < n) (hlt : n < 0x7fffffff) : Part where
  write := (gkmRpcMessageWriteSpaceString · s.toList)
  sig := [.s]
  out := byteArrayBytes (some s.toList)
  writes := fun msg => gkmRpcMessageWriteSpaceString_writes msg s.toList (by simp; omega)
  bytes := .spaceString s.toList (by simp; omega)

theorem spaceStringPart_length {n : Nat} (s : Octets n) (hpos : 0 < n)
    (hlt : n < 0x7fffffff) : (spaceStringPart s hpos hlt).out.length = 4 + n := by
  simp [spaceStringPart, byteArrayBytes]

theorem byteArray_writer {array : Option Bytes} (h : ∀ mem, array = some mem → len ≤ mem.length) :
    Writer (Writing c ([.a, .y] ++ rest) lim)
      (respWrite (gkmRpcMessageWriteByteArray · array len))
      fun ok => Answered c rest (lim + (5 + 0x7fffffff)) (ok = true) := by
  have hwrites : ∀ msg, MsgWrites msg [.a, .y] (byteArrayArgBytes array len)
      (gkmRpcMessageWriteByteArray msg array len) :=
    fun msg => gkmRpcMessageWriteByteArray_writes msg array len fun mem hmem _ => h mem hmem
  cases array with
  | none =>
    apply (respWrite_writer hwrites (.noBytes len)).conseq (fun _ h => h) _ fun _ _ h => h
    intro ok cs hcs
    exact hcs.mono (by simp [byteArrayArgBytes])
  | some mem =>
    by_cases hlt : len < 0x7fffffff
    · have hle := h mem rfl
      have htake : (mem.take len).length = len := by simp; omega
      apply (respWrite_writer hwrites (.bytes (mem.take len) (by omega))).conseq
        (fun _ h => h) _ fun _ _ h => h
      intro ok cs hcs
      apply hcs.mono
      simp only [byteArrayArgBytes, byteArrayBytes, length_append, htake,
        length_encode, length_cons, length_nil]
      omega
    · -- the array is refused: what would have been written does not matter
      have hrefused : ∀ msg, MsgWrites msg [.a, .y] ([0] ++ encode 4 0)
          (gkmRpcMessageWriteByteArray msg (some mem) len) :=
        fun msg => gkmRpcMessageWriteByteArray_refused msg mem (by omega) _
      apply (respWrite_writer hrefused (.noBytes 0)).conseq (fun _ h => h) _ fun _ _ h => h
      intro ok cs hcs
      exact hcs.mono (by simp)

theorem flatMap_encode_length (k : Nat) (vs : List Nat) :
    (vs.flatMap (encode k)).length = vs.length * k := by
  induction vs with
  | nil => simp
  | cons v vs ih =>
    rw [flatMap_cons, length_append, ih, length_encode, length_cons]
    ring

theorem ulongArray_writer {array : Option (List Nat)}
    (h : ∀ mem, array = some mem → len ≤ mem.length ∧ mem.length * 8 ≤ 0x7fffffff) :
    Writer (Writing c ([.a, .u] ++ rest) lim)
      (respWrite (gkmRpcMessageWriteUlongArray · array len))
      fun ok => Answered c rest (lim + (5 + 0x7fffffff)) (ok = true) := by
  have hwrites : ∀ msg, MsgWrites msg [.a, .u] (ulongArrayBytes array len)
      (gkmRpcMessageWriteUlongArray msg array len) :=
    fun msg => gkmRpcMessageWriteUlongArray_writes msg array len fun mem hmem => (h mem hmem).1
  cases array with
  | none =>
    apply (respWrite_writer hwrites (.noUlongs len)).conseq (fun _ h => h) _ fun _ _ h => h
    intro ok cs hcs
    exact hcs.mono (by simp [ulongArrayBytes])
  | some mem =>
    obtain ⟨hle, hmax⟩ := h mem rfl
    have htake : (mem.take len).length = len := by simp; omega
    have hbytes : PartBytes [.a, .u] (ulongArrayBytes (some mem) len) := by
      have hp := PartBytes.ulongs (mem.take len) (by omega)
      rwa [htake] at hp
    apply (respWrite_writer hwrites hbytes).conseq (fun _ h => h) _ fun _ _ h => h
    intro ok cs hcs
    apply hcs.mono
    simp only [ulongArrayBytes, length_append, flatMap_encode_length, htake,
      length_encode, length_cons, length_nil]
    omega

theorem attributeBytes_octets {attr : CkAttribute} (hr : attr.Readable) (hs : attr.Sendable) :
    AttributeOctets (attributeBytes attr) := by
  unfold attributeBytes
  split
  · exact .unavailable attr.type
  · rename_i hne
    cases hv : attr.pValue with
    | none => exact .lengthOnly attr.type attr.ulValueLen
    | some mem =>
      have hlt : attr.ulValueLen < 0x7fffffff := hs hne (by simp [hv])
      have hle : attr.ulValueLen ≤ mem.length := hr hne mem hv hlt
      have htake : (mem.take attr.ulValueLen).length = attr.ulValueLen := by simp; omega
      have ho := AttributeOctets.value attr.type (mem.take attr.ulValueLen) (by omega)
      rwa [htake] at ho

/-- The length of the values of an answer with attributes. -/
def attributesLength (attrs : List CkAttribute) : Nat := (attrs.flatMap attributeBytes).length

open Classical in
/-- An array of attributes. One that is refused writes nothing that matters. -/
noncomputable def attributesPart (attrs : List CkAttribute) (hr : ∀ attr ∈ attrs, attr.Readable)
    (hlen : attrs.length < 2 ^ 32) : Part :=
  if hs : ∀ attr ∈ attrs, attr.Sendable then
    { write := (gkmRpcMessageWriteAttributeArray · attrs)
      sig := [.a, .attr]
      out := encode 4 attrs.length ++ attrs.flatMap attributeBytes
      writes := fun msg => gkmRpcMessageWriteAttributeArray_writes msg attrs hr
      bytes := by
        have hp := PartBytes.attributes (attrs.map attributeBytes) (by simpa using hlen) (by
          intro x hx
          obtain ⟨attr, hattr, rfl⟩ := mem_map.1 hx
          exact attributeBytes_octets (hr attr hattr) (hs attr hattr))
        rwa [length_map, ← flatMap_def] at hp }
  else
    { write := (gkmRpcMessageWriteAttributeArray · attrs)
      sig := [.a, .attr]
      out := encode 4 0
      writes := fun msg => gkmRpcMessageWriteAttributeArray_refused msg attrs hr hs _
      bytes := .attributes [] (by simp) (by simp) }

theorem attributesPart_spec (attrs : List CkAttribute) (hr : ∀ attr ∈ attrs, attr.Readable)
    (hlen : attrs.length < 2 ^ 32) :
    (attributesPart attrs hr hlen).write = (gkmRpcMessageWriteAttributeArray · attrs) ∧
      (attributesPart attrs hr hlen).sig = [.a, .attr] ∧
      (attributesPart attrs hr hlen).out.length ≤ 4 + attributesLength attrs := by
  unfold attributesPart
  split
  · exact ⟨rfl, rfl, by simp [attributesLength]⟩
  · exact ⟨rfl, rfl, by simp⟩

/-! ## The macros -/

/-- The part of the signature an `OUT_*` macro writes. -/
def OutPart.sig : OutPart → Signature
  | .ulong | .ulong2 => [.u]
  | .byteArray | .byteArrayGiven => [.a, .y]
  | .ulongArray => [.a, .u]
  | .attributeArray => [.a, .attr, .u]
  | .info => [.v, .s, .u, .s, .v]
  | .slotInfo => [.s, .s, .u, .v, .v]
  | .tokenInfo =>
    [.s, .s, .s, .s, .u, .u, .u, .u, .u, .u, .u, .u, .u, .u, .u, .v, .v, .s]
  | .mechanismInfo => [.u, .u, .u]
  | .sessionInfo => [.u, .u, .u, .u]

/-- How many octets an `OUT_*` macro writes at most, when the attributes take `attrs`. -/
def OutPart.size (attrs : Nat) : OutPart → Nat
  | .ulong | .ulong2 => 8
  | .byteArray | .byteArrayGiven | .ulongArray => 5 + 0x7fffffff
  | .attributeArray => 12 + attrs
  | .info => 84
  | .slotInfo => 116
  | .tokenInfo => 224
  | .mechanismInfo => 24
  | .sessionInfo => 32

/-- What an `OUT_*` macro needs of the arguments and of the answer. -/
def OutPart.Ready (args : List Arg) (ans : Answer) : OutPart → Prop
  | .byteArray | .byteArrayGiven => ans.rv = ckrOk → ∀ n, bufferGiven args = some n →
      ans.bytes.length = n ∧ ans.len ≤ n
  | .ulongArray => ans.rv = ckrOk → ∀ n, bufferGiven args = some n →
      ans.ulongs.length = n ∧ n * 8 ≤ 0x7fffffff ∧ ans.len ≤ n
  | .attributeArray => passedWithAttributes ans.rv = true →
      (∀ attr ∈ ans.attrs, attr.Readable) ∧ ans.attrs.length < 2 ^ 32
  | _ => True

/-- Records are written by a sequence of parts. -/
theorem parts_writer (parts : List Part) :
    Writer (Writing c (parts.flatMap Part.sig ++ rest) lim)
      (orPrepError (respWriteAll (parts.map Part.write)))
      fun ret => Answered c rest (lim + (parts.flatMap Part.out).length) (ret = ckrOk) :=
  orPrepError_writer (respWriteAll_writer parts)

theorem protoWriteInfo_writer (info : CkInfo) :
    Writer (Writing c (OutPart.info.sig ++ rest) lim) (protoWriteInfo info)
      fun ret => Answered c rest (lim + 84) (ret = ckrOk) := by
  apply (parts_writer [versionPart info.cryptokiVersion,
    spaceStringPart info.manufacturerID (by omega) (by omega), ulongPart info.flags,
    spaceStringPart info.libraryDescription (by omega) (by omega),
    versionPart info.libraryVersion]).conseq (fun _ h => h) _ fun _ _ h => h
  intro ret cs hcs
  apply hcs.mono
  simp [spaceStringPart_length, versionPart, ulongPart]

theorem protoWriteSlotInfo_writer (info : CkSlotInfo) :
    Writer (Writing c (OutPart.slotInfo.sig ++ rest) lim) (protoWriteSlotInfo info)
      fun ret => Answered c rest (lim + 116) (ret = ckrOk) := by
  apply (parts_writer [spaceStringPart info.slotDescription (by omega) (by omega),
    spaceStringPart info.manufacturerID (by omega) (by omega), ulongPart info.flags,
    versionPart info.hardwareVersion, versionPart info.firmwareVersion]).conseq
    (fun _ h => h) _ fun _ _ h => h
  intro ret cs hcs
  apply hcs.mono
  simp [spaceStringPart_length, versionPart, ulongPart]

theorem protoWriteTokenInfo_writer (info : CkTokenInfo) :
    Writer (Writing c (OutPart.tokenInfo.sig ++ rest) lim) (protoWriteTokenInfo info)
      fun ret => Answered c rest (lim + 224) (ret = ckrOk) := by
  apply (parts_writer [spaceStringPart info.label (by omega) (by omega),
    spaceStringPart info.manufacturerID (by omega) (by omega),
    spaceStringPart info.model (by omega) (by omega),
    spaceStringPart info.serialNumber (by omega) (by omega), ulongPart info.flags,
    ulongPart info.ulMaxSessionCount, ulongPart info.ulSessionCount,
    ulongPart info.ulMaxRwSessionCount, ulongPart info.ulRwSessionCount,
    ulongPart info.ulMaxPinLen, ulongPart info.ulMinPinLen, ulongPart info.ulTotalPublicMemory,
    ulongPart info.ulFreePublicMemory, ulongPart info.ulTotalPrivateMemory,
    ulongPart info.ulFreePrivateMemory, versionPart info.hardwareVersion,
    versionPart info.firmwareVersion,
    spaceStringPart info.utcTime (by omega) (by omega)]).conseq
    (fun _ h => h) _ fun _ _ h => h
  intro ret cs hcs
  apply hcs.mono
  simp [spaceStringPart_length, versionPart, ulongPart]

theorem protoWriteMechanismInfo_writer (info : CkMechanismInfo) :
    Writer (Writing c (OutPart.mechanismInfo.sig ++ rest) lim) (protoWriteMechanismInfo info)
      fun ret => Answered c rest (lim + 24) (ret = ckrOk) :=
  parts_writer [ulongPart info.ulMinKeySize, ulongPart info.ulMaxKeySize, ulongPart info.flags]

theorem protoWriteSessionInfo_writer (info : CkSessionInfo) :
    Writer (Writing c (OutPart.sessionInfo.sig ++ rest) lim) (protoWriteSessionInfo info)
      fun ret => Answered c rest (lim + 32) (ret = ckrOk) :=
  parts_writer [ulongPart info.slotID, ulongPart info.state, ulongPart info.flags,
    ulongPart info.ulDeviceError]

theorem protoWriteAttributeArray_writer {attrs : List CkAttribute} (h : passedWithAttributes ret = true →
      (∀ attr ∈ attrs, attr.Readable) ∧ attrs.length < 2 ^ 32) :
    Writer (Writing c (OutPart.attributeArray.sig ++ rest) lim)
      (protoWriteAttributeArray attrs ret)
      fun ret => Answered c rest (lim + (12 + attributesLength attrs)) (ret = ckrOk) := by
  unfold protoWriteAttributeArray
  by_cases hpass : passedWithAttributes ret = true
  · rw [if_pos hpass]
    obtain ⟨hr, hlen⟩ := h hpass
    obtain ⟨hwrite, hsig, hout⟩ := attributesPart_spec attrs hr hlen
    have hall := @parts_writer c rest lim [attributesPart attrs hr hlen, ulongPart ret]
    simp only [map_cons, map_nil, flatMap_cons, flatMap_nil, hwrite, hsig,
      append_nil] at hall
    apply hall.conseq (fun _ h => h) _ fun _ _ h => h
    intro ret' cs hcs
    apply hcs.mono
    simp only [length_append, ulongPart, length_encode]
    omega
  · rw [if_neg hpass]
    apply pass_writer
    · intro hok
      exact hpass (by simp [hok, passedWithAttributes])
    · intro cs hcs
      exact hcs.reqCallId

theorem whenOk_writer {w : Proto CkRv} (hP : ∀ cs, P cs → cs.req.callId = c.wire)
    (hw : ret = ckrOk → Writer P w fun ret => Answered c rest lim (ret = ckrOk)) :
    Writer P (whenOk w ret) fun ret => Answered c rest lim (ret = ckrOk) := by
  unfold whenOk
  by_cases hret : ret = ckrOk
  · rw [if_pos hret]
    exact hw hret
  · rw [if_neg hret]
    exact pass_writer hret hP

/-- A macro that does nothing unless the code so far is `CKR_OK`. -/
def OutPart.quiet : OutPart → Bool
  | .byteArray | .byteArrayGiven | .ulongArray | .attributeArray => false
  | _ => true

theorem ulong_writer (val : Nat) :
    Writer (Writing c ([.u] ++ rest) lim)
      (orPrepError (respWrite (gkmRpcMessageWriteUlong · val)))
      fun ret => Answered c rest (lim + 8) (ret = ckrOk) := by
  apply orPrepError_writer
  apply (respWrite_writer (ulongPart val).writes (ulongPart val).bytes).conseq
    (fun _ h => h) _ fun _ _ h => h
  intro ok cs hcs
  exact hcs.mono (by simp [ulongPart])

/-- A quiet macro goes on from a response that was written, or passes the code through. -/
theorem OutPart.write_quiet {p : OutPart} (hp : p.quiet = true) (args : List Arg) (ans : Answer)
    (ret : CkRv) (n : Nat) :
    Writer (Answered c (p.sig ++ rest) lim (ret = ckrOk)) (p.write args ans ret)
      fun ret => Answered c rest (lim + p.size n) (ret = ckrOk) := by
  have hkeep : ∀ cs, Answered c (p.sig ++ rest) lim (ret = ckrOk) cs → cs.req.callId = c.wire :=
    fun cs hcs => hcs.1
  have hrecord : ∀ w : Proto CkRv,
      (Writer (Writing c (p.sig ++ rest) lim) w
        fun ret => Answered c rest (lim + p.size n) (ret = ckrOk)) →
      Writer (Answered c (p.sig ++ rest) lim (ret = ckrOk)) (whenOk w ret)
        fun ret => Answered c rest (lim + p.size n) (ret = ckrOk) := by
    intro w hw
    apply whenOk_writer hkeep
    intro hret
    exact hw.conseq (fun cs hcs => hcs.2 hret) (fun _ _ h => h) fun _ _ h => h
  cases p with
  | ulong => exact hrecord _ (ulong_writer ans.ulong)
  | ulong2 => exact hrecord _ (ulong_writer ans.ulong2)
  | byteArray => exact absurd hp (by decide)
  | byteArrayGiven => exact absurd hp (by decide)
  | ulongArray => exact absurd hp (by decide)
  | attributeArray => exact absurd hp (by decide)
  | info => exact hrecord _ (protoWriteInfo_writer ans.info)
  | slotInfo => exact hrecord _ (protoWriteSlotInfo_writer ans.slotInfo)
  | tokenInfo => exact hrecord _ (protoWriteTokenInfo_writer ans.tokenInfo)
  | mechanismInfo => exact hrecord _ (protoWriteMechanismInfo_writer ans.mechanismInfo)
  | sessionInfo => exact hrecord _ (protoWriteSessionInfo_writer ans.sessionInfo)

theorem protoWriteByteArray_writer {array : Option Bytes}
    (h : ret = ckrOk → ∀ mem, array = some mem → len ≤ mem.length) :
    Writer (Writing c ([.a, .y] ++ rest) lim) (protoWriteByteArray array len ret)
      fun ret => Answered c rest (lim + (5 + 0x7fffffff)) (ret = ckrOk) := by
  unfold protoWriteByteArray
  split
  · apply orPrepError_writer
    apply byteArray_writer
    intro mem hmem
    exact absurd hmem (by simp)
  · split
    · rename_i hret
      exact orPrepError_writer (byteArray_writer (h hret))
    · rename_i hret
      exact pass_writer hret fun cs hcs => hcs.reqCallId

theorem protoWriteUlongArray_writer {array : Option (List Nat)}
    (h : ret = ckrOk → ∀ mem, array = some mem → len ≤ mem.length ∧ mem.length * 8 ≤ 0x7fffffff) :
    Writer (Writing c ([.a, .u] ++ rest) lim) (protoWriteUlongArray array len ret)
      fun ret => Answered c rest (lim + (5 + 0x7fffffff)) (ret = ckrOk) := by
  unfold protoWriteUlongArray
  split
  · apply orPrepError_writer
    apply ulongArray_writer
    intro mem hmem
    exact absurd hmem (by simp)
  · split
    · rename_i hret
      exact orPrepError_writer (ulongArray_writer (h hret))
    · rename_i hret
      exact pass_writer hret fun cs hcs => hcs.reqCallId

/-- The first macro of a handler, run with the code of the module below. -/
theorem OutPart.write_writer {p : OutPart} {args : List Arg} {ans : Answer}
    (h : p.Ready args ans) :
    Writer (Writing c (p.sig ++ rest) lim) (p.write args ans ans.rv)
      fun ret => Answered c rest (lim + p.size (attributesLength ans.attrs)) (ret = ckrOk) := by
  by_cases hq : p.quiet = true
  · exact (OutPart.write_quiet hq args ans ans.rv _).conseq
      (fun cs hcs => ⟨hcs.reqCallId, fun _ => hcs⟩) (fun _ _ h => h) fun _ _ h => h
  cases p with
  | byteArray =>
    apply protoWriteByteArray_writer
    intro hret mem hmem
    obtain ⟨n, hn, rfl⟩ := Option.map_eq_some_iff.1 hmem
    obtain ⟨hlen, hle⟩ := h hret n hn
    omega
  | byteArrayGiven =>
    apply protoWriteByteArray_writer
    intro hret mem hmem
    obtain ⟨n, hn, rfl⟩ := Option.map_eq_some_iff.1 hmem
    obtain ⟨hlen, -⟩ := h hret n hn
    rw [hn, Option.getD_some]
    omega
  | ulongArray =>
    apply protoWriteUlongArray_writer
    intro hret mem hmem
    obtain ⟨n, hn, rfl⟩ := Option.map_eq_some_iff.1 hmem
    obtain ⟨hlen, hmax, hle⟩ := h hret n hn
    constructor <;> omega
  | attributeArray => exact protoWriteAttributeArray_writer h
  | ulong => exact absurd rfl hq
  | ulong2 => exact absurd rfl hq
  | info => exact absurd rfl hq
  | slotInfo => exact absurd rfl hq
  | tokenInfo => exact absurd rfl hq
  | mechanismInfo => exact absurd rfl hq
  | sessionInfo => exact absurd rfl hq

theorem writeOuts_quiet {ps : List OutPart} (hps : ∀ p ∈ ps, p.quiet = true) (args : List Arg)
    (ans : Answer) (ret : CkRv) (n : Nat) :
    Writer (Answered c (ps.flatMap OutPart.sig ++ rest) lim (ret = ckrOk))
      (writeOuts ps args ans ret)
      fun ret => Answered c rest (lim + (ps.map (OutPart.size n)).sum) (ret = ckrOk) := by
  induction ps generalizing lim ret with
  | nil => exact Prog.Triple.pure fun _ h => h
  | cons p ps ih =>
    rw [flatMap_cons, append_assoc]
    apply Prog.Triple.bind (OutPart.write_quiet (hps p (by simp)) args ans ret n)
    intro ret'
    rw [map_cons, sum_cons, ← Nat.add_assoc]
    exact ih (fun q hq => hps q (by simp [hq])) ret'

/-- The macros of a handler: all but the first are quiet. -/
theorem writeOuts_writer {ps : List OutPart} {args : List Arg} {ans : Answer}
    (hps : ∀ p ∈ ps.tail, p.quiet = true) (hready : ∀ p ∈ ps, p.Ready args ans) :
    Writer (Writing c (ps.flatMap OutPart.sig ++ rest) lim) (writeOuts ps args ans ans.rv)
      fun ret => Answered c rest
        (lim + (ps.map (OutPart.size (attributesLength ans.attrs))).sum) (ret = ckrOk) := by
  cases ps with
  | nil =>
    apply Prog.Triple.pure
    intro cs hcs
    exact ⟨hcs.reqCallId, fun _ => hcs⟩
  | cons p ps =>
    rw [flatMap_cons, append_assoc]
    apply Prog.Triple.bind (OutPart.write_writer (hready p (by simp)))
    intro ret
    rw [map_cons, sum_cons, ← Nat.add_assoc]
    exact writeOuts_quiet hps args ans ret _

end MateKeyring.Rpc.Dispatch
