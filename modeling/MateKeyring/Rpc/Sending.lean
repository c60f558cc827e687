import MateKeyring.Rpc.Reading
import MateKeyring.Rpc.Module

/-!
# The octets a stub sends

`Arg.bytes` are the octets of an argument on the wire. `InMacro.write_sent` says that a macro of
the client that goes on appended the octets of its argument, and that the argument is one that can
be sent (`Arg.Sent`); `buildRequest_sent` says the same of the whole request of a stub.

`Arg.delivered` is the argument as it arrives at the other end. It is the argument itself but for
what the protocol does not carry: the contents of a result buffer, the memory behind a length, the
parameter of a mechanism that has none.
-/

set_option autoImplicit false

namespace MateKeyring.Rpc

open Lib Egg MateKeyring.Rpc.Module BigEndian List

variable {msg msg' : GkmRpcMessage} {rest : Signature} {num : Nat}

variable {w : GkmRpcMessage → Checked (Bool × GkmRpcMessage)}

/-! ## Arguments on the wire -/

/-- The length on the wire of a result buffer: nothing for a null pointer. -/
def bufferLength {α : Type} (arr : Option (List α)) (len : Nat) : Nat :=
  if arr.isSome then len else 0

/-- The parameter of a mechanism on the wire. -/
def CkMechanism.wireParameter (mech : CkMechanism) : Option Bytes :=
  if gkmRpcMechanismHasNoParameters mech.mechanism then none
  else regionBytes mech.pParameter mech.ulParameterLen

/-- The octets of an argument. -/
def Arg.bytes : Arg → Bytes
  | .byte val => [val]
  | .ulong val => encode 8 val
  | .string val => byteArrayBytes (some val)
  | .byteArray arr len => byteArrayArgBytes arr len
  | .byteBuffer arr len => encode 4 (bufferLength arr len)
  | .ulongBuffer arr len => encode 4 (bufferLength arr len)
  | .attributeBuffer arr => encode 4 arr.length ++ attributeBufferBytes arr
  | .attributeArray arr => encode 4 arr.length ++ arr.flatMap attributeBytes
  | .mechanism mech => encode 4 mech.mechanism ++ byteArrayBytes mech.wireParameter
  | .application => []
  | .pointer _ => []

/-- What holds of an argument that a stub has sent. -/
def Arg.Sent : Arg → Prop
  | .byteArray none len => len = 0
  | .byteArray (some mem) len => len < 0x7fffffff ∧ len ≤ mem.length
  | .attributeArray arr => ∀ attr ∈ arr, attr.Readable ∧ attr.Sendable
  | .mechanism mech =>
    gkmRpcMechanismIsSupported mech.mechanism = true ∧
      ∀ data, mech.wireParameter = some data →
        data.length = mech.ulParameterLen ∧ mech.ulParameterLen < 0x7fffffff
  | _ => True

theorem mechanism_lt {type : Nat} (h : gkmRpcMechanismIsSupported type = true) : type < 2 ^ 32 := by
  have hlist : ∀ m ∈ mechanismsWithoutParameters, m < 2 ^ 32 := by decide
  rw [gkmRpcMechanismIsSupported, Bool.or_eq_true] at h
  rcases h with h | h
  · exact hlist type (by simpa [gkmRpcMechanismHasNoParameters] using h)
  · simp only [gkmRpcMechanismHasSaneParameters, Bool.or_eq_true, beq_iff_eq] at h
    omega

/-- An attribute of a result buffer as it arrives. -/
def CkAttribute.deliveredBuffer (attr : CkAttribute) : CkAttribute :=
  if attr.bufferLen = 0 then ⟨attr.type, none, 0⟩
  else ⟨attr.type, some (replicate attr.bufferLen 0xff), attr.bufferLen⟩

/-- An attribute of a template as it arrives. -/
def CkAttribute.delivered (attr : CkAttribute) : CkAttribute :=
  if attr.ulValueLen = ckUnavailable then ⟨attr.type, none, ckUnavailable⟩
  else ⟨attr.type, regionBytes attr.pValue attr.ulValueLen, attr.ulValueLen⟩

/-- The argument as it arrives: only the memory that its length speaks of, a fresh block for a
result buffer, and no parameter for a mechanism that has none. -/
def Arg.delivered : Arg → Arg
  | .byteArray arr len => .byteArray (regionBytes arr len) len
  | .byteBuffer arr len =>
    if bufferLength arr len = 0 then .byteBuffer none 0
    else .byteBuffer (some (replicate len 0xff)) len
  | .ulongBuffer arr len =>
    if bufferLength arr len = 0 then .ulongBuffer none 0
    else .ulongBuffer (some (replicate len (2 ^ 64 - 1))) len
  | .attributeBuffer arr => .attributeBuffer (arr.map CkAttribute.deliveredBuffer)
  | .attributeArray arr => .attributeArray (arr.map CkAttribute.delivered)
  | .mechanism mech =>
    .mechanism ⟨mech.mechanism, mech.wireParameter,
      if mech.wireParameter.isSome then mech.ulParameterLen else 0⟩
  | arg => arg

/-- The numbers of an argument fit their places: 64 bits for a `CK_ULONG`, and 32 bits where the
protocol has 32. -/
def Arg.InRange : Arg → Prop
  | .ulong val => val < 2 ^ 64
  | .byteBuffer arr len => bufferLength arr len < 2 ^ 32
  | .ulongBuffer arr len => bufferLength arr len < 2 ^ 32
  | .attributeBuffer arr =>
    arr.length < 2 ^ 32 ∧ ∀ attr ∈ arr, attr.type < 2 ^ 32 ∧ attr.bufferLen < 2 ^ 32
  | .attributeArray arr =>
    arr.length < 2 ^ 32 ∧ ∀ attr ∈ arr, attr.type < 2 ^ 32 ∧
      (attr.ulValueLen ≠ ckUnavailable → attr.ulValueLen < 2 ^ 32)
  | _ => True

/-- The sizes of the blocks the daemon asks for when it reads an argument. -/
def Arg.blocks : Arg → List Nat
  | .byteBuffer arr len => [bufferLength arr len]
  | .ulongBuffer arr len => [bufferLength arr len * 8]
  | .attributeBuffer arr => arr.length * 24 :: arr.map CkAttribute.bufferLen
  | .attributeArray arr => [arr.length * 24]
  | _ => []

/-- A null array of bytes. -/
def Arg.isNullArray : Arg → Bool
  | .byteArray none _ => true
  | _ => false

/-- The daemon's macro that reads what a macro of the client writes. -/
def Module.InMacro.part : InMacro → Dispatch.InPart
  | .byte _ => .byte
  | .ulong _ => .ulong
  | .string _ => .string
  | .byteBuffer _ _ => .byteBuffer
  | .byteArray _ _ => .byteArray
  | .ulongBuffer _ _ => .ulongBuffer
  | .attributeBuffer _ _ => .attributeBuffer
  | .attributeArray _ _ => .attributeArray
  | .mechanismType _ => .ulong
  | .mechanism _ => .mechanism

namespace Module

/-! ## The client -/

/-- The message after writes that described `out`, when the signature still expects `rest`. -/
def Filled (msg : GkmRpcMessage) (rest : Signature) (out : Bytes) (msg' : GkmRpcMessage) : Prop :=
  ∃ buffer, msg' = { msg with buffer := buffer, sigverify := some rest } ∧
    buffer.buf = msg.buffer.buf ++ out ∧ buffer.failures = msg.buffer.failures

theorem filled_unique {out out' : Bytes} (h : Filled msg rest out msg')
    (h' : Filled msg rest out' msg') : out = out' := by
  obtain ⟨buffer, rfl, hbuf, -⟩ := h
  obtain ⟨buffer', heq, hbuf', -⟩ := h'
  have hb : buffer = buffer' := congrArg GkmRpcMessage.buffer heq
  rw [← hb, hbuf] at hbuf'
  exact append_cancel_left hbuf'

theorem orHostMemory_eq_ok
    (h : orHostMemory w msg = .ok (.ok (), msg')) :
    w msg = .ok (true, msg') := by
  obtain ⟨ok, msg₁, hrun, hrest⟩ := Prog.bind_eq_ok.1 h
  have hw : w msg = .ok (ok, msg₁) := by
    unfold Prog.run at hrun
    split at hrun
    · simp at hrun
    · rename_i a s heq
      simp only [Except.ok.injEq, Prod.mk.injEq] at hrun
      rw [heq, hrun.1, hrun.2]
  cases ok with
  | false => simp at hrest
  | true =>
    have hmsg : msg₁ = msg' := by simpa using hrest
    rw [hw, hmsg]

/-- A write that went on appended what it describes. -/
theorem MsgWrites.filled {part rest : Signature} {out : Bytes} (hw : MsgWrites msg part out (w msg))
    (hexp : Expects msg (part ++ rest)) (h : orHostMemory w msg = .ok (.ok (), msg')) :
    Filled msg rest out msg' := by
  obtain ⟨b, buffer, hr, -, hok⟩ := hw rest hexp
  rw [orHostMemory_eq_ok h] at hr
  simp only [Except.ok.injEq, Prod.mk.injEq] at hr
  obtain ⟨hbuf, hfail⟩ := hok hr.1.symm
  exact ⟨buffer, hr.2, hbuf, hfail⟩

theorem readableRegion_of_addRegion {region : Option Bytes} {len : Nat} {b : EggBuffer}
    {r : Bool × EggBuffer} (h : addRegion region len b = .ok r) : ReadableRegion region len := by
  intro mem hmem hlt
  subst hmem
  simp only [addRegion, if_neg (show ¬ 0x7fffffff ≤ len by omega)] at h
  obtain ⟨data, hdata, -⟩ := bind_eq_ok.1 h
  exact (memRead_eq_ok.1 hdata).1

theorem readable_of_addAttribute {attr : CkAttribute} {b b' : EggBuffer}
    (h : addAttribute attr b = .ok b') : attr.Readable := by
  intro hne
  simp only [addAttribute, if_neg hne] at h
  obtain ⟨r, hr, -⟩ := bind_eq_ok.1 h
  exact readableRegion_of_addRegion hr

theorem readable_of_addAttributes {arr : List CkAttribute} {b b' : EggBuffer}
    (h : addAttributes arr b = .ok b') : ∀ attr ∈ arr, attr.Readable := by
  induction arr generalizing b with
  | nil => simp
  | cons attr arr ih =>
    obtain ⟨b₁, h1, h2⟩ := bind_eq_ok.1 h
    intro a ha
    rcases mem_cons.1 ha with rfl | ha
    · exact readable_of_addAttribute h1
    · exact ih h2 a ha

theorem elementsOf_eq_ok {α : Type} {arr : Option (List α)} {xs : List α}
    (h : elementsOf arr num msg = .ok (.ok xs, msg')) :
    xs = (arr.getD []).take num ∧ msg' = msg := by
  unfold elementsOf Prog.run at h
  cases harr : elements arr num with
  | error f => simp [harr] at h
  | ok ys =>
    simp only [harr, ok_bind, pure_eq_ok, Except.ok.injEq, Prod.mk.injEq] at h
    refine ⟨?_, h.2.symm⟩
    rw [← h.1]
    unfold elements at harr
    split at harr <;> split at harr <;> simp_all

theorem byteArray_sent {arr : CkBytePtr} {len : Nat} (hexp : Expects msg ([.a, .y] ++ rest))
    (h : (InMacro.byteArray arr len).write msg = .ok (.ok (), msg')) :
    Filled msg rest (byteArrayArgBytes arr len) msg' ∧ (Arg.byteArray arr len).Sent := by
  by_cases hnull : len ≠ 0 ∧ arr.isNone = true
  · rw [InMacro.write, if_pos hnull] at h
    simp at h
  · rw [InMacro.write, if_neg hnull] at h
    have hw := orHostMemory_eq_ok h
    cases arr with
    | none =>
      refine ⟨MsgWrites.filled (gkmRpcMessageWriteByteArray_writes msg none len ?_) hexp h, ?_⟩
      · intro mem hmem
        simp at hmem
      · show len = 0
        simpa using hnull
    | some mem =>
      by_cases hlong : 0x7fffffff ≤ len
      · -- a length that is refused cannot have gone on
        have hfill := fun out => MsgWrites.filled
          (gkmRpcMessageWriteByteArray_refused msg mem hlong out) hexp h
        exact absurd (filled_unique (hfill []) (hfill [0])) (by simp)
      · have hread : ReadableRegion (some mem) len := by
          simp only [gkmRpcMessageWriteByteArray, assertPart_of_expects hexp, ok_bind] at hw
          obtain ⟨r, hr, -⟩ := bind_eq_ok.1 hw
          exact readableRegion_of_addRegion hr
        exact ⟨MsgWrites.filled (gkmRpcMessageWriteByteArray_writes msg _ len hread) hexp h,
          by omega, hread mem rfl (by omega)⟩

theorem attributeBuffer_sent {arr : CkAttributePtr} (hexp : Expects msg ([.f, .attr] ++ rest))
    (h : (InMacro.attributeBuffer arr num).write msg = .ok (.ok (), msg')) :
    Filled msg rest (InMacro.attributeBuffer arr num).arg.bytes msg' := by
  by_cases hnull : num ≠ 0 ∧ arr.isNone = true
  · rw [InMacro.write, if_pos hnull] at h
    simp at h
  · rw [InMacro.write, if_neg hnull] at h
    obtain ⟨attrs, msg₁, h1, h2⟩ := Prog.bind_eq_ok.1 h
    obtain ⟨rfl, rfl⟩ := elementsOf_eq_ok h1
    exact MsgWrites.filled (gkmRpcMessageWriteAttributeBuffer_writes _ _) hexp h2

theorem attributeArray_sent {arr : CkAttributePtr} (hexp : Expects msg ([.a, .attr] ++ rest))
    (h : (InMacro.attributeArray arr num).write msg = .ok (.ok (), msg')) :
    Filled msg rest (InMacro.attributeArray arr num).arg.bytes msg' ∧
      (InMacro.attributeArray arr num).arg.Sent := by
  by_cases hnull : num ≠ 0 ∧ arr.isNone = true
  · rw [InMacro.write, if_pos hnull] at h
    simp at h
  · rw [InMacro.write, if_neg hnull] at h
    obtain ⟨attrs, msg₁, h1, h2⟩ := Prog.bind_eq_ok.1 h
    obtain ⟨hattrs, rfl⟩ := elementsOf_eq_ok h1
    have hread : ∀ attr ∈ attrs, attr.Readable := by
      have hw := orHostMemory_eq_ok h2
      simp only [gkmRpcMessageWriteAttributeArray, assertPart_of_expects hexp, ok_bind] at hw
      obtain ⟨r, hr, -⟩ := bind_eq_ok.1 hw
      exact readable_of_addAttributes hr
    have hsend : ∀ attr ∈ attrs, attr.Sendable := by
      by_contra hlong
      have hfill := fun out => MsgWrites.filled
        (gkmRpcMessageWriteAttributeArray_refused msg₁ attrs hread hlong out) hexp h2
      exact absurd (filled_unique (hfill []) (hfill [0])) (by simp)
    have hfilled := MsgWrites.filled (gkmRpcMessageWriteAttributeArray_writes _ _ hread) hexp h2
    subst hattrs
    exact ⟨hfilled, fun attr ha => ⟨hread attr ha, hsend attr ha⟩⟩

/-- A buffer without errors after writes: no failure was counted, and the octets are there. -/
theorem filled_of_noError {msg : GkmRpcMessage} {out : Bytes} {buffer : EggBuffer}
    (hw : Wrote msg.buffer buffer out) (hok : eggBufferHasError buffer = false) :
    Filled msg rest out { msg with buffer := buffer, sigverify := some rest } := by
  have h0 : buffer.failures = 0 := by simpa [eggBufferHasError] using hok
  have hmono := hw.mono
  exact ⟨buffer, rfl, hw.buf_of_noError hok, by omega⟩

theorem mechanism_sent {mech : CkMechanism} (hexp : Expects msg ([.mech] ++ rest))
    (h : protoWriteMechanism mech msg = .ok (.ok (), msg')) :
    Filled msg rest (Arg.mechanism mech).bytes msg' ∧ (Arg.mechanism mech).Sent := by
  simp only [protoWriteMechanism, assertPart_of_expects hexp, ok_bind] at h
  have htype := wrote_addUint32 mech.mechanism msg.buffer
  by_cases hno : gkmRpcMechanismHasNoParameters mech.mechanism = true
  · simp only [if_pos hno, pure_eq_ok, Except.ok.injEq, Prod.mk.injEq] at h
    obtain ⟨hret, rfl⟩ := h
    have hwire : mech.wireParameter = none := by rw [CkMechanism.wireParameter, if_pos hno]
    refine ⟨?_, by simp [gkmRpcMechanismIsSupported, hno], by simp [hwire]⟩
    rw [Arg.bytes, hwire]
    apply filled_of_noError (htype.trans (eggBufferAddByteArray_writes _ none).wrote)
    by_contra herr
    simp [herr] at hret
  · rw [if_neg hno] at h
    by_cases hsane : gkmRpcMechanismHasSaneParameters mech.mechanism = true
    · rw [if_pos hsane] at h
      obtain ⟨r, hadd, h⟩ := bind_eq_ok.1 h
      obtain ⟨r₁, b', hadd', hw, hlt⟩ :=
        addRegion_ok (readableRegion_of_addRegion hadd) (eggBufferAddUint32 msg.buffer mech.mechanism).2
      rw [hadd] at hadd'
      cases hadd'
      simp only [pure_eq_ok, Except.ok.injEq, Prod.mk.injEq] at h
      obtain ⟨hret, rfl⟩ := h
      have hok : eggBufferHasError b' = false := by
        by_contra herr
        simp [herr] at hret
      have hwire : mech.wireParameter = regionBytes mech.pParameter mech.ulParameterLen := by
        rw [CkMechanism.wireParameter, if_neg hno]
      refine ⟨?_, by simp [gkmRpcMechanismIsSupported, hsane], ?_⟩
      · rw [Arg.bytes, hwire]
        exact filled_of_noError (htype.trans hw) hok
      · intro data hdata
        rw [hwire, regionBytes, Option.map_eq_some_iff] at hdata
        obtain ⟨mem, hmem, rfl⟩ := hdata
        have h0 : b'.failures = 0 := by simpa [eggBufferHasError] using hok
        have hmono := hw.mono
        have hlen := hlt (by omega) (by simp [hmem])
        have hle := readableRegion_of_addRegion hadd mem hmem hlen
        simp only [length_take]
        omega
    · simp [if_neg hsane] at h

/-- A macro that goes on appended the octets of its argument. -/
theorem InMacro.write_sent {p : InMacro} (hexp : Expects msg (p.part.sig ++ rest))
    (h : p.write msg = .ok (.ok (), msg')) :
    Filled msg rest p.arg.bytes msg' ∧ p.arg.Sent ∧ p.arg.part = some p.part := by
  cases p with
  | byte val => exact ⟨MsgWrites.filled (gkmRpcMessageWriteByte_writes _ _) hexp h, trivial, rfl⟩
  | ulong val => exact ⟨MsgWrites.filled (gkmRpcMessageWriteUlong_writes _ _) hexp h, trivial, rfl⟩
  | string val =>
    cases val with
    | none =>
      have hw := orHostMemory_eq_ok h
      simp [gkmRpcMessageWriteZeroString, cAssert] at hw
    | some val =>
      exact ⟨MsgWrites.filled (gkmRpcMessageWriteZeroString_writes _ _) hexp h, trivial, rfl⟩
  | byteBuffer arr len =>
    cases len with
    | none => simp [InMacro.write] at h
    | some len =>
      exact ⟨MsgWrites.filled (gkmRpcMessageWriteByteBuffer_writes _ _) hexp h, trivial, rfl⟩
  | byteArray arr len => exact and_assoc.1 ⟨byteArray_sent hexp h, rfl⟩
  | ulongBuffer arr len =>
    cases len with
    | none => simp [InMacro.write] at h
    | some len =>
      exact ⟨MsgWrites.filled (gkmRpcMessageWriteUlongBuffer_writes _ _) hexp h, trivial, rfl⟩
  | attributeBuffer arr num => exact ⟨attributeBuffer_sent hexp h, trivial, rfl⟩
  | attributeArray arr num => exact and_assoc.1 ⟨attributeArray_sent hexp h, rfl⟩
  | mechanismType val =>
    by_cases hsup : gkmRpcMechanismIsSupported val = true
    · rw [InMacro.write, if_pos hsup] at h
      exact ⟨MsgWrites.filled (gkmRpcMessageWriteUlong_writes _ _) hexp h, trivial, rfl⟩
    · simp [InMacro.write, if_neg hsup] at h
  | mechanism val =>
    cases val with
    | none => simp [InMacro.write] at h
    | some mech => exact and_assoc.1 ⟨mechanism_sent hexp h, rfl⟩

/-- The macros of a stub that go on appended the octets of their arguments, and used up their
signature. -/
theorem writeIns_sent {ps : List InMacro} {msg msg' : GkmRpcMessage} {rest : Signature}
    (hexp : Expects msg (ps.flatMap (fun p => p.part.sig) ++ rest))
    (h : writeIns ps msg = .ok (.ok (), msg')) :
    Filled msg rest (ps.flatMap fun p => p.arg.bytes) msg' ∧
      ∀ p ∈ ps, p.arg.Sent ∧ p.arg.part = some p.part := by
  induction ps generalizing msg with
  | nil =>
    have hmsg : msg = msg' := by simpa [writeIns] using h
    subst hmsg
    refine ⟨⟨msg.buffer, ?_, by simp, rfl⟩, by simp⟩
    have hver : msg.sigverify = some rest := by simpa using hexp.2
    rw [← hver]
  | cons p ps ih =>
    obtain ⟨⟨⟩, msg₁, h1, h2⟩ := Prog.bind_eq_ok.1 h
    rw [flatMap_cons, append_assoc] at hexp
    obtain ⟨⟨buffer, rfl, hbuf, hfail⟩, hsent⟩ := InMacro.write_sent hexp h1
    have hexp' : Expects { msg with
        buffer := buffer, sigverify := some (ps.flatMap (fun p => p.part.sig) ++ rest) }
        (ps.flatMap (fun p => p.part.sig) ++ rest) := ⟨hexp.1, rfl⟩
    obtain ⟨⟨buffer', rfl, hbuf', hfail'⟩, hsents⟩ := ih hexp' h2
    refine ⟨⟨buffer', rfl, ?_, by rw [hfail', hfail]⟩, ?_⟩
    · rw [hbuf', hbuf, flatMap_cons, append_assoc]
    · intro q hq
      rcases mem_cons.1 hq with rfl | hq
      · exact hsent
      · exact hsents q hq

/-- The octets of the request of a stub. -/
def Stub.bytes (s : Stub) : Bytes :=
  s.call.header .request ++ s.ins.flatMap fun p => p.arg.bytes

/-- The steps of a stub that gets as far as sending. -/
theorem buildRequest_steps {s : Stub} (h : buildRequest s msg = .ok (.ok (), msg')) : ∃ prepared,
      callPrepare s.call msg = .ok (.ok (), prepared) ∧
      writeIns s.ins prepared = .ok (.ok (), msg') ∧
      gkmRpcMessageBufferError msg' = false ∧ gkmRpcMessageIsVerified msg' = true := by
  unfold buildRequest at h
  cases hacc : s.accepts with
  | false => simp [hacc] at h
  | true =>
    rw [hacc, if_pos rfl] at h
    obtain ⟨⟨⟩, msg₁, hprep, h⟩ := Prog.bind_eq_ok.1 h
    obtain ⟨⟨⟩, msg₂, hins, h⟩ := Prog.bind_eq_ok.1 h
    obtain ⟨err, msg₃, hread, h⟩ := Prog.bind_eq_ok.1 h
    simp only [Prog.read_apply, Except.ok.injEq, Prod.mk.injEq] at hread
    obtain ⟨rfl, rfl⟩ := hread
    split at h
    · simp at h
    · rename_i herr
      unfold Prog.run at h
      split at h
      · simp at h
      · rename_i heq
        obtain ⟨⟨⟩, hver, hpure⟩ := bind_eq_ok.1 heq
        simp only [pure_eq_ok, Except.ok.injEq, Prod.mk.injEq] at hpure h
        obtain rfl : msg₂ = msg' := by rw [← h.2, ← hpure.2]
        refine ⟨msg₁, hprep, hins, by simpa using herr, ?_⟩
        -- the assertion of `call_run` held
        by_contra hne
        simp [cAssert, hne] at hver

/-- A request that was prepared has its header in the buffer and expects its arguments. -/
theorem callPrepare_eq_ok {c : CallId} {msg prepared : GkmRpcMessage}
    (h : callPrepare c msg = .ok (.ok (), prepared)) :
    prepared.callId = c.wire ∧ Expects prepared c.request ∧
      prepared.buffer.buf = c.header .request := by
  obtain ⟨buffer, hcall, hw⟩ := gkmRpcMessagePrep_call (gkmRpcMessageReset msg) c .request
  have hprep := orHostMemory_eq_ok h
  rw [hcall] at hprep
  simp only [Except.ok.injEq, Prod.mk.injEq] at hprep
  obtain ⟨hok, rfl⟩ := hprep
  refine ⟨rfl, ⟨rfl, rfl⟩, ?_⟩
  rw [hw.buf_of_noError (by simpa using hok)]
  simp [gkmRpcMessageReset, eggBufferReset]

/-- A stub that gets as far as sending has the octets of its request in the buffer. -/
theorem buildRequest_sent {s : Stub} (hsig : s.ins.flatMap (fun p => p.part.sig) = s.call.request)
    (h : buildRequest s msg = .ok (.ok (), msg')) :
    msg'.buffer.buf = s.bytes ∧ ∀ p ∈ s.ins, p.arg.Sent ∧ p.arg.part = some p.part := by
  obtain ⟨prepared, hprep, hins, -, -⟩ := buildRequest_steps h
  obtain ⟨-, hexp, hbuf⟩ := callPrepare_eq_ok hprep
  obtain ⟨⟨buffer, rfl, hbuf', -⟩, hsent⟩ :=
    @writeIns_sent s.ins prepared msg' [] (by rwa [hsig, append_nil]) hins
  refine ⟨?_, hsent⟩
  rw [hbuf', hbuf]
  rfl

end Module

end MateKeyring.Rpc
