import MateKeyring.Rpc.Handlers

/-!
# Reading a request does not fault

Every `IN_*` macro but `IN_STRING`, run where the signature of the request expects its argument,
ends with an argument or with a code, keeps the response and the call, and uses up its part of the
signature (`InPart.read_triple`). The argument it ends with is `Fit`: a buffer is null or has as
much memory as its length says, within the limit of `call_alloc`. `readIns_triple` says the same
of a whole list of macros.
-/

set_option autoImplicit false

namespace MateKeyring.Rpc

/-- What holds of an argument that a handler has read. -/
def Arg.Fit : Arg → Prop
  | .byteBuffer arr len => ∀ mem, arr = some mem → mem.length = len ∧ len ≤ 0x7fffffff
  | .ulongBuffer arr len => ∀ mem, arr = some mem → mem.length = len ∧ len * 8 ≤ 0x7fffffff
  | .attributeBuffer arr => arr.length * 24 ≤ 0x7fffffff ∧
      ∀ attr ∈ arr, ∀ mem, attr.pValue = some mem → mem.length = attr.ulValueLen
  | _ => True

/-- The macro that reads an argument. -/
def Arg.part : Arg → Option Dispatch.InPart
  | .byte _ => some .byte
  | .ulong _ => some .ulong
  | .string _ => some .string
  | .byteArray _ _ => some .byteArray
  | .byteBuffer _ _ => some .byteBuffer
  | .ulongBuffer _ _ => some .ulongBuffer
  | .attributeBuffer _ => some .attributeBuffer
  | .attributeArray _ => some .attributeArray
  | .mechanism _ => some .mechanism
  | .application => none
  | .pointer _ => none

end MateKeyring.Rpc

namespace MateKeyring.Rpc.Dispatch

open Lib Egg List

/-- The call and the response that a state is about. -/
structure Kept (cs₀ cs : CallState) : Prop where
  callId : cs.req.callId = cs₀.req.callId
  resp : cs.resp = cs₀.resp

/-- A request that still expects `rest`. -/
structure Reading (cs₀ : CallState) (rest : Signature) (cs : CallState) : Prop where
  expects : Expects cs.req rest
  kept : Kept cs₀ cs

theorem Kept.refl (cs : CallState) : Kept cs cs := ⟨rfl, rfl⟩

/-- The part of the signature an `IN_*` macro reads. -/
def InPart.sig : InPart → Signature
  | .byte => [.y]
  | .ulong => [.u]
  | .string => [.z]
  | .byteBuffer => [.f, .y]
  | .byteArray => [.a, .y]
  | .ulongBuffer => [.f, .u]
  | .attributeBuffer => [.f, .attr]
  | .attributeArray => [.a, .attr]
  | .mechanism => [.mech]

variable {cs₀ : CallState} {rest : Signature} {α : Type}

/-- Triples of readers: a reader that stops does so with an error code, and keeps the call and the
response. -/
abbrev Reader (P : CallState → Prop) (cs₀ : CallState) (x : Proto α)
    (Q : α → CallState → Prop) : Prop :=
  Prog.Triple P x Q fun ret cs => ret ≠ ckrOk ∧ Kept cs₀ cs

theorem expectPart_reader (part : Signature) :
    Reader (Reading cs₀ (part ++ rest)) cs₀ (expectPart part) fun _ => Reading cs₀ rest := by
  intro cs hcs
  refine .inl ⟨(), { cs with req := { cs.req with sigverify := some rest } }, ?_, ?_⟩
  · apply Prog.run_apply
    rw [assertPart_of_expects hcs.expects]
    rfl
  · exact ⟨⟨hcs.expects.1, rfl⟩, ⟨hcs.kept.callId, hcs.kept.resp⟩⟩

/-- A read that never faults, as a step of a handler. -/
theorem getOrStop_reader {r : Getter α}
    {val : Bytes → Nat → Option (α × Nat)} (h : Reads r val) :
    Reader (Reading cs₀ rest) cs₀ (getOrStop r) fun _ => Reading cs₀ rest := by
  intro cs hcs
  have hget := GkmRpcMessage.get_eq h cs.req
  unfold getOrStop
  cases hv : val cs.req.buffer.buf cs.req.parsed with
  | none =>
    refine .inr ⟨parseError, { cs with req := { cs.req with buffer := cs.req.buffer.fail } },
      ?_, by decide, ⟨hcs.kept.callId, hcs.kept.resp⟩⟩
    rw [hget, hv]
    rfl
  | some v =>
    refine .inl ⟨v.1, { cs with req := { cs.req with parsed := v.2 } }, ?_,
      ⟨hcs.expects.1, hcs.expects.2⟩, ⟨hcs.kept.callId, hcs.kept.resp⟩⟩
    rw [hget, hv]
    rfl

/-- A request read up to `off`, whose signature still expects `rest`. -/
def CallState.advance (cs : CallState) (rest : Signature) (off : Nat) : CallState :=
  { cs with req := { cs.req with sigverify := some rest, parsed := off } }

theorem advance_self {cs : CallState} (h : Expects cs.req rest) :
    cs.advance rest cs.req.parsed = cs := by
  unfold CallState.advance
  rw [← h.2]

theorem expectPart_advance {cs : CallState} (hsig : cs.req.signature.isSome = true)
    (part rest : Signature) (off : Nat) :
    expectPart part (cs.advance (part ++ rest) off) = .ok (.ok (), cs.advance rest off) := by
  have hexp : Expects (cs.advance (part ++ rest) off).req (part ++ rest) := ⟨hsig, rfl⟩
  apply Prog.run_apply
  rw [assertPart_of_expects hexp]
  rfl

section

variable {r : Getter α}
  {val : Bytes → Nat → Option (α × Nat)} (h : Reads r val) {cs : CallState}

include h

theorem getOrStop_advance {v : α}
    {off off' : Nat} (hv : val cs.req.buffer.buf off = some (v, off')) (rest : Signature) :
    getOrStop r (cs.advance rest off) = .ok (.ok v, cs.advance rest off') := by
  have hv' : val (cs.advance rest off).req.buffer.buf (cs.advance rest off).req.parsed =
      some (v, off') := hv
  unfold getOrStop
  rw [GkmRpcMessage.get_eq h, hv']
  rfl

theorem getOrStop_advance_none {off : Nat} (hv : val cs.req.buffer.buf off = none) (rest : Signature) :
    ∃ cs', getOrStop r (cs.advance rest off) = .ok (.error parseError, cs') ∧ Kept cs cs' := by
  have hv' : val (cs.advance rest off).req.buffer.buf (cs.advance rest off).req.parsed = none := hv
  unfold getOrStop
  rw [GkmRpcMessage.get_eq h, hv']
  exact ⟨_, rfl, rfl, rfl⟩

end

theorem callAlloc_fst {cs cs' : CallState} {length : Nat} (h : callAlloc cs length = (true, cs')) :
    length ≤ 0x7fffffff := by
  unfold callAlloc at h
  split at h
  · simp at h
  · omega

theorem callAlloc_snd (cs : CallState) (length : Nat) :
    (callAlloc cs length).2.req = cs.req ∧ (callAlloc cs length).2.resp = cs.resp := by
  unfold callAlloc askMalloc
  split <;> exact ⟨rfl, rfl⟩

theorem allocOrStop_reader (length : Nat) :
    Reader (Reading cs₀ rest) cs₀ (allocOrStop length)
      fun _ cs => Reading cs₀ rest cs ∧ length ≤ 0x7fffffff := by
  intro cs hcs
  obtain ⟨hreq, hresp⟩ := callAlloc_snd cs length
  have hkept : Kept cs₀ (callAlloc cs length).2 :=
    ⟨by rw [hreq]; exact hcs.kept.callId, by rw [hresp]; exact hcs.kept.resp⟩
  unfold allocOrStop
  cases hc : callAlloc cs length with
  | mk ok cs' =>
    rw [hc] at hreq hkept
    cases ok with
    | false => exact .inr ⟨ckrDeviceMemory, cs', rfl, by decide, hkept⟩
    | true =>
      refine .inl ⟨(), cs', rfl, ⟨?_, hkept⟩, callAlloc_fst hc⟩
      have hexp := hcs.expects
      rwa [← show cs'.req = cs.req from hreq] at hexp

/-- What a macro that read an argument of kind `p` leaves. -/
def Read (cs₀ : CallState) (rest : Signature) (p : InPart) (arg : Arg) (cs : CallState) : Prop :=
  Reading cs₀ rest cs ∧ arg.Fit ∧ arg.part = some p

theorem reads_getByte : Reads eggBufferGetByte byteAt := eggBufferGetByte_eq

theorem reads_getUint32 : Reads eggBufferGetUint32 uint32At := eggBufferGetUint32_eq

theorem reads_getUint64 : Reads eggBufferGetUint64 uint64At := eggBufferGetUint64_eq

theorem reads_getByteArray : Reads eggBufferGetByteArray byteArrayAt := eggBufferGetByteArray_eq

theorem inByte_reader : Reader (Reading cs₀ ([.y] ++ rest)) cs₀ inByte (Read cs₀ rest .byte) := by
  apply Prog.Triple.bind (expectPart_reader [.y])
  intro _
  apply Prog.Triple.bind (getOrStop_reader reads_getByte)
  intro val
  apply Prog.Triple.pure
  intro cs hcs
  exact ⟨hcs, trivial, rfl⟩

theorem inUlong_reader :
    Reader (Reading cs₀ ([.u] ++ rest)) cs₀ inUlong (Read cs₀ rest .ulong) := by
  apply Prog.Triple.bind (expectPart_reader [.u])
  intro _
  apply Prog.Triple.bind (getOrStop_reader reads_getUint64)
  intro val
  apply Prog.Triple.pure
  intro cs hcs
  exact ⟨hcs, trivial, rfl⟩

theorem protoReadByteBuffer_reader :
    Reader (Reading cs₀ ([.f, .y] ++ rest)) cs₀ protoReadByteBuffer
      (Read cs₀ rest .byteBuffer) := by
  apply Prog.Triple.bind (expectPart_reader [.f, .y])
  intro _
  apply Prog.Triple.bind (getOrStop_reader reads_getUint32)
  intro length
  by_cases h0 : length = 0
  · rw [if_pos h0]
    apply Prog.Triple.pure
    intro cs hcs
    exact ⟨hcs, by simp [Arg.Fit], rfl⟩
  · rw [if_neg h0]
    apply Prog.Triple.bind (allocOrStop_reader length)
    intro _
    apply Prog.Triple.pure
    rintro cs ⟨hcs, hle⟩
    exact ⟨hcs, by simp [Arg.Fit, hle], rfl⟩

theorem protoReadUlongBuffer_reader :
    Reader (Reading cs₀ ([.f, .u] ++ rest)) cs₀ protoReadUlongBuffer
      (Read cs₀ rest .ulongBuffer) := by
  apply Prog.Triple.bind (expectPart_reader [.f, .u])
  intro _
  apply Prog.Triple.bind (getOrStop_reader reads_getUint32)
  intro length
  by_cases h0 : length = 0
  · rw [if_pos h0]
    apply Prog.Triple.pure
    intro cs hcs
    exact ⟨hcs, by simp [Arg.Fit], rfl⟩
  · rw [if_neg h0]
    apply Prog.Triple.bind (allocOrStop_reader (length * 8))
    intro _
    apply Prog.Triple.pure
    rintro cs ⟨hcs, hle⟩
    exact ⟨hcs, by simp [Arg.Fit, hle], rfl⟩

theorem protoReadByteArray_reader :
    Reader (Reading cs₀ ([.a, .y] ++ rest)) cs₀ protoReadByteArray
      (Read cs₀ rest .byteArray) := by
  apply Prog.Triple.bind (expectPart_reader [.a, .y])
  intro _
  apply Prog.Triple.bind (getOrStop_reader reads_getByte)
  intro valid
  by_cases h0 : valid = 0
  · rw [if_pos h0]
    apply Prog.Triple.pure
    intro cs hcs
    exact ⟨hcs, trivial, rfl⟩
  · rw [if_neg h0]
    apply Prog.Triple.bind (getOrStop_reader reads_getByteArray)
    intro data
    apply Prog.Triple.pure
    intro cs hcs
    exact ⟨hcs, trivial, rfl⟩

theorem protoReadMechanism_reader :
    Reader (Reading cs₀ ([.mech] ++ rest)) cs₀ protoReadMechanism
      (Read cs₀ rest .mechanism) := by
  apply Prog.Triple.bind (expectPart_reader [.mech])
  intro _
  apply Prog.Triple.bind (getOrStop_reader reads_getUint32)
  intro value
  apply Prog.Triple.bind (getOrStop_reader reads_getByteArray)
  intro data
  apply Prog.Triple.pure
  intro cs hcs
  exact ⟨hcs, trivial, rfl⟩

section

variable {cs : CallState} (hsig : cs.req.signature.isSome = true)

include hsig

theorem inUlong_advance {v off off' : Nat}
    (hv : uint64At cs.req.buffer.buf off = some (v, off')) (rest : Signature) :
    inUlong (cs.advance ([.u] ++ rest) off) = .ok (.ok (.ulong v), cs.advance rest off') := by
  unfold inUlong
  rw [Prog.bind_of_ok (expectPart_advance hsig [.u] rest off),
    Prog.bind_of_ok (getOrStop_advance reads_getUint64 hv rest)]
  rfl

theorem inUlong_advance_none {off : Nat}
    (hv : uint64At cs.req.buffer.buf off = none) (rest : Signature) :
    ∃ cs', inUlong (cs.advance ([.u] ++ rest) off) = .ok (.error parseError, cs') ∧
      Kept cs cs' := by
  obtain ⟨cs', hstop, hk⟩ := getOrStop_advance_none reads_getUint64 hv rest
  refine ⟨cs', ?_, hk⟩
  unfold inUlong
  rw [Prog.bind_of_ok (expectPart_advance hsig [.u] rest off), Prog.bind_of_stop hstop]

theorem protoReadByteArray_advance_null {off off' : Nat}
    (hv : byteAt cs.req.buffer.buf off = some (0, off')) (rest : Signature) :
    protoReadByteArray (cs.advance ([.a, .y] ++ rest) off) =
      .ok (.ok (.byteArray none 0), cs.advance rest off') := by
  unfold protoReadByteArray
  rw [Prog.bind_of_ok (expectPart_advance hsig [.a, .y] rest off),
    Prog.bind_of_ok (getOrStop_advance reads_getByte hv rest)]
  rfl

theorem protoReadByteArray_advance {valid : UInt8} {data : Option Bytes} {off off' off'' : Nat}
    (hv : byteAt cs.req.buffer.buf off = some (valid, off')) (hvalid : valid ≠ 0)
    (hd : byteArrayAt cs.req.buffer.buf off' = some (data, off'')) (rest : Signature) :
    protoReadByteArray (cs.advance ([.a, .y] ++ rest) off) =
      .ok (.ok (.byteArray data (data.getD []).length), cs.advance rest off'') := by
  unfold protoReadByteArray
  rw [Prog.bind_of_ok (expectPart_advance hsig [.a, .y] rest off),
    Prog.bind_of_ok (getOrStop_advance reads_getByte hv rest), if_neg hvalid,
    Prog.bind_of_ok (getOrStop_advance reads_getByteArray hd rest)]
  rfl

end

/-- The end of a byte array argument, as the daemon reads it. -/
def skipByteArray (bs : Bytes) (off : Nat) : Option Nat :=
  match byteAt bs off with
  | none => none
  | some (valid, off) => if valid = 0 then some off else (byteArrayAt bs off).map Prod.snd

theorem protoReadByteArray_skip {cs : CallState} (hsig : cs.req.signature.isSome = true)
    (off : Nat) (rest : Signature) :
    (∃ arg off', skipByteArray cs.req.buffer.buf off = some off' ∧
      protoReadByteArray (cs.advance ([.a, .y] ++ rest) off) =
        .ok (.ok arg, cs.advance rest off')) ∨
    (skipByteArray cs.req.buffer.buf off = none ∧ ∃ cs',
      protoReadByteArray (cs.advance ([.a, .y] ++ rest) off) =
        .ok (.error parseError, cs') ∧ Kept cs cs') := by
  unfold skipByteArray
  cases hv : byteAt cs.req.buffer.buf off with
  | none =>
    obtain ⟨cs', hstop, hk⟩ := getOrStop_advance_none reads_getByte hv rest
    refine .inr ⟨rfl, cs', ?_, hk⟩
    unfold protoReadByteArray
    rw [Prog.bind_of_ok (expectPart_advance hsig [.a, .y] rest off), Prog.bind_of_stop hstop]
  | some v =>
    obtain ⟨valid, off'⟩ := v
    dsimp only
    by_cases h0 : valid = 0
    · subst h0
      exact .inl ⟨_, off', rfl, protoReadByteArray_advance_null hsig hv rest⟩
    · rw [if_neg h0]
      cases hd : byteArrayAt cs.req.buffer.buf off' with
      | none =>
        obtain ⟨cs', hstop, hk⟩ := getOrStop_advance_none reads_getByteArray hd rest
        refine .inr ⟨rfl, cs', ?_, hk⟩
        unfold protoReadByteArray
        rw [Prog.bind_of_ok (expectPart_advance hsig [.a, .y] rest off),
          Prog.bind_of_ok (getOrStop_advance reads_getByte hv rest), if_neg h0,
          Prog.bind_of_stop hstop]
      | some d => exact .inl ⟨_, d.2, rfl, protoReadByteArray_advance hsig hv h0 hd rest⟩

/-- Attributes whose values have the memory their lengths say. -/
def AttrsFit (attrs : List CkAttribute) : Prop :=
  ∀ attr ∈ attrs, ∀ mem, attr.pValue = some mem → mem.length = attr.ulValueLen

theorem attrsFit_cons {attr : CkAttribute} {attrs : List CkAttribute}
    (h : ∀ mem, attr.pValue = some mem → mem.length = attr.ulValueLen) (hs : AttrsFit attrs) :
    AttrsFit (attr :: attrs) := by
  intro a ha
  rcases mem_cons.1 ha with rfl | ha
  · exact h
  · exact hs a ha

theorem readAttributeBuffers_reader (n : Nat) :
    Reader (Reading cs₀ rest) cs₀ (readAttributeBuffers n)
      fun attrs cs => Reading cs₀ rest cs ∧ attrs.length = n ∧ AttrsFit attrs := by
  induction n with
  | zero =>
    apply Prog.Triple.pure
    intro cs hcs
    exact ⟨hcs, rfl, by simp [AttrsFit]⟩
  | succ n ih =>
    apply Prog.Triple.bind (getOrStop_reader reads_getUint32)
    intro type
    apply Prog.Triple.bind (getOrStop_reader reads_getUint32)
    intro value
    by_cases h0 : value = 0
    · rw [if_pos h0]
      apply Prog.Triple.bind ih
      intro attrs
      apply Prog.Triple.pure
      rintro cs ⟨hcs, hlen, hfit⟩
      exact ⟨hcs, by simp [hlen], attrsFit_cons (by simp) hfit⟩
    · rw [if_neg h0]
      apply Prog.Triple.bind (allocOrStop_reader value)
      intro _
      apply Prog.Triple.bind (ih.conseq (fun _ hcs => hcs.1) (fun _ _ h => h) fun _ _ h => h)
      intro attrs
      apply Prog.Triple.pure
      rintro cs ⟨hcs, hlen, hfit⟩
      exact ⟨hcs, by simp [hlen], attrsFit_cons (by simp) hfit⟩

theorem readAttributes_reader (n : Nat) :
    Reader (Reading cs₀ rest) cs₀ (readAttributes n) fun _ => Reading cs₀ rest := by
  induction n with
  | zero =>
    apply Prog.Triple.pure
    intro cs hcs
    exact hcs
  | succ n ih =>
    apply Prog.Triple.bind (getOrStop_reader reads_getUint32)
    intro type
    apply Prog.Triple.bind (getOrStop_reader reads_getByte)
    intro valid
    by_cases h0 : valid = 0
    · rw [if_pos h0]
      apply Prog.Triple.bind ih
      intro attrs
      exact Prog.Triple.pure fun _ h => h
    · rw [if_neg h0]
      apply Prog.Triple.bind (getOrStop_reader reads_getUint32)
      intro value
      apply Prog.Triple.bind (getOrStop_reader reads_getByteArray)
      intro data
      by_cases hlen : data.isSome = true ∧ (data.getD []).length ≠ value
      · rw [if_pos hlen]
        exact Prog.Triple.stop fun _ h => ⟨by decide, h.kept⟩
      · rw [if_neg hlen]
        apply Prog.Triple.bind ih
        intro attrs
        exact Prog.Triple.pure fun _ h => h

theorem protoReadAttributeBuffer_reader :
    Reader (Reading cs₀ ([.f, .attr] ++ rest)) cs₀ protoReadAttributeBuffer
      (Read cs₀ rest .attributeBuffer) := by
  apply Prog.Triple.bind (expectPart_reader [.f, .attr])
  intro _
  apply Prog.Triple.bind (getOrStop_reader reads_getUint32)
  intro nAttrs
  apply Prog.Triple.bind (allocOrStop_reader (nAttrs * 24))
  intro _ cs hcs
  obtain ⟨hreading, hle⟩ := hcs
  have htail : Reader (Reading cs₀ rest) cs₀
      (do let attrs ← readAttributeBuffers nAttrs; pure (Arg.attributeBuffer attrs))
      (Read cs₀ rest .attributeBuffer) := by
    apply Prog.Triple.bind (readAttributeBuffers_reader nAttrs)
    intro attrs
    apply Prog.Triple.pure
    rintro cs ⟨hcs, hlen, hfit⟩
    exact ⟨hcs, ⟨by omega, hfit⟩, rfl⟩
  exact htail cs hreading

theorem protoReadAttributeArray_reader :
    Reader (Reading cs₀ ([.a, .attr] ++ rest)) cs₀ protoReadAttributeArray
      (Read cs₀ rest .attributeArray) := by
  apply Prog.Triple.bind (expectPart_reader [.a, .attr])
  intro _
  apply Prog.Triple.bind (getOrStop_reader reads_getUint32)
  intro nAttrs
  apply Prog.Triple.bind (allocOrStop_reader (nAttrs * 24))
  intro _
  apply Prog.Triple.bind
    ((readAttributes_reader nAttrs).conseq (fun _ h => h.1) (fun _ _ h => h) fun _ _ h => h)
  intro attrs
  apply Prog.Triple.pure
  intro cs hcs
  exact ⟨hcs, trivial, rfl⟩

/-- Every macro but `IN_STRING` reads its part of the signature without a fault. -/
theorem InPart.read_reader {p : InPart} (hp : p ≠ .string) :
    Reader (Reading cs₀ (p.sig ++ rest)) cs₀ p.read (Read cs₀ rest p) := by
  cases p with
  | byte => exact inByte_reader
  | ulong => exact inUlong_reader
  | string => exact absurd rfl hp
  | byteBuffer => exact protoReadByteBuffer_reader
  | byteArray => exact protoReadByteArray_reader
  | ulongBuffer => exact protoReadUlongBuffer_reader
  | attributeBuffer => exact protoReadAttributeBuffer_reader
  | attributeArray => exact protoReadAttributeArray_reader
  | mechanism => exact protoReadMechanism_reader

/-- A list of macros reads its signature without a fault, and gives an argument for each. -/
theorem readIns_reader {ps : List InPart} (hps : .string ∉ ps) :
    Reader (Reading cs₀ (ps.flatMap InPart.sig ++ rest)) cs₀ (readIns ps)
      fun args cs => Reading cs₀ rest cs ∧ (∀ arg ∈ args, arg.Fit) ∧
        args.map Arg.part = ps.map some := by
  induction ps with
  | nil =>
    apply Prog.Triple.pure
    intro cs hcs
    exact ⟨hcs, by simp, rfl⟩
  | cons p ps ih =>
    have hp : p ≠ .string := fun h => hps (by simp [h])
    have hps' : InPart.string ∉ ps := fun h => hps (by simp [h])
    rw [flatMap_cons, append_assoc]
    apply Prog.Triple.bind (InPart.read_reader hp)
    intro arg cs hcs
    obtain ⟨hreading, hfit, hpart⟩ := hcs
    have htail : Reader (Reading cs₀ (ps.flatMap InPart.sig ++ rest)) cs₀
        (do let args ← readIns ps; pure (arg :: args))
        fun args cs => Reading cs₀ rest cs ∧ (∀ a ∈ args, a.Fit) ∧
          args.map Arg.part = (p :: ps).map some := by
      apply Prog.Triple.bind (ih hps')
      intro args
      apply Prog.Triple.pure
      rintro cs ⟨hcs, hfits, hparts⟩
      refine ⟨hcs, ?_, by simp [hpart, hparts]⟩
      intro a ha
      rcases mem_cons.1 ha with rfl | ha
      · exact hfit
      · exact hfits a ha
    exact htail cs hreading

end MateKeyring.Rpc.Dispatch
