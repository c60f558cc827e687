import MateKeyring.Rpc.Safety
import MateKeyring.Rpc.Sending

/-!
# What the caller gives is what the module below is given

The client writes the arguments of a call with one set of macros and the daemon reads them with
another. `InPart.read_delivered` says that a macro of the daemon positioned at the octets of an
argument gives the argument as it arrives; `readIns_delivered` is the same for the arguments of a
handler. The stubs and the handlers agree on the arguments (`matches_of_isStub`), so what a stub
sends is what the handler passes on (`rpc_call_transparent`).

Reading asks for memory. `Delivers` carries the outcome: the value, unless a block of one of the
given sizes was refused.
-/

set_option autoImplicit false

namespace MateKeyring.Rpc

open Lib Egg MateKeyring.Rpc.Module BigEndian List

variable {arr : List CkAttribute}

namespace Dispatch

/-! ## The daemon -/

/-- One of the blocks is refused: it is too long for `call_alloc`, or `malloc` may not give it. -/
def CallState.Refuses (cs : CallState) (blocks : List Nat) : Prop :=
  ∃ size ∈ blocks, 0x7fffffff < size ∨ ∃ i, cs.malloc i (8 + size) = false

/-- A request read up to `off` after `n` requests for memory, whose signature still expects
`rest`. -/
def CallState.reach (cs : CallState) (n : Nat) (rest : Signature) (off : Nat) : CallState :=
  { cs with mallocs := n }.advance rest off

/-- The outcome `x` of reading `a` up to `off`, with `rest` still expected: it is `a`, unless a
block was refused. -/
def Delivers {α : Type} (cs : CallState) (blocks : List Nat)
    (x : Checked (Except CkRv α × CallState)) (a : α) (rest : Signature) (off : Nat) : Prop :=
  (∃ n, x = .ok (.ok a, cs.reach n rest off)) ∨
    ∃ cs', x = .ok (.error ckrDeviceMemory, cs') ∧ cs.Refuses blocks

variable {cs : CallState} {n : Nat} {blocks : List Nat} {rest rest' : Signature} {off off' : Nat}
variable {α β : Type}

theorem Delivers.bind {x : Proto α} {f : α → Proto β} {a : α} {b : β} {s : CallState}
    (hx : Delivers cs blocks (x s) a rest off)
    (hf : ∀ n, Delivers cs blocks (f a (cs.reach n rest off)) b rest' off') :
    Delivers cs blocks ((x >>= f) s) b rest' off' := by
  rcases hx with ⟨n, hx⟩ | ⟨cs', hx, href⟩
  · rw [Prog.bind_of_ok hx]
    exact hf n
  · exact .inr ⟨cs', Prog.bind_of_stop hx f, href⟩

theorem delivers_pure (cs : CallState) (blocks : List Nat) (a : α) (rest : Signature) (off : Nat) :
    Delivers cs blocks ((pure a : Proto α) (cs.reach n rest off)) a rest off :=
  .inl ⟨n, rfl⟩

theorem expectPart_delivers (hsig : cs.req.signature.isSome = true) (part : Signature) :
    Delivers cs blocks (expectPart part (cs.reach n (part ++ rest) off)) () rest off :=
  .inl ⟨n, @expectPart_advance { cs with mallocs := n } hsig part rest off⟩

theorem getOrStop_delivers {r : Getter α}
    {val : Bytes → Nat → Option (α × Nat)} (h : Reads r val) {v : α}
    (hv : val cs.req.buffer.buf off = some (v, off')) :
    Delivers cs blocks (getOrStop r (cs.reach n rest off)) v rest off' :=
  .inl ⟨n, @getOrStop_advance _ _ _ h { cs with mallocs := n } _ _ _ hv rest⟩

theorem allocOrStop_delivers {length : Nat} (hmem : length ∈ blocks) :
    Delivers cs blocks (allocOrStop length (cs.reach n rest off)) () rest off := by
  unfold Delivers allocOrStop callAlloc askMalloc
  by_cases hlong : length > 0x7fffffff
  · rw [if_pos hlong]
    exact .inr ⟨_, rfl, length, hmem, .inl hlong⟩
  · rw [if_neg hlong]
    cases hm : cs.malloc n (8 + length) with
    | false =>
      refine .inr ⟨cs.reach (n + 1) rest off, ?_, length, hmem, .inr ⟨n, hm⟩⟩
      simp only [CallState.reach, CallState.advance, hm]
    | true =>
      refine .inl ⟨n + 1, ?_⟩
      simp only [CallState.reach, CallState.advance, hm]

/-! ### The macros -/

section

variable (hsig : cs.req.signature.isSome = true)

include hsig

theorem protoReadByteBuffer_delivers {len : Nat}
    (hat : HasAt cs.req.buffer.buf off (encode 4 len)) (hlen : len < 2 ^ 32)
    (hblk : len ∈ blocks) :
    Delivers cs blocks (protoReadByteBuffer (cs.reach n ([.f, .y] ++ rest) off))
      (if len = 0 then .byteBuffer none 0 else .byteBuffer (some (replicate len 0xff)) len)
      rest (off + 4) := by
  apply Delivers.bind (expectPart_delivers hsig [.f, .y])
  intro _
  apply Delivers.bind (getOrStop_delivers reads_getUint32 (uint32At_of_hasAt hat hlen))
  intro _
  by_cases h0 : len = 0
  · rw [if_pos h0, if_pos h0]
    apply delivers_pure
  · rw [if_neg h0, if_neg h0]
    apply Delivers.bind (allocOrStop_delivers hblk)
    intro _
    apply delivers_pure

theorem protoReadUlongBuffer_delivers {len : Nat}
    (hat : HasAt cs.req.buffer.buf off (encode 4 len)) (hlen : len < 2 ^ 32)
    (hblk : len * 8 ∈ blocks) :
    Delivers cs blocks (protoReadUlongBuffer (cs.reach n ([.f, .u] ++ rest) off))
      (if len = 0 then .ulongBuffer none 0
        else .ulongBuffer (some (replicate len (2 ^ 64 - 1))) len) rest (off + 4) := by
  apply Delivers.bind (expectPart_delivers hsig [.f, .u])
  intro _
  apply Delivers.bind (getOrStop_delivers reads_getUint32 (uint32At_of_hasAt hat hlen))
  intro _
  by_cases h0 : len = 0
  · rw [if_pos h0, if_pos h0]
    apply delivers_pure
  · rw [if_neg h0, if_neg h0]
    apply Delivers.bind (allocOrStop_delivers hblk)
    intro _
    apply delivers_pure

theorem protoReadMechanism_delivers {mech : CkMechanism}
    (hat : HasAt cs.req.buffer.buf off (Arg.mechanism mech).bytes)
    (hsent : (Arg.mechanism mech).Sent) :
    Delivers cs blocks (protoReadMechanism (cs.reach n ([.mech] ++ rest) off))
      (Arg.mechanism mech).delivered rest (off + (Arg.mechanism mech).bytes.length) := by
  obtain ⟨hsup, hparam⟩ := hsent
  have hdata := byteArrayAt_of_hasAt hat.right fun d hd => by
    have h := hparam d hd
    omega
  have hlen : (mech.wireParameter.getD []).length =
      if mech.wireParameter.isSome then mech.ulParameterLen else 0 := by
    cases hw : mech.wireParameter with
    | none => rfl
    | some d => exact (hparam d hw).1
  apply Delivers.bind (expectPart_delivers hsig [.mech])
  intro _
  apply Delivers.bind (getOrStop_delivers reads_getUint32
    (uint32At_of_hasAt hat.left (mechanism_lt hsup)))
  intro _
  rw [length_encode] at hdata
  apply Delivers.bind (getOrStop_delivers reads_getByteArray hdata)
  intro _
  rw [Arg.delivered, ← hlen, Arg.bytes, length_append, length_encode, Nat.add_assoc]
  apply delivers_pure

/-- The daemon leaves the length of a null array unread. -/
theorem protoReadByteArray_delivers_null
    (hat : HasAt cs.req.buffer.buf off (Arg.byteArray none 0).bytes) :
    Delivers cs blocks (protoReadByteArray (cs.reach n ([.a, .y] ++ rest) off))
      (Arg.byteArray none 0).delivered rest (off + 1) :=
  .inl ⟨n, @protoReadByteArray_advance_null { cs with mallocs := n } hsig _ _ (byteAt_of_hasAt hat) rest⟩

theorem protoReadByteArray_delivers {mem : Bytes}
    {len : Nat} (hat : HasAt cs.req.buffer.buf off (Arg.byteArray (some mem) len).bytes)
    (hsent : (Arg.byteArray (some mem) len).Sent) :
    Delivers cs blocks (protoReadByteArray (cs.reach n ([.a, .y] ++ rest) off))
      (Arg.byteArray (some mem) len).delivered rest
      (off + (Arg.byteArray (some mem) len).bytes.length) := by
  obtain ⟨hlt, hle⟩ := hsent
  have htake : (mem.take len).length = len := by simpa using hle
  have hdata := byteArrayAt_of_hasAt hat.right fun d hd => by
    have hd' : mem.take len = d := by simpa using hd
    rw [← hd', htake]
    exact hlt
  have h := @protoReadByteArray_advance { cs with mallocs := n } hsig _ _ _ _ _
    (byteAt_of_hasAt hat) (by decide) hdata rest
  rw [Option.getD_some, htake] at h
  rw [Arg.bytes, byteArrayArgBytes, length_append, ← Nat.add_assoc]
  exact .inl ⟨n, h⟩

end

theorem readAttributeBuffers_delivers
    (hrange : ∀ attr ∈ arr, attr.type < 2 ^ 32 ∧ attr.bufferLen < 2 ^ 32)
    (hblk : ∀ attr ∈ arr, attr.bufferLen ∈ blocks)
    (hat : HasAt cs.req.buffer.buf off (attributeBufferBytes arr)) :
    Delivers cs blocks (readAttributeBuffers arr.length (cs.reach n rest off))
      (arr.map CkAttribute.deliveredBuffer) rest (off + (attributeBufferBytes arr).length) := by
  induction arr generalizing n off with
  | nil => exact delivers_pure cs blocks [] rest off
  | cons attr arr ih =>
    obtain ⟨htype, hlen⟩ := hrange attr (by simp)
    rw [attributeBufferBytes, flatMap_cons] at hat
    have htail : ∀ n, Delivers cs blocks
        (readAttributeBuffers arr.length (cs.reach n rest (off + 4 + 4)))
        (arr.map CkAttribute.deliveredBuffer) rest
        (off + (attributeBufferBytes (attr :: arr)).length) := by
      intro n
      have h := hat.right
      rw [length_append, length_encode, length_encode] at h
      have hoff : off + (attributeBufferBytes (attr :: arr)).length =
          off + 4 + 4 + (attributeBufferBytes arr).length := by
        simp [attributeBufferBytes]
        omega
      rw [hoff]
      exact ih (fun a ha => hrange a (by simp [ha])) (fun a ha => hblk a (by simp [ha])) h
    apply Delivers.bind (getOrStop_delivers reads_getUint32
      (uint32At_of_hasAt hat.left.left htype))
    intro _
    have hat' := hat.left.right
    rw [length_encode] at hat'
    apply Delivers.bind (getOrStop_delivers reads_getUint32 (uint32At_of_hasAt hat' hlen))
    intro _
    by_cases h0 : attr.bufferLen = 0
    · rw [if_pos h0, map_cons, CkAttribute.deliveredBuffer, if_pos h0]
      apply Delivers.bind (htail _)
      intro _
      apply delivers_pure
    · rw [if_neg h0, map_cons, CkAttribute.deliveredBuffer, if_neg h0]
      apply Delivers.bind (allocOrStop_delivers (hblk attr (by simp)))
      intro _
      apply Delivers.bind (htail _)
      intro _
      apply delivers_pure

theorem protoReadAttributeBuffer_delivers (hsig : cs.req.signature.isSome = true)
    (hrange : (Arg.attributeBuffer arr).InRange)
    (hblk : (Arg.attributeBuffer arr).blocks ⊆ blocks)
    (hat : HasAt cs.req.buffer.buf off (Arg.attributeBuffer arr).bytes) :
    Delivers cs blocks (protoReadAttributeBuffer (cs.reach n ([.f, .attr] ++ rest) off))
      (Arg.attributeBuffer arr).delivered rest (off + (Arg.attributeBuffer arr).bytes.length) := by
  have hat' := hat.right
  rw [length_encode] at hat'
  apply Delivers.bind (expectPart_delivers hsig [.f, .attr])
  intro _
  apply Delivers.bind (getOrStop_delivers reads_getUint32 (uint32At_of_hasAt hat.left hrange.1))
  intro _
  apply Delivers.bind (allocOrStop_delivers (hblk (by simp [Arg.blocks])))
  intro _
  rw [Arg.bytes, length_append, length_encode, ← Nat.add_assoc]
  apply Delivers.bind (readAttributeBuffers_delivers hrange.2 _ hat')
  · intro _
    apply delivers_pure
  · intro attr ha
    exact hblk (mem_cons_of_mem _ (mem_map_of_mem ha))

theorem regionBytes_length {attr : CkAttribute} (hread : attr.Readable) (hsend : attr.Sendable)
    (hne : attr.ulValueLen ≠ ckUnavailable) {d : Bytes}
    (hd : regionBytes attr.pValue attr.ulValueLen = some d) :
    d.length = attr.ulValueLen ∧ attr.ulValueLen < 0x7fffffff := by
  rw [regionBytes, Option.map_eq_some_iff] at hd
  obtain ⟨mem, hmem, rfl⟩ := hd
  have hlt := hsend hne (by simp [hmem])
  have hle := hread hne mem hmem hlt
  exact ⟨by simpa using hle, hlt⟩

theorem readAttributes_delivers
    (hsent : ∀ attr ∈ arr, attr.Readable ∧ attr.Sendable)
    (hrange : ∀ attr ∈ arr, attr.type < 2 ^ 32 ∧
      (attr.ulValueLen ≠ ckUnavailable → attr.ulValueLen < 2 ^ 32))
    (hat : HasAt cs.req.buffer.buf off (arr.flatMap attributeBytes)) :
    Delivers cs blocks (readAttributes arr.length (cs.reach n rest off))
      (arr.map CkAttribute.delivered) rest (off + (arr.flatMap attributeBytes).length) := by
  induction arr generalizing n off with
  | nil => exact delivers_pure cs blocks [] rest off
  | cons attr arr ih =>
    obtain ⟨htype, hlen⟩ := hrange attr (by simp)
    obtain ⟨hread, hsend⟩ := hsent attr (by simp)
    rw [flatMap_cons] at hat
    have htail : ∀ n, Delivers cs blocks
        (readAttributes arr.length (cs.reach n rest (off + (attributeBytes attr).length)))
        (arr.map CkAttribute.delivered) rest
        (off + ((attr :: arr).flatMap attributeBytes).length) := by
      intro n
      rw [flatMap_cons, length_append, ← Nat.add_assoc]
      exact ih (fun a ha => hsent a (by simp [ha])) (fun a ha => hrange a (by simp [ha])) hat.right
    have hbytes := hat.left
    unfold attributeBytes at hbytes htail
    apply Delivers.bind (getOrStop_delivers reads_getUint32
      (uint32At_of_hasAt hbytes.left htype))
    intro _
    have hvalid := hbytes.right
    rw [length_encode] at hvalid
    rw [map_cons, CkAttribute.delivered]
    by_cases hun : attr.ulValueLen = ckUnavailable
    · rw [if_pos hun] at hvalid htail
      rw [if_pos hun]
      apply Delivers.bind (getOrStop_delivers reads_getByte (byteAt_of_hasAt hvalid))
      intro _
      rw [if_pos rfl]
      rw [length_append, length_encode, ← Nat.add_assoc] at htail
      apply Delivers.bind (htail _)
      intro _
      apply delivers_pure
    · rw [if_neg hun] at hvalid htail
      rw [if_neg hun]
      apply Delivers.bind (getOrStop_delivers reads_getByte (byteAt_of_hasAt hvalid))
      intro _
      rw [if_neg (by decide)]
      have hvalue := hvalid.right
      rw [length_singleton] at hvalue
      apply Delivers.bind (getOrStop_delivers reads_getUint32
        (uint32At_of_hasAt hvalue.left (hlen hun)))
      intro _
      have hdata := byteArrayAt_of_hasAt hvalue.right fun d hd => by
        have h := regionBytes_length hread hsend hun hd
        omega
      rw [length_encode] at hdata
      apply Delivers.bind (getOrStop_delivers reads_getByteArray hdata)
      intro _
      have hmatch : ¬ ((regionBytes attr.pValue attr.ulValueLen).isSome = true ∧
          ((regionBytes attr.pValue attr.ulValueLen).getD []).length ≠ attr.ulValueLen) := by
        rintro ⟨hsome, hne⟩
        obtain ⟨d, hd⟩ := Option.isSome_iff_exists.1 hsome
        rw [hd, Option.getD_some] at hne
        exact hne (regionBytes_length hread hsend hun hd).1
      rw [if_neg hmatch]
      simp only [length_append, length_encode, length_singleton, ← Nat.add_assoc] at htail
      apply Delivers.bind (htail _)
      intro _
      apply delivers_pure

theorem protoReadAttributeArray_delivers (hsig : cs.req.signature.isSome = true)
    (hsent : (Arg.attributeArray arr).Sent)
    (hrange : (Arg.attributeArray arr).InRange)
    (hblk : (Arg.attributeArray arr).blocks ⊆ blocks)
    (hat : HasAt cs.req.buffer.buf off (Arg.attributeArray arr).bytes) :
    Delivers cs blocks (protoReadAttributeArray (cs.reach n ([.a, .attr] ++ rest) off))
      (Arg.attributeArray arr).delivered rest (off + (Arg.attributeArray arr).bytes.length) := by
  have hat' := hat.right
  rw [length_encode] at hat'
  apply Delivers.bind (expectPart_delivers hsig [.a, .attr])
  intro _
  apply Delivers.bind (getOrStop_delivers reads_getUint32 (uint32At_of_hasAt hat.left hrange.1))
  intro _
  apply Delivers.bind (allocOrStop_delivers (hblk (by simp [Arg.blocks])))
  intro _
  rw [Arg.bytes, length_append, length_encode, ← Nat.add_assoc]
  apply Delivers.bind (readAttributes_delivers hsent hrange.2 hat')
  intro _
  apply delivers_pure

theorem inByte_delivers (hsig : cs.req.signature.isSome = true) {val : UInt8}
    (hat : HasAt cs.req.buffer.buf off [val]) :
    Delivers cs blocks (inByte (cs.reach n ([.y] ++ rest) off)) (.byte val) rest (off + 1) := by
  apply Delivers.bind (expectPart_delivers hsig [.y])
  intro _
  apply Delivers.bind (getOrStop_delivers reads_getByte (byteAt_of_hasAt hat))
  intro _
  apply delivers_pure

theorem inUlong_delivers (hsig : cs.req.signature.isSome = true) {val : Nat}
    (hat : HasAt cs.req.buffer.buf off (encode 8 val)) (hval : val < 2 ^ 64) :
    Delivers cs blocks (inUlong (cs.reach n ([.u] ++ rest) off)) (.ulong val) rest (off + 8) := by
  apply Delivers.bind (expectPart_delivers hsig [.u])
  intro _
  apply Delivers.bind (getOrStop_delivers reads_getUint64 (uint64At_of_hasAt hat hval))
  intro _
  apply delivers_pure

/-- The daemon's macro gives the argument as it arrives, and stands after its octets unless the
argument is a null array. -/
theorem InPart.read_delivered {p : InPart} {arg : Arg} (hp : arg.part = some p)
    (hstr : p ≠ .string) (hsig : cs.req.signature.isSome = true) (hsent : arg.Sent)
    (hrange : arg.InRange) (hblk : arg.blocks ⊆ blocks)
    (hat : HasAt cs.req.buffer.buf off arg.bytes) :
    ∃ off', Delivers cs blocks (p.read (cs.reach n (p.sig ++ rest) off)) arg.delivered rest off' ∧
      (arg.isNullArray = false → off' = off + arg.bytes.length) := by
  cases arg with
  | byte val =>
    cases hp
    exact ⟨off + 1, inByte_delivers hsig hat, fun _ => rfl⟩
  | ulong val =>
    cases hp
    exact ⟨off + 8, inUlong_delivers hsig hat hrange, fun _ => by simp [Arg.bytes]⟩
  | string val =>
    cases hp
    exact absurd rfl hstr
  | byteArray arr len =>
    cases hp
    cases arr with
    | none =>
      have hlen : len = 0 := hsent
      subst hlen
      exact ⟨off + 1, protoReadByteArray_delivers_null hsig hat, by simp [Arg.isNullArray]⟩
    | some mem => exact ⟨_, protoReadByteArray_delivers hsig hat hsent, fun _ => rfl⟩
  | byteBuffer arr len =>
    cases hp
    refine ⟨off + 4, ?_, fun _ => by simp [Arg.bytes]⟩
    have h := @protoReadByteBuffer_delivers cs n blocks rest off hsig _ hat hrange
      (hblk (by simp [Arg.blocks]))
    unfold Arg.delivered
    cases arr with
    | none => exact h
    | some mem => exact h
  | ulongBuffer arr len =>
    cases hp
    refine ⟨off + 4, ?_, fun _ => by simp [Arg.bytes]⟩
    have h := @protoReadUlongBuffer_delivers cs n blocks rest off hsig _ hat hrange
      (hblk (by simp [Arg.blocks]))
    unfold Arg.delivered
    cases arr with
    | none => exact h
    | some mem => exact h
  | attributeBuffer arr =>
    cases hp
    exact ⟨_, protoReadAttributeBuffer_delivers hsig hrange hblk hat, fun _ => rfl⟩
  | attributeArray arr =>
    cases hp
    exact ⟨_, protoReadAttributeArray_delivers hsig hsent hrange hblk hat, fun _ => rfl⟩
  | mechanism mech =>
    cases hp
    exact ⟨_, protoReadMechanism_delivers hsig hat hsent, fun _ => rfl⟩
  | application => cases hp
  | pointer addr => cases hp

/-- A list of macros gives the arguments as they arrive, when only the last of them is a null
array. -/
theorem readIns_delivered {ps : List InPart} {args : List Arg}
    (hps : args.map Arg.part = ps.map some) (hstr : .string ∉ ps)
    (hsig : cs.req.signature.isSome = true)
    (hargs : ∀ arg ∈ args, arg.Sent ∧ arg.InRange ∧ arg.blocks ⊆ blocks)
    (hnull : ∀ arg ∈ args.dropLast, arg.isNullArray = false)
    (hat : HasAt cs.req.buffer.buf off (args.flatMap Arg.bytes)) :
    ∃ off', Delivers cs blocks (readIns ps (cs.reach n (ps.flatMap InPart.sig ++ rest) off))
      (args.map Arg.delivered) rest off' := by
  induction args generalizing ps n off with
  | nil =>
    have hnil : ps = [] := by simpa using hps.symm
    subst hnil
    exact ⟨off, delivers_pure cs blocks [] rest off⟩
  | cons arg args ih =>
    cases ps with
    | nil => simp at hps
    | cons p ps =>
      simp only [map_cons, List.cons.injEq] at hps
      obtain ⟨hsent, hrange, hblk⟩ := hargs arg (by simp)
      rw [flatMap_cons] at hat
      rw [flatMap_cons, append_assoc]
      obtain ⟨off₁, hread, hoff⟩ := @InPart.read_delivered cs n blocks
        (ps.flatMap InPart.sig ++ rest) off p arg hps.1 (fun h => hstr (by simp [h])) hsig hsent
        hrange hblk hat.left
      -- the rest of the arguments is where the first one ends, if there is a rest
      have hrest : ∀ k, ∃ off', Delivers cs blocks
          (readIns ps (cs.reach k (ps.flatMap InPart.sig ++ rest) off₁))
          (args.map Arg.delivered) rest off' := by
        intro k
        cases args with
        | nil =>
          have hnil : ps = [] := by simpa using hps.2.symm
          subst hnil
          exact ⟨off₁, delivers_pure cs blocks [] rest off₁⟩
        | cons arg' args =>
          apply ih hps.2 (fun h => hstr (by simp [h])) (fun a ha => hargs a (by simp [ha]))
          · intro a ha
            exact hnull a (by simp [dropLast_cons_of_ne_nil, ha])
          · rw [hoff (hnull arg (by simp [dropLast_cons_of_ne_nil]))]
            exact hat.right
      rcases hread with ⟨k, hk⟩ | ⟨cs', hk, href⟩
      · obtain ⟨off', hoff'⟩ := hrest k
        refine ⟨off', ?_⟩
        unfold readIns
        rw [Prog.bind_of_ok hk]
        apply Delivers.bind hoff'
        intro _
        apply delivers_pure
      · exact ⟨off, .inr ⟨cs', Prog.bind_of_stop hk _, href⟩⟩

/-! ## Stubs and handlers -/

theorem request_bytes_length (c : CallId) : (c.signature .request).bytes.length < 0x7fffffff := by
  cases c <;> decide

/-- What the module below is to be given for the arguments of a caller: the arguments as they
arrive, but a session is opened for the application of the client, all the sessions that are
closed are those of this application, and there is no reserved pointer. -/
def passedOn (applicationId : Nat) : CallId → List Arg → List Arg
  | .cOpenSession, [.ulong slotId, .ulong flags, _, _] =>
    [.ulong slotId, .ulong (flags ||| 0x40000000), .application, .pointer none]
  | .cCloseAllSessions, [.ulong slotId] => [.ulong (slotId ||| applicationId)]
  | .cWaitForSlotEvent, [.ulong flags, _] => [.ulong flags, .pointer none]
  | _, given => given.map Arg.delivered

/-- A stub and its handler agree on the arguments. -/
structure Matches (s : Stub) (h : Handler) : Prop where
  handler : handlerOf s.call = some h
  ins : h.ins = s.ins.map InMacro.part
  given : s.ins.map InMacro.arg <+: s.given
  passed : ∀ cs : CallState,
    h.args cs ((s.ins.map InMacro.arg).map Arg.delivered) = passedOn cs.applicationId s.call s.given

/-- The lengths of the two pins, when the arguments are those of `C_SetPIN`, are the same. -/
def SamePinLengths : List Arg → Prop
  | [_, .byteArray _ oldPinLen, .byteArray _ newPinLen] => oldPinLen = newPinLen
  | _ => True

theorem matches_of_isStub {s : Stub} (hs : IsStub s)
    (hpin : s.call = .cSetPIN → SamePinLengths s.given) : ∃ h, Matches s h := by
  cases hs
  case cSetPIN session oldPin oldPinLen newPin newPinLen =>
    have hlen : oldPinLen = newPinLen := hpin rfl
    subst hlen
    exact ⟨_, rfl, rfl, ⟨_, rfl⟩, fun _ => rfl⟩
  all_goals exact ⟨_, rfl, rfl, ⟨_, rfl⟩, fun _ => rfl⟩

theorem mem_dropLast_of_isPrefix {xs ys : List α} (h : xs <+: ys) {a : α} (ha : a ∈ xs.dropLast) :
    a ∈ ys.dropLast := by
  obtain ⟨t, rfl⟩ := h
  by_cases ht : t = []
  · simpa [ht] using ha
  · rw [dropLast_append_of_ne_nil ht]
    exact mem_append_left _ (dropLast_subset xs ha)

/-- The arguments of a caller that the protocol carries: numbers fit their places, a null array of
bytes is the last argument, the call is not `C_InitToken`, and the two pins of `C_SetPIN` have one
length. -/
structure Plain (s : Stub) : Prop where
  inRange : ∀ arg ∈ s.given, arg.InRange
  nullLast : ∀ arg ∈ s.given.dropLast, arg.isNullArray = false
  initToken : s.call ≠ .cInitToken
  setPIN : s.call = .cSetPIN → SamePinLengths s.given

/-- The handler of a stub reads from the octets of its request the arguments as they arrive. -/
theorem readArgs_of_bytes {s : Stub} (hs : IsStub s) (hplain : Plain s)
    (hsent : ∀ p ∈ s.ins, p.arg.Sent ∧ p.arg.part = some p.part)
    (hreq : cs.req.buffer.buf = s.bytes) :
    ∃ h off, Matches s h ∧
      gkmRpcMessageParse cs.req .request = .ok (true, cs.req.headed s.call .request) ∧
      Delivers { cs with req := cs.req.headed s.call .request } (s.given.flatMap Arg.blocks)
        (h.readArgs { cs with req := cs.req.headed s.call .request })
        ((s.ins.map InMacro.arg).map Arg.delivered) [] off := by
  obtain ⟨h, hmatch⟩ := matches_of_isStub hs hplain.setPIN
  have hok := handlerOf_ok hmatch.handler
  have hat : HasAt cs.req.buffer.buf 0 s.bytes := ⟨[], [], by simp [hreq], rfl⟩
  have hparse := gkmRpcMessageParse_header (request_bytes_length s.call) hat.left
  have hargs : ∀ arg ∈ s.ins.map InMacro.arg, arg.Sent ∧ arg.InRange ∧
      arg.blocks ⊆ s.given.flatMap Arg.blocks := by
    intro arg harg
    have hmem := hmatch.given.mem harg
    refine ⟨?_, hplain.inRange arg hmem, fun b hb => mem_flatMap.2 ⟨arg, hmem, hb⟩⟩
    obtain ⟨p, hp, rfl⟩ := mem_map.1 harg
    exact (hsent p hp).1
  have hparts : (s.ins.map InMacro.arg).map Arg.part = h.ins.map some := by
    rw [hmatch.ins, map_map, map_map]
    apply map_congr_left
    intro p hp
    exact (hsent p hp).2
  have hstr : .string ∉ h.ins := fun hmem => hplain.initToken (hok.string hmem)
  have hnull : ∀ arg ∈ (s.ins.map InMacro.arg).dropLast, arg.isNullArray = false :=
    fun arg harg => hplain.nullLast arg (mem_dropLast_of_isPrefix hmatch.given harg)
  have hat' : HasAt cs.req.buffer.buf (s.call.header .request).length
      ((s.ins.map InMacro.arg).flatMap Arg.bytes) := by
    rw [flatMap_map]
    have hright := hat.right
    rwa [Nat.zero_add] at hright
  -- after the header the request expects the whole signature, which is that of the macros
  obtain ⟨off, hdel⟩ := @readIns_delivered { cs with req := cs.req.headed s.call .request }
    cs.mallocs (s.given.flatMap Arg.blocks) [] _ h.ins _ hparts hstr rfl hargs hnull hat'
  refine ⟨h, off, hmatch, hparse, ?_⟩
  rw [append_nil, hok.request] at hdel
  apply Delivers.bind hdel
  intro k
  exact .inl ⟨k, rfl⟩

/-- The handler of a stub reads from the request that was built the arguments as they arrive. -/
theorem readArgs_delivered {s : Stub} (hs : IsStub s) (hplain : Plain s) {msg msg' : GkmRpcMessage}
    (hbuild : buildRequest s msg = .ok (.ok (), msg'))
    (hreq : cs.req.buffer.buf = msg'.buffer.buf) :
    ∃ h off, Matches s h ∧
      gkmRpcMessageParse cs.req .request = .ok (true, cs.req.headed s.call .request) ∧
      Delivers { cs with req := cs.req.headed s.call .request } (s.given.flatMap Arg.blocks)
        (h.readArgs { cs with req := cs.req.headed s.call .request })
        ((s.ins.map InMacro.arg).map Arg.delivered) [] off := by
  obtain ⟨h, hmatch⟩ := matches_of_isStub hs hplain.setPIN
  have hsigs : s.ins.flatMap (fun p => p.part.sig) = s.call.request := by
    rw [← (handlerOf_ok hmatch.handler).request, hmatch.ins, flatMap_map]
  obtain ⟨hbuf, hsent⟩ := buildRequest_sent hsigs hbuild
  exact readArgs_of_bytes hs hplain hsent (by rw [hreq, hbuf])

variable {σ : Type}

/-- The daemon, in a call state whose request has the octets of a stub's request, passes on to the
module below what is to be passed on, unless a block was refused. -/
def Transparent (m : LowerModule σ) (cs : CallState) (st : σ) (s : Stub) : Prop :=
  ∃ h req, handlerOf s.call = some h ∧ h.call = s.call ∧
    gkmRpcMessageParse cs.req .request = .ok (true, req) ∧ req.callId = s.call.wire ∧
    ((∃ args cs', rpcCall m s.call { cs with req } st = h.process m args cs' st ∧
        h.args cs' args = passedOn cs.applicationId s.call s.given) ∨
      ∃ cs', rpcCall m s.call { cs with req } st = .ok (ckrDeviceMemory, cs', st) ∧
        cs.Refuses (s.given.flatMap Arg.blocks))

theorem rpcCall_eq {c : CallId} {h : Handler} (hh : handlerOf c = some h) (m : LowerModule σ)
    (cs : CallState) (st : σ) : rpcCall m c cs st = h.run m cs st := by
  cases c <;> cases hh <;> rfl

/-- The arguments that the module below is given are those the caller gave, as they arrive. -/
theorem rpc_call_transparent {s : Stub} (hs : IsStub s) (hplain : Plain s)
    {msg msg' : GkmRpcMessage} (hbuild : buildRequest s msg = .ok (.ok (), msg'))
    (m : LowerModule σ) (hhas : m.has s.call = true) (cs : CallState)
    (hreq : cs.req.buffer.buf = msg'.buffer.buf) (st : σ) : Transparent m cs st s := by
  obtain ⟨h, off, hmatch, hparse, hdel⟩ := readArgs_delivered hs hplain hbuild hreq
  have hcall := (handlerOf_ok hmatch.handler).call
  have hhas' : ¬ m.has h.call = false := by
    rw [hcall, hhas]
    decide
  refine ⟨h, _, hmatch.handler, hcall, hparse, rfl, ?_⟩
  rw [rpcCall_eq hmatch.handler, Handler.run, if_neg hhas']
  rcases hdel with ⟨n, hread⟩ | ⟨cs', hread, href⟩
  · rw [hread]
    exact .inl ⟨_, _, rfl, hmatch.passed _⟩
  · rw [hread]
    exact .inr ⟨cs', rfl, href⟩

/-- A stub got as far as sending. -/
def isBuilt : Checked (Except CkRv Unit × GkmRpcMessage) → Bool
  | .ok (.ok (), _) => true
  | _ => false

theorem eq_ok_of_isBuilt {x : Checked (Except CkRv Unit × GkmRpcMessage)}
    (h : isBuilt x = true) : ∃ msg, x = .ok (.ok (), msg) := by
  match x, h with
  | .ok (.ok (), msg), _ => exact ⟨msg, rfl⟩

/-- A template with a value, a null value with a length, and an unavailable entry. -/
def mixedTemplate : List CkAttribute :=
  [⟨0x11, some [1, 2, 3], 2⟩, ⟨0x3, none, 5⟩, ⟨0x102, some [9], ckUnavailable⟩]

/-- A call state of the daemon with a request to read. -/
def receivedState (buf : Bytes) : CallState :=
  { req := { gkmRpcMessageNew fun _ _ => true with buffer := eggBufferInitStatic buf }
    resp := gkmRpcMessageNew fun _ _ => true
    applicationId := 0, malloc := fun _ _ => true, mallocs := 0, uninit := 0 }

theorem rpc_call_transparent_createObject : ∃ msg',
    buildRequest (Module.rpcCCreateObject 7 (some mixedTemplate) 3)
      (gkmRpcMessageNew fun _ _ => true) = .ok (.ok (), msg') ∧
    Transparent failingModule (receivedState msg'.buffer.buf) ()
      (Module.rpcCCreateObject 7 (some mixedTemplate) 3) := by
  obtain ⟨msg', hbuild⟩ := eq_ok_of_isBuilt (x := buildRequest
    (Module.rpcCCreateObject 7 (some mixedTemplate) 3) (gkmRpcMessageNew fun _ _ => true))
    (by decide +kernel)
  refine ⟨msg', hbuild, ?_⟩
  have hplain : Plain (Module.rpcCCreateObject 7 (some mixedTemplate) 3) := by
    refine ⟨?_, ?_, by decide, fun h => absurd h (by decide)⟩
    · intro arg harg
      have h2 : arg = .ulong 7 ∨ arg = .attributeArray mixedTemplate := by
        simpa [Module.rpcCCreateObject, stub, InMacro.arg, mixedTemplate] using harg
      rcases h2 with rfl | rfl
      · show 7 < 2 ^ 64
        decide
      · refine ⟨by decide, ?_⟩
        decide
    · decide
  exact rpc_call_transparent .cCreateObject hplain hbuild failingModule rfl _ rfl ()

/-- The flags of `C_OpenSession` are not those the caller gave. -/
theorem openSession_flags_changed : ∃ msg' req cs',
    buildRequest (Module.rpcCOpenSession 1 4 none none) (gkmRpcMessageNew fun _ _ => true) =
      .ok (.ok (), msg') ∧
    gkmRpcMessageParse (receivedState msg'.buffer.buf).req .request = .ok (true, req) ∧
    rpcCOpenSession.readArgs { receivedState msg'.buffer.buf with req } =
      .ok (.ok [.ulong 1, .ulong 4], cs') ∧
    rpcCOpenSession.args cs' [.ulong 1, .ulong 4] ≠
      (Module.rpcCOpenSession 1 4 none none).given := by
  obtain ⟨msg', hbuild⟩ := eq_ok_of_isBuilt (x := buildRequest
    (Module.rpcCOpenSession 1 4 none none) (gkmRpcMessageNew fun _ _ => true)) (by decide +kernel)
  have hplain : Plain (Module.rpcCOpenSession 1 4 none none) := by
    refine ⟨?_, by decide, by decide, fun h => absurd h (by decide)⟩
    intro arg harg
    simp only [Module.rpcCOpenSession, mem_cons, not_mem_nil, or_false] at harg
    rcases harg with rfl | rfl | rfl | rfl
    · show 1 < 2 ^ 64
      decide
    · show 4 < 2 ^ 64
      decide
    · trivial
    · trivial
  obtain ⟨h, off, hmatch, hparse, hdel⟩ :=
    @readArgs_delivered (receivedState msg'.buffer.buf) _ .cOpenSession hplain _ _ hbuild rfl
  have hh : rpcCOpenSession = h := Option.some.inj hmatch.handler
  subst hh
  rcases hdel with ⟨n, hread⟩ | ⟨cs', -, size, hsize, -⟩
  · refine ⟨msg', _, _, hbuild, hparse, hread, ?_⟩
    show openSessionArgs [.ulong 1, .ulong 4] ≠ [.ulong 1, .ulong 4, .pointer none, .pointer none]
    decide
  · simp [Module.rpcCOpenSession, Arg.blocks] at hsize

end Dispatch

end MateKeyring.Rpc
