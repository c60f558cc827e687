import Mathlib.Data.List.Forall2
import MateKeyring.Rpc.Answering

/-!
# The daemon on arbitrary input

The loop of the daemon on any byte stream, any pattern of memory failures, and any module below
that keeps to PKCS#11. A round whose condition `RoundOk` holds does not fault, and either leaves
the loop or sends a well-formed response (`dispatchRound_step`). The condition leaves out what
reaches a defect: a frame of length zero, whose `read_all` asserts a positive length; a
`C_InitToken` request whose label is copied, since the terminator is stored after the block; and
attributes that together do not fit the 32 bits of a frame's length.
-/

set_option autoImplicit false

namespace MateKeyring.Rpc.Dispatch

open Lib Egg List

variable {c : CallId} {cs : CallState} {h : Handler} {args : List Arg} {p : InPart}

variable {σ : Type}

variable {m : LowerModule σ}

/-! ## The table of handlers -/

/-- What the handler of a call is made of: its parts read the request and write the response that
the table of calls says, and its results are those of its buffers. -/
structure HandlerOk (c : CallId) (h : Handler) : Prop where
  call : h.call = c
  request : h.ins.flatMap InPart.sig = c.request
  response : h.outs.flatMap OutPart.sig = c.response
  tail : ∀ p ∈ h.outs.tail, p.quiet = true
  string : .string ∈ h.ins → c = .cInitToken
  bytes : .byteArray ∈ h.outs ∨ .byteArrayGiven ∈ h.outs → .ulongBuffer ∉ h.ins
  ulongs : .ulongArray ∈ h.outs → .byteBuffer ∉ h.ins
  attrs : .attributeArray ∈ h.outs → .attributeBuffer ∈ h.ins ∧ c = .cGetAttributeValue
  size : (h.outs.map (OutPart.size 0)).sum ≤ 5 + 0x7fffffff
  args : h.args = (fun _ args => args) ∨ ∀ p ∈ h.ins, p = .ulong

theorem handlerOf_ok (hh : handlerOf c = some h) : HandlerOk c h := by
  cases c <;> cases hh <;>
    exact ⟨rfl, rfl, rfl, by decide, by decide, by decide, by decide, by decide, by decide,
      by first | exact .inl rfl | exact .inr (by decide)⟩

theorem headerBytes_length (c : CallId) : (headerBytes c).length ≤ 64 := by
  cases c <;> decide

/-! ## Reading and answering -/

theorem bufferGiven_mem {n : Nat} (h : bufferGiven args = some n) :
    (∃ mem, .byteBuffer (some mem) n ∈ args) ∨ ∃ mem, .ulongBuffer (some mem) n ∈ args := by
  induction args with
  | nil => exact absurd h (by simp [bufferGiven])
  | cons a args ih =>
    unfold bufferGiven at h
    split at h
    · simp at *
    · rename_i heq
      cases heq
      cases h
      exact .inl ⟨_, mem_cons_self⟩
    · rename_i heq
      cases heq
      cases h
      exact .inr ⟨_, mem_cons_self⟩
    · rename_i heq
      cases heq
      rcases ih h with ⟨mem, hm⟩ | ⟨mem, hm⟩
      · exact .inl ⟨mem, by simp [hm]⟩
      · exact .inr ⟨mem, by simp [hm]⟩

theorem part_mem {ps : List InPart} (h : args.map Arg.part = ps.map some) {a : Arg} (ha : a ∈ args)
    (hp : a.part = some p) : p ∈ ps := by
  have hmem : a.part ∈ args.map Arg.part := mem_map_of_mem ha
  rw [h, hp] at hmem
  simpa using hmem

theorem exists_part {ps : List InPart} (h : args.map Arg.part = ps.map some) (hp : p ∈ ps) :
    ∃ a ∈ args, a.part = some p := by
  have hmem : some p ∈ ps.map some := mem_map_of_mem hp
  rw [← h] at hmem
  exact mem_map.1 hmem

/-- An argument that is not a number is passed on as it was read. -/
theorem HandlerOk.passed (hok : HandlerOk c h) (hparts : args.map Arg.part = h.ins.map some)
    (cs : CallState) {a : Arg} (ha : a ∈ args) (hp : a.part = some p) (hne : p ≠ .ulong) : a ∈ h.args cs args := by
  rcases hok.args with hid | hulong
  · rw [hid]
    exact ha
  · exact absurd (hulong p (part_mem hparts ha hp)) hne

theorem readable_of_allowed {given attr : CkAttribute} (h : AllowedAttribute given attr)
    (hfit : ∀ mem, given.pValue = some mem → mem.length = given.ulValueLen) : attr.Readable := by
  intro hne mem hmem _
  have hmap := h.memory
  rw [hmem] at hmap
  cases hg : given.pValue with
  | none =>
    rw [hg] at hmap
    exact absurd hmap (by simp)
  | some gmem =>
    rw [hg] at hmap
    have hlen : mem.length = gmem.length := by simpa using hmap
    rcases h.length (by simp [hg]) with hle | heq
    · have := hfit gmem hg
      omega
    · exact absurd heq hne

/-- An answer PKCS#11 allows to what a handler read is one its `OUT_*` macros can write. -/
theorem HandlerOk.ready (hok : HandlerOk c h) (hparts : args.map Arg.part = h.ins.map some)
    (hfit : ∀ a ∈ args, a.Fit) {ans : Answer} (hallow : AllowedAnswer (h.args cs args) ans) :
    ∀ p ∈ h.outs, p.Ready args ans := by
  have hbytes : .ulongBuffer ∉ h.ins → ans.rv = ckrOk → ∀ n, bufferGiven args = some n →
      ans.bytes.length = n ∧ ans.len ≤ n := by
    intro hno hret n hn
    rcases bufferGiven_mem hn with ⟨mem, hmem⟩ | ⟨mem, hmem⟩
    · obtain ⟨h1, h2⟩ := hallow.bytes hret mem n
        (hok.passed hparts cs hmem (p := .byteBuffer) rfl (by decide))
      have hlen := hfit _ hmem mem rfl
      omega
    · exact absurd (part_mem hparts hmem rfl) hno
  intro p hp
  cases p with
  | byteArray => exact hbytes (hok.bytes (.inl hp))
  | byteArrayGiven => exact hbytes (hok.bytes (.inr hp))
  | ulongArray =>
    intro hret n hn
    rcases bufferGiven_mem hn with ⟨mem, hmem⟩ | ⟨mem, hmem⟩
    · exact absurd (part_mem hparts hmem rfl) (hok.ulongs hp)
    · obtain ⟨h1, h2⟩ := hallow.ulongs hret mem n
        (hok.passed hparts cs hmem (p := .ulongBuffer) rfl (by decide))
      obtain ⟨hlen, hmax⟩ := hfit _ hmem mem rfl
      exact ⟨by omega, hmax, h2⟩
  | attributeArray =>
    intro hpass
    obtain ⟨a, ha, hpart⟩ := exists_part hparts (hok.attrs hp).1
    cases a with
    | attributeBuffer arr =>
      obtain ⟨hmax, hmem⟩ := hfit _ ha
      have hall := hallow.attrs arr
        (hok.passed hparts cs ha (p := .attributeBuffer) rfl (by decide)) hpass
      refine ⟨?_, ?_⟩
      · intro attr hattr
        obtain ⟨⟨i, hi⟩, rfl⟩ := get_of_mem hattr
        exact readable_of_allowed (hall.get (hall.length_eq ▸ hi) hi) (hmem _ (get_mem _ _))
      · have hlen := hall.length_eq
        omega
    | _ => exact absurd hpart (by simp [Arg.part])
  | _ => trivial

/-- A module that keeps to PKCS#11, and has the functions that are called without a check. -/
structure LowerModule.Allowed (m : LowerModule σ) : Prop where
  answers : ∀ c args s, AllowedAnswer args (m.call c args s).1
  getSlotList : m.has .cGetSlotList = true
  closeAllSessions : m.has .cCloseAllSessions = true

/-- A call about to be handled: the request is parsed and the response prepared. -/
structure Prepared (c : CallId) (cs : CallState) : Prop where
  expects : Expects cs.req c.request
  writing : Writing c c.response 0 cs

theorem Writing.of_kept {rest : Signature} {lim : Nat} {cs₀ cs : CallState} (h : Writing c rest lim cs₀)
    (hk : Kept cs₀ cs) : Writing c rest lim cs := by
  constructor
  · rw [hk.resp]
    exact h.expects
  · rw [hk.resp]
    exact h.noError
  · rw [hk.resp]
    exact h.callType
  · rw [hk.resp]
    exact h.callId
  · rw [hk.resp]
    exact h.signature
  · rw [hk.callId]
    exact h.reqCallId
  · rw [hk.resp]
    exact h.payload

theorem isVerified_of_expects {msg : GkmRpcMessage} (h : Expects msg []) :
    gkmRpcMessageIsVerified msg = true := by
  simp [gkmRpcMessageIsVerified, h.2]

/-- The arguments of a handler without strings are read without a fault. -/
theorem Handler.readArgs_reader (hno : .string ∉ h.ins) {cs₀ : CallState} :
    Reader (Reading cs₀ (h.ins.flatMap InPart.sig)) cs₀ h.readArgs
      fun args cs => Kept cs₀ cs ∧ (∀ a ∈ args, a.Fit) ∧ args.map Arg.part = h.ins.map some := by
  have hins := @readIns_reader cs₀ [] h.ins hno
  rw [append_nil] at hins
  apply Prog.Triple.bind hins
  rintro args cs ⟨hcs, hfit, hparts⟩
  refine .inl ⟨args, cs, ?_, hcs.kept, hfit, hparts⟩
  apply Prog.run_apply
  rw [cAssert_of_true (isVerified_of_expects hcs.expects)]
  rfl

/-- The octets of a response's values are few enough for a frame. -/
def FitsFrame (c : CallId) (lim : Nat) : Prop := (headerBytes c).length + lim < 2 ^ 32

/-- The sizes of the parts of a handler fit a frame, if its attributes do. -/
theorem HandlerOk.fits (hok : HandlerOk c h) {n : Nat}
    (hn : c = .cGetAttributeValue → (headerBytes c).length + (12 + n) < 2 ^ 32) :
    FitsFrame c (0 + (h.outs.map (OutPart.size n)).sum) := by
  by_cases hattr : .attributeArray ∈ h.outs
  · -- the only handler that writes attributes writes nothing else
    obtain ⟨-, rfl⟩ := hok.attrs hattr
    have hsum : (h.outs.map (OutPart.size n)).sum ≤ 12 + n := by
      have hresp := hok.response
      cases hl : h.outs with
      | nil =>
        rw [hl] at hattr
        exact absurd hattr (by simp)
      | cons p ps =>
        rw [hl] at hresp hattr
        have hp : p = .attributeArray := by
          rcases mem_cons.1 hattr with hp | hmem
          · exact hp.symm
          · have hq := hok.tail .attributeArray (by rw [hl]; exact hmem)
            exact absurd hq (by decide)
        subst hp
        have hps : ps.flatMap OutPart.sig = [] := by
          have hc : OutPart.attributeArray.sig ++ ps.flatMap OutPart.sig = [.a, .attr, .u] := hresp
          simpa [OutPart.sig] using hc
        cases ps with
        | nil => simp [OutPart.size]
        | cons q qs =>
          rw [flatMap_cons, append_eq_nil_iff] at hps
          cases q <;> exact absurd hps.1 (by decide)
    have := hn rfl
    unfold FitsFrame
    omega
  · have hsize : h.outs.map (OutPart.size n) = h.outs.map (OutPart.size 0) := by
      apply map_congr_left
      intro p hp
      cases p with
      | attributeArray => exact absurd hp hattr
      | _ => rfl
    have h1 := hok.size
    have h2 := headerBytes_length c
    rw [hsize]
    unfold FitsFrame
    omega

/-- What a handler leaves: the call, and with `CKR_OK` a complete response that fits a frame. -/
def Handled (c : CallId) (ret : CkRv) (cs : CallState) : Prop :=
  ∃ lim, FitsFrame c lim ∧ Answered c [] lim (ret = ckrOk) cs

theorem Handler.process_ok (hok : HandlerOk c h) (hm : m.Allowed) (s : σ)
    (hparts : args.map Arg.part = h.ins.map some) (hfit : ∀ a ∈ args, a.Fit)
    (hw : Writing c c.response 0 cs) (hsize : c = .cGetAttributeValue →
      (headerBytes c).length +
        (12 + attributesLength (m.call c (h.args cs args) s).1.attrs) < 2 ^ 32) :
    ∃ ret cs' s', h.process m args cs s = .ok (ret, cs', s') ∧ Handled c ret cs' := by
  obtain ⟨ans, s', hcall⟩ : ∃ ans s', m.call h.call (h.args cs args) s = (ans, s') := ⟨_, _, rfl⟩
  have hallow : AllowedAnswer (h.args cs args) ans := by
    have := hm.answers h.call (h.args cs args) s
    rwa [hcall] at this
  have hattrs : (m.call c (h.args cs args) s).1.attrs = ans.attrs := by
    rw [← hok.call, hcall]
  rw [hattrs] at hsize
  have hw' : Writing c (h.outs.flatMap OutPart.sig ++ []) 0
      { cs with applicationId := ans.applicationId } := by
    rw [append_nil, hok.response]
    exact hw.of_kept ⟨rfl, rfl⟩
  have hwrite := writeOuts_writer hok.tail (hok.ready hparts hfit hallow) _ hw'
  rcases hwrite with ⟨ret, cs', hres, hans⟩ | ⟨_, _, _, hfalse⟩
  · refine ⟨ret, cs', s', ?_, _, hok.fits hsize, hans⟩
    simp only [Handler.process, hcall, hres, ok_bind, pure_eq_ok]
  · exact hfalse.elim

/-! ## The handlers -/

/-- The label of a `C_InitToken` request: what follows the slot and the pin. -/
def initTokenLabel (bs : Bytes) (off : Nat) : Option Bytes :=
  match uint64At bs off with
  | none => none
  | some (_, off) =>
    match skipByteArray bs off with
    | none => none
    | some off => (byteArrayAt bs off).map fun r => r.1.getD []

/-- Reading a string stops with a code when there is no string or no memory for it. -/
theorem protoReadNullString_stops (hsig : cs.req.signature.isSome = true) (rest : Signature) (off : Nat)
    (h : ∀ data off', byteArrayAt cs.req.buffer.buf off = some (data, off') →
      cs.malloc cs.mallocs (8 + (data.getD []).length) = false) :
    ∃ r cs', protoReadNullString (cs.advance ([.z] ++ rest) off) = .ok (.error r, cs') ∧
      r ≠ ckrOk ∧ Kept cs cs' := by
  unfold protoReadNullString
  rw [Prog.bind_of_ok (expectPart_advance hsig [.z] rest off)]
  cases hv : byteArrayAt cs.req.buffer.buf off with
  | none =>
    obtain ⟨cs', hstop, hk⟩ := getOrStop_advance_none reads_getByteArray hv rest
    exact ⟨_, cs', Prog.bind_of_stop hstop _, by decide, hk⟩
  | some v =>
    have hm := h v.1 v.2 hv
    have hstop : ∃ cs', allocOrStop (v.1.getD []).length (cs.advance rest v.2) =
        .ok (.error ckrDeviceMemory, cs') ∧ Kept cs cs' := by
      unfold allocOrStop callAlloc
      by_cases hlim : (v.1.getD []).length > 0x7fffffff
      · rw [if_pos hlim]
        exact ⟨_, rfl, rfl, rfl⟩
      · rw [if_neg hlim]
        have hask : (askMalloc (cs.advance rest v.2) (8 + (v.1.getD []).length)).1 = false := hm
        refine ⟨(askMalloc (cs.advance rest v.2) (8 + (v.1.getD []).length)).2, ?_, rfl, rfl⟩
        rw [← Prod.mk.eta (p := askMalloc (cs.advance rest v.2) (8 + (v.1.getD []).length)), hask]
    obtain ⟨cs', hstop, hk⟩ := hstop
    rw [Prog.bind_of_ok (getOrStop_advance reads_getByteArray hv rest)]
    exact ⟨_, cs', Prog.bind_of_stop hstop _, by decide, hk⟩

/-- A `C_InitToken` request whose label is not copied is answered with a code. -/
theorem rpcCInitToken_stops (hexp : Expects cs.req CallId.cInitToken.request)
    (h : ∀ label, initTokenLabel cs.req.buffer.buf cs.req.parsed = some label →
      cs.malloc cs.mallocs (8 + label.length) = false) :
    ∃ r cs', rpcCInitToken.readArgs cs = .ok (.error r, cs') ∧ r ≠ ckrOk ∧ Kept cs cs' := by
  have hsig := hexp.1
  suffices hins : ∃ r cs', readIns [.ulong, .byteArray, .string]
      (cs.advance ([.u] ++ ([.a, .y] ++ ([.z] ++ []))) cs.req.parsed) = .ok (.error r, cs') ∧
        r ≠ ckrOk ∧ Kept cs cs' by
    obtain ⟨r, cs', hr, hne, hk⟩ := hins
    rw [show [SigChar.u] ++ ([.a, .y] ++ ([.z] ++ [])) = CallId.cInitToken.request from rfl,
      advance_self hexp] at hr
    exact ⟨r, cs', Prog.bind_of_stop hr _, hne, hk⟩
  show ∃ r cs', (inUlong >>= fun arg => readIns [.byteArray, .string] >>= fun args =>
    pure (arg :: args)) _ = .ok (.error r, cs') ∧ r ≠ ckrOk ∧ Kept cs cs'
  unfold initTokenLabel at h
  cases hu : uint64At cs.req.buffer.buf cs.req.parsed with
  | none =>
    obtain ⟨cs', hstop, hk⟩ := inUlong_advance_none hsig hu ([.a, .y] ++ ([.z] ++ []))
    exact ⟨_, cs', Prog.bind_of_stop hstop _, by decide, hk⟩
  | some u =>
    rw [hu] at h
    dsimp only at h
    rw [Prog.bind_of_ok (inUlong_advance hsig hu _)]
    suffices hpin : ∃ r cs', readIns [.byteArray, .string]
        (cs.advance ([.a, .y] ++ ([.z] ++ [])) u.2) = .ok (.error r, cs') ∧ r ≠ ckrOk ∧ Kept cs cs' by
      obtain ⟨r, cs', hr, hne, hk⟩ := hpin
      exact ⟨r, cs', Prog.bind_of_stop hr _, hne, hk⟩
    show ∃ r cs', (protoReadByteArray >>= fun arg => readIns [.string] >>= fun args =>
      pure (arg :: args)) _ = .ok (.error r, cs') ∧ r ≠ ckrOk ∧ Kept cs cs'
    rcases protoReadByteArray_skip hsig u.2 ([.z] ++ []) with
      ⟨arg, off', hskip, hpin⟩ | ⟨-, cs', hstop, hk⟩
    · rw [hskip] at h
      rw [Prog.bind_of_ok hpin]
      obtain ⟨r, cs', hstop, hne, hk⟩ := protoReadNullString_stops hsig [] off' (by
        intro data off'' hd
        apply h
        simp [hd])
      have hlabel : readIns [.string] (cs.advance ([.z] ++ []) off') = .ok (.error r, cs') :=
        Prog.bind_of_stop hstop _
      exact ⟨r, cs', Prog.bind_of_stop hlabel _, hne, hk⟩
    · exact ⟨_, cs', Prog.bind_of_stop hstop _, by decide, hk⟩

/-- What must hold of a call for its handler not to fault: a label is not copied, and attributes
fit a frame. -/
structure CallOk (m : LowerModule σ) (c : CallId) (cs : CallState) (s : σ) : Prop where
  label : c = .cInitToken → m.has .cInitToken = true →
    ∀ label, initTokenLabel cs.req.buffer.buf cs.req.parsed = some label →
      cs.malloc cs.mallocs (8 + label.length) = false
  attributes : c = .cGetAttributeValue → ∀ args cs',
    rpcCGetAttributeValue.readArgs cs = .ok (.ok args, cs') →
      (headerBytes .cGetAttributeValue).length +
        (12 + attributesLength (m.call .cGetAttributeValue args s).1.attrs) < 2 ^ 32

theorem Handled.of_error {ret : CkRv} (hret : ret ≠ ckrOk) (hid : cs.req.callId = c.wire) : Handled c ret cs := by
  refine ⟨0, ?_, hid, fun h => absurd h hret⟩
  have := headerBytes_length c
  unfold FitsFrame
  omega

theorem Handler.run_ok (hh : handlerOf c = some h) (hm : m.Allowed)
    (hprep : Prepared c cs) (s : σ) (hcall : CallOk m c cs s) :
    ∃ ret cs' s', h.run m cs s = .ok (ret, cs', s') ∧ Handled c ret cs' := by
  have hok := handlerOf_ok hh
  unfold Handler.run
  rw [hok.call]
  by_cases hhas : m.has c = false
  · rw [if_pos hhas]
    exact ⟨_, cs, s, rfl, Handled.of_error (by decide) hprep.writing.reqCallId⟩
  · rw [if_neg hhas]
    by_cases hstr : .string ∈ h.ins
    · -- the one handler that reads a string
      have hc := hok.string hstr
      subst hc
      cases hh
      obtain ⟨r, cs', hstop, hne, hk⟩ :=
        rpcCInitToken_stops hprep.expects (hcall.label rfl (by simpa using hhas))
      refine ⟨r, cs', s, by rw [hstop], Handled.of_error hne ?_⟩
      rw [hk.callId]
      exact hprep.writing.reqCallId
    · have hread : Reading cs (h.ins.flatMap InPart.sig) cs := by
        rw [hok.request]
        exact ⟨hprep.expects, Kept.refl cs⟩
      rcases Handler.readArgs_reader hstr cs hread with
        ⟨args, cs', hargs, hk, hfit, hparts⟩ | ⟨r, cs', hstop, hne, hk⟩
      · rw [hargs]
        apply Handler.process_ok hok hm s hparts hfit (hprep.writing.of_kept hk)
        intro hc
        subst hc
        cases hh
        exact hcall.attributes rfl args cs' hargs
      · rw [hstop]
        refine ⟨r, cs', s, rfl, Handled.of_error hne ?_⟩
        rw [hk.callId]
        exact hprep.writing.reqCallId

theorem Handled.of_noValues (hc : c.response = []) {ret : CkRv} {cs₀ cs : CallState}
    (hw : Writing c c.response 0 cs₀) (hk : Kept cs₀ cs) : Handled c ret cs := by
  refine ⟨0, ?_, ?_, ?_⟩
  · have := headerBytes_length c
    unfold FitsFrame
    omega
  · rw [hk.callId]
    exact hw.reqCallId
  · intro _
    rw [← hc]
    exact hw.of_kept hk

theorem rpcCInitialize_ok (hprep : Prepared .cInitialize cs) :
    ∃ ret cs', rpcCInitialize cs = .ok (ret, cs') ∧ Handled .cInitialize ret cs' := by
  have hread : Reading cs ([.a, .y] ++ []) cs := ⟨hprep.expects, Kept.refl cs⟩
  unfold rpcCInitialize
  rcases protoReadByteArray_reader cs hread with
    ⟨arg, cs', harg, hread', -, -⟩ | ⟨r, cs', hstop, hne, hk⟩
  · rw [harg]
    dsimp only
    rw [cAssert_of_true (isVerified_of_expects hread'.expects)]
    exact ⟨_, cs', rfl, Handled.of_noValues rfl hprep.writing hread'.kept⟩
  · rw [hstop]
    refine ⟨r, cs', rfl, Handled.of_error hne ?_⟩
    rw [hk.callId]
    exact hprep.writing.reqCallId

theorem closeAllSessions_ok (hm : m.Allowed) (applicationId : Nat)
    (slots : List Nat) (ret : CkRv) (s : σ) :
    ∃ r, closeAllSessions m applicationId slots ret s = .ok r := by
  induction slots generalizing ret s with
  | nil => exact ⟨_, rfl⟩
  | cons slot slots ih =>
    unfold closeAllSessions
    by_cases hret : ret ≠ ckrOk
    · rw [if_pos hret]
      exact ⟨_, rfl⟩
    · rw [if_neg hret]
      simp only [LowerModule.invoke, hm.closeAllSessions, Bool.true_eq_false, if_false, ok_bind]
      exact ih _ _

theorem rpcCFinalize_ok (hm : m.Allowed) (hprep : Prepared .cFinalize cs) (s : σ) :
    ∃ ret cs' s', rpcCFinalize m cs s = .ok (ret, cs', s') ∧ Handled .cFinalize ret cs' := by
  have hself : ∀ ret, Handled .cFinalize ret cs :=
    fun ret => Handled.of_noValues rfl hprep.writing (Kept.refl cs)
  have htick : ∀ ret n, Handled .cFinalize ret (askMalloc cs n).2 :=
    fun ret n => Handled.of_noValues rfl hprep.writing ⟨rfl, rfl⟩
  unfold rpcCFinalize
  by_cases happ : cs.applicationId = 0
  · rw [if_pos happ]
    exact ⟨_, _, _, rfl, hself _⟩
  · rw [if_neg happ]
    simp only [LowerModule.invoke, hm.getSlotList, Bool.true_eq_false, if_false, ok_bind]
    obtain ⟨ans, s₁, hans⟩ : ∃ ans s₁,
        m.call .cGetSlotList [.byte 1, .ulongBuffer none 0] s = (ans, s₁) := ⟨_, _, rfl⟩
    rw [hans]
    dsimp only
    by_cases hrv : ans.rv ≠ ckrOk
    · rw [if_pos hrv]
      exact ⟨_, _, _, rfl, hself _⟩
    · rw [if_neg hrv]
      have htick' := htick
      cases hask : askMalloc cs (ans.len * 8) with
      | mk ok cs' =>
        have hh : ∀ ret, Handled .cFinalize ret cs' := by
          intro ret
          have := htick ret (ans.len * 8)
          rwa [hask] at this
        cases ok with
        | false => exact ⟨_, _, _, rfl, hh _⟩
        | true =>
          dsimp only
          obtain ⟨ans', s₂, hans'⟩ : ∃ ans' s₂, m.call .cGetSlotList
              [.byte 1, .ulongBuffer (some (replicate ans.len 0)) ans.len] s₁ =
                (ans', s₂) := ⟨_, _, rfl⟩
          rw [hans']
          dsimp only
          by_cases hrv' : ans'.rv ≠ ckrOk
          · rw [if_pos hrv']
            exact ⟨_, _, _, rfl, hh _⟩
          · rw [if_neg hrv']
            have hallow := hm.answers .cGetSlotList
              [.byte 1, .ulongBuffer (some (replicate ans.len 0)) ans.len] s₁
            rw [hans'] at hallow
            obtain ⟨h1, h2⟩ := hallow.ulongs (by simpa using hrv')
              (replicate ans.len 0) ans.len (by simp)
            rw [length_replicate] at h1
            have hnot : ¬ ans'.ulongs.length < ans'.len := by
              show ¬ ans'.ulongs.length < ans'.len
              have h1' : ans'.ulongs.length = ans.len := h1
              have h2' : ans'.len ≤ ans.len := h2
              omega
            rw [if_neg hnot]
            obtain ⟨r, hr⟩ := closeAllSessions_ok hm cs'.applicationId
              (ans'.ulongs.take ans'.len) ans'.rv s₂
            rw [hr]
            exact ⟨_, _, _, rfl, hh _⟩

theorem rpcCall_of_handler (hh : handlerOf c = some h) (m : LowerModule σ) (cs : CallState) (s : σ) :
    rpcCall m c cs s = h.run m cs s := by
  cases c <;> cases hh <;> rfl

theorem eq_of_handlerOf_none (hh : handlerOf c = none) : c = .cInitialize ∨ c = .cFinalize := by
  cases c <;> first | exact .inl rfl | exact .inr rfl | cases hh

/-- No handler faults, and each leaves a complete response or an error code. -/
theorem rpcCall_ok (hm : m.Allowed) (hprep : Prepared c cs) (s : σ) (hcall : CallOk m c cs s) :
    ∃ ret cs' s', rpcCall m c cs s = .ok (ret, cs', s') ∧ Handled c ret cs' := by
  cases hh : handlerOf c with
  | some h =>
    rw [rpcCall_of_handler hh]
    exact Handler.run_ok hh hm hprep s hcall
  | none =>
    rcases eq_of_handlerOf_none hh with rfl | rfl
    · obtain ⟨ret, cs', hres, hhand⟩ := rpcCInitialize_ok hprep
      refine ⟨ret, cs', s, ?_, hhand⟩
      simp only [rpcCall, hres, ok_bind, pure_eq_ok]
    · exact rpcCFinalize_ok hm hprep s

/-! ## Dispatching a call -/

theorem hasError_eq_false {b : EggBuffer} : (!eggBufferHasError b) = true ↔ b.failures = 0 := by
  simp [eggBufferHasError]

/-- Preparing a response writes its header. -/
theorem gkmRpcMessagePrep_response (resp : GkmRpcMessage) (c : CallId) : ∃ ok resp',
    gkmRpcMessagePrep resp c.wire .response = .ok (ok, resp') ∧ (ok = true →
      Expects resp' c.response ∧ resp'.buffer.failures = 0 ∧ resp'.callType = some .response ∧
        resp'.callId = c.wire ∧ resp'.signature = some c.response ∧
        resp'.buffer.buf = headerBytes c) := by
  obtain ⟨buffer, hres, hw⟩ := gkmRpcMessagePrep_call resp c .response
  refine ⟨_, _, hres, ?_⟩
  intro hok
  have h0 := hasError_eq_false.1 hok
  exact ⟨⟨rfl, rfl⟩, h0, rfl, rfl, rfl, hw.buf_eq h0⟩

/-- An error response that was written has the code in it. -/
theorem errorResponse_ok (resp : GkmRpcMessage) (ret : CkRv) : ∃ ok resp',
    errorResponse resp ret = .ok (ok, resp') ∧
      (ok = true → ∃ code, resp'.buffer.buf = BigEndian.encode 4 0 ++ BigEndian.encode 8 code) := by
  have hprep : gkmRpcMessagePrep resp 0 .response = .ok
      (!eggBufferHasError (eggBufferAddUint32 (eggBufferReset resp.buffer) 0).2,
        { callId := 0, callType := some .response, signature := none,
          buffer := (eggBufferAddUint32 (eggBufferReset resp.buffer) 0).2, parsed := 0,
          sigverify := none }) := rfl
  unfold errorResponse
  rw [hprep, ok_bind]
  dsimp only
  by_cases herr : (!eggBufferHasError (eggBufferAddUint32 (eggBufferReset resp.buffer) 0).2) = false
  · rw [if_pos herr]
    exact ⟨_, _, rfl, fun h => absurd h (by simp)⟩
  · rw [if_neg herr]
    have hw := (wrote_addUint32 0 (eggBufferReset resp.buffer)).trans
      (eggBufferAddUint64_writes (eggBufferAddUint32 (eggBufferReset resp.buffer) 0).2
        (ret % 2 ^ 32)).wrote
    refine ⟨_, _, rfl, ?_⟩
    intro hok
    rw [Bool.and_eq_true] at hok
    have h0 := hasError_eq_false.1 hok.2
    exact ⟨ret % 2 ^ 32, hw.buf_eq h0⟩

/-- What `dispatch_call` leaves when it reports success: a response that fits a frame. -/
def Responded (cs : CallState) : Prop :=
  WellFormedResponse cs.resp.buffer.buf ∧ cs.resp.buffer.buf.length < 2 ^ 32 ∧
    0 < cs.resp.buffer.buf.length

theorem responded_of_writing {lim : Nat} (hw : Writing c [] lim cs) (hfits : FitsFrame c lim) : Responded cs := by
  obtain ⟨done, body, hsig, hpay, hlim, hbuf⟩ := hw.payload
  rw [append_nil] at hsig
  subst hsig
  have hlen : cs.resp.buffer.buf.length = (headerBytes c).length + body.length := by
    rw [hbuf, length_append]
  refine ⟨?_, ?_, ?_⟩
  · rw [hbuf]
    exact .call c body hpay
  · unfold FitsFrame at hfits
    omega
  · have : 0 < (headerBytes c).length := by simp [CallId.header]
    omega

/-- A parsed request is dispatched without a fault, and a response is well formed. -/
theorem dispatchCall_ok (hm : m.Allowed) {c : CallId} {cs : CallState}
    (hid : cs.req.callId = c.wire) (hexp : Expects cs.req c.request) (s : σ)
    (hcall : ∀ resp, CallOk m c { cs with resp } s) :
    ∃ ok cs' s', dispatchCall m cs s = .ok (ok, cs', s') ∧ (ok = true → Responded cs') := by
  have hle : c.wire ≤ CallId.all.length := by
    cases c <;> decide
  obtain ⟨ok, resp, hprep, hokprep⟩ := gkmRpcMessagePrep_response cs.resp c
  unfold dispatchCall
  rw [hid, cAssert_of_true (CallId.wire_pos c), cAssert_of_true hle, ok_bind, ok_bind, hprep,
    ok_bind]
  dsimp only
  cases ok with
  | false => exact ⟨false, _, s, rfl, fun h => absurd h (by simp)⟩
  | true =>
    obtain ⟨hexp', hfail, htype, hcid, hsig, hbuf⟩ := hokprep rfl
    have hprepared : Prepared c { cs with resp } := by
      refine ⟨hexp, hexp', hfail, htype, hcid, hsig, hid, [], [], rfl, Payload.nil, ?_, ?_⟩
      · simp
      · rw [append_nil]
        exact hbuf
    obtain ⟨ret, cs', s', hres, lim, hfits, hans⟩ := rpcCall_ok hm hprepared s (hcall resp)
    rw [if_neg (by simp), hid, CallId.ofWire_wire]
    dsimp only
    rw [hres, ok_bind]
    dsimp only
    by_cases hret : checkedRet ret cs' = ckrOk
    · rw [if_pos hret]
      have hret0 : ret = ckrOk := by
        by_contra hne
        rw [checkedRet, if_pos hne] at hret
        exact hne hret
      have hw := hans.2 hret0
      rw [cAssert_of_true (isVerified_of_expects hw.expects), cAssert_of_true hw.callType,
        cAssert_of_true (by rw [hw.callId, hw.reqCallId]), cAssert_of_true hw.signature]
      exact ⟨true, cs', s', rfl, fun _ => responded_of_writing hw hfits⟩
    · rw [if_neg hret]
      obtain ⟨ok, resp', herr, hcode⟩ := errorResponse_ok cs'.resp (checkedRet ret cs')
      rw [herr, ok_bind]
      refine ⟨ok, { cs' with resp := resp' }, s', rfl, ?_⟩
      intro hok
      obtain ⟨code, hbuf'⟩ := hcode hok
      refine ⟨?_, ?_, ?_⟩ <;> simp only [hbuf']
      · exact .error code
      · simp
      · simp

/-! ## The loop -/

/-- Parsing a request does not fault; one that is accepted expects the arguments of its call. -/
theorem gkmRpcMessageParse_request (msg : GkmRpcMessage) : ∃ ok msg',
    gkmRpcMessageParse msg .request = .ok (ok, msg') ∧
      (ok = true → ∃ c : CallId, msg'.callId = c.wire ∧ Expects msg' c.request) := by
  unfold gkmRpcMessageParse
  rw [eggBufferGetUint32_eq]
  cases hv : uint32At msg.buffer.buf 0 with
  | none => exact ⟨_, _, rfl, fun h => absurd h (by simp)⟩
  | some v =>
    simp only [readResult_some, ok_bind]
    by_cases h0 : v.1 = 0
    · rw [if_pos h0]
      exact ⟨_, _, rfl, fun h => absurd h (by decide)⟩
    · rw [if_neg h0]
      cases hc : CallId.ofWire v.1 with
      | none => exact ⟨_, _, rfl, fun h => absurd h (by simp)⟩
      | some c =>
        simp only [eggBufferGetByteArray_eq]
        cases hd : byteArrayAt msg.buffer.buf v.2 with
        | none => exact ⟨_, _, rfl, fun h => absurd h (by simp)⟩
        | some d =>
          refine ⟨_, _, rfl, ?_⟩
          intro _
          exact ⟨c, (CallId.wire_of_ofWire hc).symm, rfl, rfl⟩

/-- A frame whose length is not zero is received without a fault. -/
theorem receiveRequest_ok (req : GkmRpcMessage) (input : Bytes) {len : Nat}
    (hlen : 0 < len) : ∃ r, receiveRequest req input len = .ok r ∧ ∀ req' input',
      r = some (req', input') → ∃ c : CallId, req'.callId = c.wire ∧ Expects req' c.request := by
  unfold receiveRequest
  have hreserve := eggBufferReserve_cases req.buffer (req.buffer.len + len)
  rcases hreserve with ⟨b, hb, -, -, hle, -⟩ | ⟨b, hb, -, hf, -⟩
  · rw [hb]
    dsimp only
    by_cases herr : eggBufferHasError b = true
    · rw [if_pos herr]
      exact ⟨none, rfl, fun _ _ h => absurd h (by simp)⟩
    · rw [if_neg herr, readAll, cAssert_of_true hlen, ok_bind]
      by_cases hin : len ≤ input.length
      · rw [if_pos hin]
        simp only [pure_eq_ok, ok_bind]
        have hnot : ¬ b.allocatedLen < (input.take len).length := by
          rw [length_take]
          omega
        rw [if_neg hnot]
        obtain ⟨ok, msg', hparse, hok⟩ := gkmRpcMessageParse_request
          { req with buffer := (eggBufferAddEmpty b (input.take len)).2 }
        rw [hparse, ok_bind]
        cases ok with
        | false => exact ⟨none, rfl, fun _ _ h => absurd h (by simp)⟩
        | true =>
          refine ⟨some (msg', input.drop len), rfl, ?_⟩
          intro req' input' heq
          cases heq
          exact hok rfl
      · rw [if_neg hin]
        exact ⟨none, rfl, fun _ _ h => absurd h (by simp)⟩
  · rw [hb]
    have herr : eggBufferHasError b = true := by
      simp only [eggBufferHasError, hf, bne_iff_ne]
      omega
    dsimp only
    rw [if_pos herr]
    exact ⟨none, rfl, fun _ _ h => absurd h (by simp)⟩

/-- The condition of a frame: it is not empty, and its call can be handled. -/
structure FrameOk (m : LowerModule σ) (st : LoopState σ) (input : Bytes) (len : Nat) :
    Prop where
  length : len ≠ 0
  call : ∀ req input' (c : CallId),
    receiveRequest (callReset st.cs).req input len = .ok (some (req, input')) →
    req.callId = c.wire → ∀ resp, CallOk m c { callReset st.cs with req, resp } st.lower

/-- The condition of a round: the condition of its frame, if there is one. -/
def RoundOk (m : LowerModule σ) (st : LoopState σ) : Prop :=
  4 ≤ st.input.length → FrameOk m st (st.input.drop 4) (eggBufferDecodeUint32 (st.input.take 4))

theorem serveFrame_step (hm : m.Allowed) {st : LoopState σ}
    {input : Bytes} {len : Nat} (hframe : FrameOk m st input len) :
    serveFrame m st input len = .ok none ∨ ∃ st' frame,
      serveFrame m st input len = .ok (some st') ∧
        st'.output = st.output ++ [frame] ∧ WellFormedFrame frame := by
  unfold serveFrame
  by_cases hbig : 0x0FFFFFFF ≤ len
  · rw [if_pos hbig]
    exact .inl rfl
  · rw [if_neg hbig]
    obtain ⟨r, hr, hcall⟩ :=
      receiveRequest_ok (callReset st.cs).req input (Nat.pos_of_ne_zero hframe.length)
    dsimp only
    rw [hr, ok_bind]
    cases r with
    | none => exact .inl rfl
    | some r =>
      obtain ⟨c, hid, hexp⟩ := hcall r.1 r.2 rfl
      obtain ⟨ok, cs', s', hdisp, hresp⟩ :=
        @dispatchCall_ok _ _ hm c { callReset st.cs with req := r.1 } hid hexp st.lower
          (hframe.call r.1 r.2 c hr hid)
      dsimp only at hdisp ⊢
      rw [hdisp, ok_bind]
      cases ok with
      | false => exact .inl rfl
      | true =>
        obtain ⟨hwell, hfit, hne⟩ := hresp rfl
        have hsent : sendFrame cs'.resp = .ok
            (eggBufferEncodeUint32 cs'.resp.buffer.len ++ cs'.resp.buffer.buf) := by
          have hne' : 0 < cs'.resp.buffer.len := hne
          unfold sendFrame
          rw [cAssert_of_true hne']
          rfl
        simp only [Bool.true_eq_false, if_false, hsent, ok_bind]
        by_cases hsend : st.canSend st.output.length = true
        · rw [if_pos hsend]
          refine .inr ⟨_, _, rfl, rfl, cs'.resp.buffer.buf, hwell, hfit, ?_⟩
          rw [eggBufferEncodeUint32_eq]
          rfl
        · rw [if_neg hsend]
          exact .inl rfl

/-- What a round does when its condition holds. -/
theorem dispatchRound_step (hm : m.Allowed) {st : LoopState σ} (hst : RoundOk m st) :
    dispatchRound m st = .ok none ∨ ∃ st' frame, dispatchRound m st = .ok (some st') ∧
      st'.output = st.output ++ [frame] ∧ WellFormedFrame frame := by
  unfold dispatchRound
  rw [readAll, cAssert_of_true (by omega), ok_bind]
  by_cases hin : 4 ≤ st.input.length
  · rw [if_pos hin, pure_eq_ok, ok_bind]
    exact serveFrame_step hm (hst hin)
  · rw [if_neg hin]
    exact .inl rfl

/-- In every run whose rounds all meet their condition, from any start, every frame sent is a
well-formed response and no round faults: it leaves the loop, or sends one more such frame. -/
theorem run_dispatch_loop_safe {m : LowerModule σ} (hm : m.Allowed)
    (allocator : EggBufferAllocator) (malloc : Nat → Nat → Bool) (uninit : CkRv)
    (input : Bytes) (lower : σ) (canSend : Nat → Bool) {st : LoopState σ}
    (hrun : Reaches (dispatchRound m) (RoundOk m)
      (startLoop allocator malloc uninit input lower canSend) st) :
    (∀ frame ∈ st.output, WellFormedFrame frame) ∧
      (RoundOk m st → dispatchRound m st = .ok none ∨ ∃ st' frame,
        dispatchRound m st = .ok (some st') ∧ st'.output = st.output ++ [frame] ∧
          WellFormedFrame frame) := by
  refine ⟨?_, dispatchRound_step hm⟩
  -- the invariant is on the frames sent so far; a round adds one
  refine reaches_invariant (I := fun st => ∀ frame ∈ st.output, WellFormedFrame frame) ?_ ?_ hrun
  · intro s t hs hok hstep frame hmem
    rcases dispatchRound_step hm hok with hnone | ⟨st', frame', hsome, hout, hwell⟩
    · rw [hstep] at hnone
      exact absurd hnone (by simp)
    · rw [hstep] at hsome
      cases hsome
      rw [hout, mem_append, mem_singleton] at hmem
      rcases hmem with hmem | rfl
      · exact hs frame hmem
      · exact hwell
  · intro frame hmem
    exact absurd hmem (by simp [startLoop])

/-- A module that has every function and whose functions all fail. -/
def failingModule : LowerModule Unit where
  has := fun _ => true
  call := fun _ _ _ =>
    ({ rv := ckrGeneralError, ulong := 0, ulong2 := 0, bytes := [], ulongs := [], len := 0,
       attrs := [],
       info := ⟨⟨2, 20⟩, Vector.replicate 32 32, 0, Vector.replicate 32 32, ⟨1, 0⟩⟩,
       slotInfo := ⟨Vector.replicate 64 32, Vector.replicate 32 32, 0, ⟨1, 0⟩, ⟨1, 0⟩⟩,
       tokenInfo := ⟨Vector.replicate 32 32, Vector.replicate 32 32, Vector.replicate 16 32,
         Vector.replicate 16 32, 0, 0, 0, 0, 0, 0, 0, 0, 0, 0, 0, ⟨1, 0⟩, ⟨1, 0⟩,
         Vector.replicate 16 32⟩,
       mechanismInfo := ⟨0, 0, 0⟩, sessionInfo := ⟨0, 0, 0, 0⟩, applicationId := 0 }, ())

theorem failingModule_allowed : failingModule.Allowed := by
  refine ⟨?_, rfl, rfl⟩
  intro c args s
  have hrv : (failingModule.call c args s).1.rv = ckrGeneralError := rfl
  constructor
  · intro h
    rw [hrv] at h
    exact absurd h (by decide)
  · intro h
    rw [hrv] at h
    exact absurd h (by decide)
  · intro arr _ h
    rw [hrv] at h
    exact absurd h (by decide)

/-- A connection with enough memory to a module whose functions fail. -/
def plentyLoop (input : Bytes) : LoopState Unit :=
  startLoop (fun _ _ => true) (fun _ _ => true) 0 input () fun _ => true

/-- A `C_CloseSession` request for session 1, as a frame. -/
def closeSessionFrame : Bytes :=
  [0, 0, 0, 17, 0, 0, 0, 12, 0, 0, 0, 1, 117, 0, 0, 0, 0, 0, 0, 0, 1]

/-- A `C_InitToken` request for slot 1 without a pin and with the label `x`, as a frame. -/
def initTokenFrame : Bytes :=
  [0, 0, 0, 26, 0, 0, 0, 9, 0, 0, 0, 4, 117, 97, 121, 122, 0, 0, 0, 0, 0, 0, 0, 1, 0, 0, 0, 0, 1,
    120]

/-- The call of a request that was received. -/
def receivedCall (r : Checked (Option (GkmRpcMessage × Bytes))) : Option Nat :=
  match r with
  | .ok (some (req, _)) => some req.callId
  | _ => none

theorem roundOk_closeSession : RoundOk failingModule (plentyLoop closeSessionFrame) := by
  intro _
  refine ⟨by decide +kernel, ?_⟩
  intro req input' c hreq hid resp
  have hcall : receivedCall (receiveRequest (callReset (plentyLoop closeSessionFrame).cs).req
      ((plentyLoop closeSessionFrame).input.drop 4)
      (eggBufferDecodeUint32 ((plentyLoop closeSessionFrame).input.take 4))) = some 12 := by
    decide +kernel
  rw [hreq] at hcall
  have hwire : c.wire = 12 := by
    rw [← hid]
    simpa [receivedCall] using hcall
  constructor
  · rintro rfl
    exact absurd hwire (by decide)
  · rintro rfl
    exact absurd hwire (by decide)

/-- A connection on which a client closes a session. -/
theorem run_dispatch_loop_safe_closeSession :
    dispatchRound failingModule (plentyLoop closeSessionFrame) = .ok none ∨ ∃ st' frame,
      dispatchRound failingModule (plentyLoop closeSessionFrame) = .ok (some st') ∧
        st'.output = [] ++ [frame] ∧ WellFormedFrame frame :=
  (run_dispatch_loop_safe failingModule_allowed (fun _ _ => true) (fun _ _ => true) 0
    closeSessionFrame () (fun _ => true) Relation.ReflTransGen.refl).2 roundOk_closeSession

/-- A frame of length zero, and a request with a label, each make the daemon fault. -/
theorem run_dispatch_loop_faults :
    failingModule.Allowed ∧
      dispatchRound failingModule (plentyLoop [0, 0, 0, 0]) = .error .assertion ∧
      dispatchRound failingModule (plentyLoop initTokenFrame) = .error .outOfBounds :=
  ⟨failingModule_allowed, eq_error_of_faultOf (by decide +kernel),
    eq_error_of_faultOf (by decide +kernel)⟩

end MateKeyring.Rpc.Dispatch
