import Mathlib.Tactic.IntervalCases
import MateKeyring.Ssh.Agent

/-!
# When the client thread is robust

`OperationSafe` says for each operation when it can be run: what it asserts, the pointers it follows and
the room its response needs. `Safe` adds that the packet fits into the request buffer and that no write is
interrupted. A round from a state that is `Safe` does not fault, and its response has its length in front
(`clientRound_safe`); `client_thread_robust` is the same for every round of a run.
-/

set_option autoImplicit false

namespace MateKeyring.Ssh.Agent

open Lib Egg BigEndian List

variable {b req resp : EggBuffer} {turn : Turn} {excludeV1 : Bool} {input : Bytes} {m n : Nat} {t : Thread}

/-! ## The conditions -/

/-- The bytes of an attribute. -/
def valueSize : GckValue → Nat
  | .data value => value.length
  | _ => 0

/-- A public key that `gkd_ssh_agent_proto_write_public` can write: one of the two key types of the
protocol, with its numbers. -/
def Listable (o : ModuleObject) : Prop :=
  ∀ algo, gckAttributesFindUlong (gckObjectGet o identityV2Types) ckaKeyType = some algo →
    (algo = ckkRsa ∨ algo = ckkDsa) ∧ ∀ type ∈ publicNumbers algo, o.value type ≠ .invalid

/-- The room some numbers of a key need, with `extra` bytes for each. -/
def numbersSize (extra : Nat) (o : ModuleObject) (types : List Nat) : Nat :=
  (types.map fun type => extra + valueSize (o.value type)).sum

/-- The room a key needs in the answer to `op_request_identities`. -/
def identitySize (o : ModuleObject) : Nat :=
  19 + numbersSize 5 o (publicNumbers ckkRsa ++ publicNumbers ckkDsa) + valueSize (o.value ckaLabel)

/-- The room a key needs in the answer to `op_v1_request_identities`. -/
def identityV1Size (o : ModuleObject) : Nat := 18 + numbersSize 2 o (publicNumbers ckkRsa)

/-- The keys have room in one response. -/
def HaveRoom (size : ModuleObject → Nat) (keys : List ModuleObject) : Prop :=
  9 + (keys.map size).sum < 2 ^ 31

/-- A public key that can be removed: it is on a token or is passed over, or its private key is there. -/
def Removable (turn : Turn) (excludeV1 : Bool) (pub : ModuleObject) : Prop :=
  (turn.visit pub.handle).login = false ∨ (turn.visit pub.handle).get = false ∨
    (turn.visit pub.handle).find = false ∨ (excludeV1 = true ∧ isV1 pub = true) ∨ isToken pub = true ∨
    ∃ priv ∈ (turn.visit pub.handle).objects, priv.isFound (relatedSearch pub) = true

/-- The data of a sign request is there, unless there is no key to sign it with. -/
def SignDataGiven (turn : Turn) (req : EggBuffer) : Prop :=
  ∀ r c, opSignRequestRead ⟨req, 5⟩ = .ok (.ok r, c) → r.data = none →
    returnPrivateMatching turn r.attrs = none

/-- No signature is too long for a response. -/
def SignaturesFit (turn : Turn) : Prop :=
  ∀ hash value, turn.sign hash = .signature value → value.length + 28 < 2 ^ 31

/-- The public key that a request to remove one names, if it is found. -/
def NamedRemovable (turn : Turn) (read : Reader GckAttributes) (excludeV1 : Bool) (req : EggBuffer) :
    Prop :=
  ∀ attrs c, read ⟨req, 5⟩ = .ok (.ok attrs, c) →
    ∀ pub ∈ returnFirstMatching turn attrs, Removable turn excludeV1 pub

/-- The operation of this number can be run on the packet. -/
def OperationSafe (turn : Turn) (req : EggBuffer) : Nat → Prop
  | 1 => (gckModulesEnumerateObjects turn publicSearchV1).2 = false →
      HaveRoom identityV1Size (identitiesV1 turn (gckModulesEnumerateObjects turn publicSearchV1).1)
  | 7 | 17 | 24 | 25 => turn.attributeMemory = true
  | 8 => NamedRemovable turn (gkdSshAgentProtoReadPublicV1 []) false req
  | 9 => ∀ pub ∈ mainFindObjects turn publicSearchV1, Removable turn false pub
  | 11 => (gckModulesEnumerateObjects turn publicSearch).2 = false →
      (∀ o ∈ identitiesV2 turn (gckModulesEnumerateObjects turn publicSearch).1, Listable o) ∧
        HaveRoom identitySize (identitiesV2 turn (gckModulesEnumerateObjects turn publicSearch).1)
  | 13 => SignDataGiven turn req ∧ SignaturesFit turn
  | 18 => NamedRemovable turn opRemoveIdentityRead true req
  | 19 => ∀ pub ∈ mainFindObjects turn publicSearch, Removable turn true pub
  | _ => True

/-- The packet fits: as many of its bytes as come have room in the request buffer, or the buffer can grow.
Of a packet of two gigabytes or more nothing is read. -/
def PacketFits (req : EggBuffer) (input : Bytes) : Prop :=
  decode (input.take 4) < 2 ^ 31 →
    4 + min (decode (input.take 4)) (input.length - 4) ≤ req.allocatedLen ∨
      (eggBufferReserve req (decode (input.take 4) + 4)).1 = true

/-- The next round of the thread can be made. -/
structure TurnSafe (t : Thread) (turn : Turn) : Prop where
  packet : PacketFits t.req t.input
  operation : ∀ req input, readPacketWithSize turn (eggBufferReset t.req) t.input = .ok (some (req, input)) →
    OperationSafe turn req (req.buf.getD 4 0).toNat
  writes : Write.interrupted ∉ turn.writes

/-- The thread has no turn to make, or can make it. -/
def Safe (t : Thread) : Prop := ∀ turn turns, t.turns = turn :: turns → TurnSafe t turn

/-! ## What is written grows -/

/-- The buffer grew by at most `n` bytes, and can grow on. -/
structure Grown (b b' : EggBuffer) (n : Nat) : Prop where
  plenty : b'.Plenty
  least : b.len ≤ b'.len
  most : b'.len ≤ b.len + n

theorem Grown.refl (h : b.Plenty) : Grown b b 0 := ⟨h, Nat.le_refl _, Nat.le_refl _⟩

theorem Grown.trans {b b' b'' : EggBuffer} (h : Grown b b' m) (h' : Grown b' b'' n) :
    Grown b b'' (m + n) := by
  refine ⟨h'.plenty, h.least.trans h'.least, ?_⟩
  have := h.most
  have := h'.most
  omega

theorem Grown.mono {b b' : EggBuffer} (h : Grown b b' m) (hmn : m ≤ n) : Grown b b' n :=
  ⟨h.plenty, h.least, h.most.trans (Nat.add_le_add_left hmn _)⟩

theorem grown_of_appended {b b' : EggBuffer} {out : Bytes} (h : Appended b b' out) :
    Grown b b' out.length := by
  have hlen : b'.len = b.len + out.length := by
    rw [EggBuffer.len, h.buf_eq, length_append]
    rfl
  exact ⟨h.plenty, by omega, by omega⟩

theorem grown_append (h : b.Plenty) (val : Bytes) : Grown b (eggBufferAppend b val).2 val.length :=
  grown_of_appended ((eggBufferAppend_granted h val).appended (eggBufferAppend_writes b val))

theorem grown_addByte (h : b.Plenty) (v : UInt8) : Grown b (eggBufferAddByte b v).2 1 :=
  grown_append h [v]

theorem grown_addUint32 (h : b.Plenty) (v : Nat) : Grown b (eggBufferAddUint32 b v).2 4 :=
  grown_append h _

theorem grown_addUint16 (h : b.Plenty) (v : Nat) : Grown b (eggBufferAddUint16 b v).2 2 :=
  grown_append h _

/-- Of two writes the second is made or not. -/
theorem grown_andThen {r : Bool × EggBuffer} {f : EggBuffer → Bool × EggBuffer} (hr : Grown b r.2 m)
    (hf : ∀ b', b'.Plenty → Grown b' (f b').2 n) :
    Grown b (andThen r f).2 (m + n) := by
  unfold andThen
  split
  · exact hr.trans (hf _ hr.plenty)
  · exact hr.mono (Nat.le_add_right _ _)

theorem grown_addByteArray (h : b.Plenty) (val : Option Bytes) :
    Grown b (eggBufferAddByteArray b val).2 (4 + (val.getD []).length) := by
  cases val with
  | none => exact (grown_addUint32 h _).mono (Nat.le_add_right _ _)
  | some data =>
    rw [eggBufferAddByteArray]
    split
    · -- a failure is counted and nothing is written
      exact ⟨h, Nat.le_refl _, Nat.le_add_right _ _⟩
    · exact grown_andThen (grown_addUint32 h _) fun b' hb' => grown_append hb' data

theorem grown_addString (h : b.Plenty) (data : Bytes) :
    Grown b (eggBufferAddString b (some data)).2 (4 + data.length) := by
  rw [eggBufferAddString]
  split
  · exact (Grown.refl h).mono (Nat.zero_le _)
  · exact grown_andThen (grown_addUint32 h _) fun b' hb' => grown_append hb' data

theorem eggBufferSetUint32_len (b : EggBuffer) (offset val : Nat) :
    (eggBufferSetUint32 b offset val).2.len = b.len := by
  rw [eggBufferSetUint32]
  split
  · rfl
  · rename_i h
    simp only [EggBuffer.len, not_or, not_lt] at h ⊢
    simp only [length_append, length_take, length_drop, eggBufferEncodeUint32,
      length_cons, length_nil]
    omega

theorem eggBufferSetUint32_plenty (h : b.Plenty) (offset val : Nat) :
    (eggBufferSetUint32 b offset val).2.Plenty := by
  rw [eggBufferSetUint32]
  split
  · exact h
  · exact h

theorem grown_setUint32 (h : b.Plenty) (offset val : Nat) :
    Grown b (eggBufferSetUint32 b offset val).2 0 :=
  ⟨eggBufferSetUint32_plenty h _ _, (eggBufferSetUint32_len b _ _).ge, (eggBufferSetUint32_len b _ _).le⟩

/-! ## Writing keys -/

/-- The write does not fault, and writes at most `n` bytes. -/
def WritesUpTo (resp : EggBuffer) (r : Checked (Bool × EggBuffer)) (n : Nat) : Prop :=
  ∃ x, r = .ok x ∧ Grown resp x.2 n

theorem find_gckObjectGet (o : ModuleObject) {types : List Nat} {type : Nat} (h : type ∈ types) :
    gckAttributesFind (gckObjectGet o types) type = some ⟨type, o.value type⟩ := by
  induction types with
  | nil => cases h
  | cons t types ih =>
    rw [gckObjectGet, map_cons, gckAttributesFind_cons]
    by_cases ht : t = type
    · rw [if_pos ht, ht]
    · rw [if_neg ht]
      exact ih ((mem_cons.1 h).resolve_left fun he => ht he.symm)

theorem length_fromUnsigned (value : Bytes) : (fromUnsigned value).length ≤ value.length + 1 := by
  rw [fromUnsigned]
  split
  · exact Nat.le_refl _
  · exact Nat.le_succ _

theorem writesUpTo_mpi (h : resp.Plenty) {attr : GckAttribute} (hattr : attr.value ≠ .invalid) :
    WritesUpTo resp (gkdSshAgentProtoWriteMpi resp attr) (5 + valueSize attr.value) := by
  rw [gkdSshAgentProtoWriteMpi]
  split
  · rename_i hinvalid
    exact absurd hinvalid hattr
  · exact ⟨_, rfl, (grown_addByteArray h (some [])).mono ((by decide : 4 ≤ 5).trans (Nat.le_add_right _ _))⟩
  · rename_i value hvalue
    refine ⟨_, rfl, (grown_addByteArray h (some (fromUnsigned value))).mono ?_⟩
    have := length_fromUnsigned value
    rw [hvalue, valueSize, Option.getD_some]
    omega

theorem writesUpTo_mpiV1 (h : resp.Plenty) (attr : GckAttribute) :
    WritesUpTo resp (gkdSshAgentProtoWriteMpiV1 resp attr) (2 + valueSize attr.value) := by
  rw [gkdSshAgentProtoWriteMpiV1]
  split
  · exact ⟨_, rfl, (Grown.refl h).mono (Nat.zero_le _)⟩
  · exact ⟨_, rfl, (grown_addUint16 h 0).mono (Nat.le_add_right _ _)⟩
  · rename_i value hvalue
    rw [hvalue, valueSize]
    split
    · exact ⟨_, rfl, grown_andThen (grown_addUint16 h _) fun b' hb' => grown_append hb' value⟩
    · exact ⟨_, rfl, (Grown.refl h).mono (Nat.zero_le _)⟩

/-- The numbers of a key are written until one cannot be. -/
theorem writesUpTo_numbers {write : EggBuffer → GckAttribute → Checked (Bool × EggBuffer)}
    (o : ModuleObject) {known : List Nat} (extra : Nat) (types : List Nat)
    (hsub : ∀ type ∈ types, type ∈ known)
    (hwrite : ∀ type ∈ types, ∀ resp : EggBuffer, resp.Plenty →
      WritesUpTo resp (write resp ⟨type, o.value type⟩) (extra + valueSize (o.value type)))
    (resp : EggBuffer) (h : resp.Plenty) :
    WritesUpTo resp (writeNumbers write (gckObjectGet o known) types resp)
      (numbersSize extra o types) := by
  induction types generalizing resp with
  | nil => exact ⟨_, rfl, Grown.refl h⟩
  | cons type types ih =>
    obtain ⟨x, hx, hgrown⟩ := hwrite type mem_cons_self resp h
    rw [writeNumbers, find_gckObjectGet o (hsub type mem_cons_self)]
    dsimp only
    rw [hx, ok_bind]
    rw [numbersSize, map_cons, sum_cons]
    cases hok : x.1 with
    | false => exact ⟨_, rfl, hgrown.mono (Nat.le_add_right _ _)⟩
    | true =>
      obtain ⟨y, hy, hgrown'⟩ := ih (forall_mem_cons.1 hsub).2
        (forall_mem_cons.1 hwrite).2 x.2 hgrown.plenty
      exact ⟨y, hy, hgrown.trans hgrown'⟩

theorem numbersSize_append (extra : Nat) (o : ModuleObject) (types types' : List Nat) :
    numbersSize extra o (types ++ types') = numbersSize extra o types + numbersSize extra o types' := by
  simp [numbersSize]

theorem writesUpTo_public (h : resp.Plenty) {o : ModuleObject} (ho : Listable o) :
    WritesUpTo resp (gkdSshAgentProtoWritePublic resp (gckObjectGet o identityV2Types))
      (11 + numbersSize 5 o (publicNumbers ckkRsa ++ publicNumbers ckkDsa)) := by
  rw [gkdSshAgentProtoWritePublic]
  cases htype : gckAttributesFindUlong (gckObjectGet o identityV2Types) ckaKeyType with
  | none => exact ⟨_, rfl, (Grown.refl h).mono (Nat.zero_le _)⟩
  | some algo =>
    obtain ⟨hsupported, hvalid⟩ := ho algo htype
    rw [numbersSize_append]
    have hname := grown_addString h (ascii "ssh-rsa")
    have hname' := grown_addString h (ascii "ssh-dss")
    have hnumbers : ∀ resp : EggBuffer, resp.Plenty → WritesUpTo resp
        (writeNumbers gkdSshAgentProtoWriteMpi (gckObjectGet o identityV2Types) (publicNumbers algo) resp)
        (numbersSize 5 o (publicNumbers algo)) := by
      refine writesUpTo_numbers o 5 _ ?_ ?_
      · rcases hsupported with rfl | rfl <;> decide
      · intro type ht resp hresp
        exact writesUpTo_mpi hresp (hvalid type ht)
    rcases hsupported with rfl | rfl
    · obtain ⟨x, hx, hgrown⟩ := hnumbers _ hname.plenty
      refine ⟨x, hx, (hname.trans hgrown).mono ?_⟩
      have : (ascii "ssh-rsa").length = 7 := rfl
      omega
    · obtain ⟨x, hx, hgrown⟩ := hnumbers _ hname'.plenty
      refine ⟨x, hx, (hname'.trans hgrown).mono ?_⟩
      have : (ascii "ssh-dss").length = 7 := rfl
      omega

theorem writesUpTo_publicV1 (h : resp.Plenty) (o : ModuleObject) :
    WritesUpTo resp (gkdSshAgentProtoWritePublicV1 resp (gckObjectGet o identityV1Types))
      (4 + numbersSize 2 o (publicNumbers ckkRsa)) := by
  rw [gkdSshAgentProtoWritePublicV1]
  split
  · exact ⟨_, rfl, (Grown.refl h).mono (Nat.zero_le _)⟩
  · rename_i bits hbits
    have hword := grown_addUint32 h bits
    have hknown : ∀ type ∈ publicNumbers ckkRsa, type ∈ identityV1Types := by decide
    obtain ⟨x, hx, hgrown⟩ := writesUpTo_numbers o 2 (publicNumbers ckkRsa) hknown
      (fun type _ resp hresp => writesUpTo_mpiV1 hresp _) _ hword.plenty
    exact ⟨x, hx, hword.trans hgrown⟩

/-! ## The operations -/

/-- The operation does not fault, and its response is shorter than two gigabytes, given that the response
it starts from has four bytes. -/
def Responds (resp : EggBuffer) (r : Checked (Option EggBuffer)) : Prop :=
  ∃ x, r = .ok x ∧ ∀ resp' ∈ x, Grown resp resp' (2 ^ 31 - 5)

theorem responds_none : Responds resp (.ok none) := by
  refine ⟨none, rfl, ?_⟩
  intro resp' h
  cases h

theorem responds_some {resp resp' : EggBuffer} {n : Nat} (h : Grown resp resp' n) (hn : n + 4 < 2 ^ 31) :
    Responds resp (.ok (some resp')) := by
  refine ⟨_, rfl, ?_⟩
  rintro _ ⟨⟩
  exact h.mono (by omega)

theorem responds_code (h : resp.Plenty) (code : UInt8) : Responds resp (respond resp code) :=
  responds_some (grown_addByte h code) (by decide)

/-- What follows a reader that does not fault. -/
theorem responds_read {α : Type} {read : Reader α} (hread : Total read)
    {f : Except Unit α × Cursor → Checked (Option EggBuffer)}
    (hstop : ∀ c, Responds resp (f (.error (), c)))
    (hok : ∀ a c, read ⟨req, 5⟩ = .ok (.ok a, c) → Responds resp (f (.ok a, c))) :
    Responds resp (read ⟨req, 5⟩ >>= f) := by
  obtain ⟨⟨x, c⟩, hx⟩ := hread ⟨req, 5⟩
  rw [hx, ok_bind]
  cases x with
  | error u => exact hstop c
  | ok a => exact hok a c hx

theorem opAddIdentity_total (s : Session) (r : AddRequest) : ∃ x, Ssh.opAddIdentity s r = .ok x := by
  obtain ⟨x, hx⟩ := r.read_total
  rw [Ssh.opAddIdentity, hx]
  cases x with
  | error u => exact ⟨_, rfl⟩
  | ok pair => exact ⟨_, rfl⟩

theorem addIdentity_responds (v1 : Bool) (req : EggBuffer) (h : resp.Plenty)
    (hmemory : turn.attributeMemory = true) :
    Responds resp (addIdentity v1 turn req resp) := by
  obtain ⟨⟨answer, s⟩, hx⟩ := opAddIdentity_total turn.session ⟨v1, req, turn.outcome⟩
  rw [addIdentity, cAssert_of_true hmemory, ok_bind, hx, ok_bind]
  cases answer with
  | success => exact responds_code h _
  | failure => exact responds_code h _
  | closed => exact responds_none

theorem writeIdentities_grown (keys : List ModuleObject) (hkeys : ∀ o ∈ keys, Listable o) (h : resp.Plenty) :
    ∃ resp', writeIdentities (keys.map fun o => gckObjectGet o identityV2Types) resp = .ok resp' ∧
      Grown resp resp' (keys.map identitySize).sum := by
  induction keys generalizing resp with
  | nil => exact ⟨resp, rfl, Grown.refl h⟩
  | cons o keys ih =>
    have hspace := grown_addUint32 h 0
    obtain ⟨x, hx, hkey⟩ := writesUpTo_public hspace.plenty (hkeys o mem_cons_self)
    have hblob := (hspace.trans hkey).trans
      (grown_setUint32 hkey.plenty resp.len (x.2.len - resp.len - 4))
    have hcomment := hblob.trans (grown_addString hblob.plenty
      ((gckAttributesFindString (gckObjectGet o identityV2Types) ckaLabel).join.getD []))
    obtain ⟨resp', hresp', hrest⟩ := ih (fun o' ho' => hkeys o' (mem_cons_of_mem _ ho'))
      hcomment.plenty
    rw [map_cons, writeIdentities, hx, ok_bind]
    refine ⟨resp', hresp', (hcomment.trans hrest).mono ?_⟩
    have hlabel : ((gckAttributesFindString (gckObjectGet o identityV2Types) ckaLabel).join.getD []).length ≤
        valueSize (o.value ckaLabel) := by
      rw [gckAttributesFindString, find_gckObjectGet o (by decide)]
      cases o.value ckaLabel with
      | data value => exact (takeWhile_sublist _).length_le
      | null => exact Nat.zero_le _
      | invalid => exact Nat.zero_le _
    rw [map_cons, sum_cons, identitySize]
    omega

theorem writeIdentitiesV1_grown (keys : List ModuleObject) (h : resp.Plenty) :
    ∃ resp', writeIdentitiesV1 (keys.map fun o => gckObjectGet o identityV1Types) resp = .ok resp' ∧
      Grown resp resp' (keys.map identityV1Size).sum := by
  induction keys generalizing resp with
  | nil => exact ⟨resp, rfl, Grown.refl h⟩
  | cons o keys ih =>
    obtain ⟨x, hx, hkey⟩ := writesUpTo_publicV1 h o
    have hcomment := hkey.trans (grown_addString hkey.plenty (ascii "Public Key"))
    obtain ⟨resp', hresp', hrest⟩ := ih hcomment.plenty
    rw [map_cons, writeIdentitiesV1, hx, ok_bind]
    refine ⟨resp', hresp', (hcomment.trans hrest).mono ?_⟩
    have : (ascii "Public Key").length = 10 := rfl
    rw [map_cons, sum_cons, identityV1Size]
    omega

/-- The code and the number of keys in front of a list of keys. -/
theorem grown_header (h : resp.Plenty) (code : UInt8) (n : Nat) :
    Grown resp (eggBufferAddUint32 (eggBufferAddByte resp code).2 n).2 5 :=
  (grown_addByte h code).trans (grown_addUint32 (grown_addByte h code).plenty n)

theorem opRequestIdentities_responds (req : EggBuffer) (h : resp.Plenty) (hsafe : OperationSafe turn req 11) :
    Responds resp (opRequestIdentities turn req resp) := by
  rw [opRequestIdentities]
  dsimp only
  split
  · exact responds_code h _
  · obtain ⟨hkeys, hroom⟩ := hsafe (Bool.eq_false_of_not_eq_true ‹_›)
    have hheader := grown_header h gkdSshResIdentitiesAnswer
      ((identitiesV2 turn (gckModulesEnumerateObjects turn publicSearch).1).map fun o =>
        gckObjectGet o identityV2Types).length
    obtain ⟨resp', hresp', hgrown⟩ := writeIdentities_grown _ hkeys hheader.plenty
    rw [hresp', ok_bind]
    refine responds_some (hheader.trans hgrown) ?_
    rw [HaveRoom] at hroom
    omega

theorem opV1RequestIdentities_responds (req : EggBuffer) (h : resp.Plenty)
    (hroom : OperationSafe turn req 1) :
    Responds resp (opV1RequestIdentities turn req resp) := by
  rw [opV1RequestIdentities]
  dsimp only
  split
  · exact responds_code h _
  · have hheader := grown_header h gkdSshResRsaIdentitiesAnswer
      ((identitiesV1 turn (gckModulesEnumerateObjects turn publicSearchV1).1).map fun o =>
        gckObjectGet o identityV1Types).length
    obtain ⟨resp', hresp', hgrown⟩ := writeIdentitiesV1_grown _ hheader.plenty
    rw [hresp', ok_bind]
    refine responds_some (hheader.trans hgrown) ?_
    have hroom := hroom (Bool.eq_false_of_not_eq_true ‹_›)
    rw [HaveRoom] at hroom
    omega

theorem total_readPublicV1 (attrs : GckAttributes) : Total (gkdSshAgentProtoReadPublicV1 attrs) :=
  total_uint32.bind fun _ => (total_numbers total_mpiV1 _ _).bind fun _ => total_pure _

theorem total_readPublic (attrs : GckAttributes) : Total (gkdSshAgentProtoReadPublic attrs) := by
  apply total_string.bind
  intro stype
  split
  · exact total_stop
  · dsimp only
    split
    · exact ((total_numbers total_mpi _ _).bind fun _ => total_pure _).bind fun _ => total_pure _
    · exact ((total_numbers total_mpi _ _).bind fun _ => total_pure _).bind fun _ => total_pure _

theorem total_signRequest : Total opSignRequestRead :=
  total_uint32.bind fun _ => (total_readPublic _).bind fun _ => total_byteArray.bind fun _ =>
    total_uint32.bind fun _ => total_pure _

theorem total_removeIdentity : Total opRemoveIdentityRead :=
  total_uint32.bind fun _ => (total_readPublic _).bind fun _ => total_pure _

/-- A public key that was read has one of the two key types. -/
theorem finds_readPublic : Finds (gkdSshAgentProtoReadPublic []) fun key =>
    key.2 = ckkRsa ∨ key.2 = ckkDsa := by
  refine Finds.bind (finds_any _) ?_
  intro stype _
  split
  · exact finds_stop
  · rename_i algo halgo
    have hsupported : algo = ckkRsa ∨ algo = ckkDsa := by
      rw [gkdSshAgentProtoKeytypeToAlgo] at halgo
      split at halgo
      · exact .inl (Option.some.inj halgo).symm
      · split at halgo
        · exact .inr (Option.some.inj halgo).symm
        · cases halgo
    dsimp only
    split
    · exact Finds.bind (finds_any _) fun _ _ => finds_pure hsupported
    · exact Finds.bind (finds_any _) fun _ _ => finds_pure hsupported

theorem finds_signRequest : Finds opSignRequestRead fun r => r.algo = ckkRsa ∨ r.algo = ckkDsa :=
  Finds.bind (finds_any _) fun _ _ => Finds.bind finds_readPublic fun _ hkey =>
    Finds.bind (finds_any _) fun _ _ => Finds.bind (finds_any _) fun _ _ => finds_pure hkey

/-- The signature in the form of its key type. -/
theorem grown_writeSignature (h : resp.Plenty) (algo : Nat) (signature : Option Bytes) (n : Nat) :
    Grown resp (if algo = ckkRsa then gkdSshAgentProtoWriteSignatureRsa resp signature n
      else gkdSshAgentProtoWriteSignatureDsa resp signature n).2 (4 + (signature.getD []).length) := by
  rw [gkdSshAgentProtoWriteSignatureRsa, gkdSshAgentProtoWriteSignatureDsa]
  split
  · exact grown_addByteArray h signature
  · split
    · exact grown_addByteArray h signature
    · exact (Grown.refl h).mono (Nat.zero_le _)

/-- The length of a blob is written back into the place that was kept for it. -/
theorem responds_blob {resp b : EggBuffer} {ret : Bool × EggBuffer} (hb : Grown resp b m)
    (hret : Grown b ret.2 n) (hmn : m + n + 4 < 2 ^ 31) (pos : Nat) :
    Responds resp (if ret.1 then .ok (some (eggBufferSetUint32 ret.2 pos (ret.2.len - pos - 4)).2)
      else .ok none) := by
  split
  · exact responds_some ((hb.trans hret).trans (grown_setUint32 hret.plenty _ _)) hmn
  · exact responds_none

theorem writeSignature_responds (h : resp.Plenty) {algo : Nat} (halgo : algo = ckkRsa ∨ algo = ckkDsa)
    (signature : Option Bytes) (n : Nat) (hsize : (signature.getD []).length + 28 < 2 ^ 31) :
    Responds resp (writeSignature resp algo signature n) := by
  obtain ⟨salgo, hname, hlen⟩ : ∃ salgo, gkdSshAgentProtoAlgoToKeytype algo = some salgo ∧
      salgo.length = 7 := by
    rcases halgo with rfl | rfl
    · exact ⟨_, rfl, rfl⟩
    · exact ⟨_, rfl, rfl⟩
  rw [writeSignature]
  dsimp only
  rw [hname]
  have hheader := grown_header h gkdSshResSignResponse 0
  have hstring := hheader.trans (grown_addString hheader.plenty salgo)
  have hret := grown_writeSignature hstring.plenty algo signature n
  exact responds_blob hstring hret (by omega) _

theorem hash_total (sums : Checksums) {r : SignRequest} {data : Bytes} (h : r.data = some data) :
    ∃ hash, r.hash sums = .ok hash := by
  rw [SignRequest.hash, h]
  split
  · exact ⟨_, rfl⟩
  · exact ⟨_, rfl⟩

theorem opSignRequest_responds (sums : Checksums) (h : resp.Plenty)
    (hsafe : OperationSafe turn req 13) : Responds resp (opSignRequest sums turn req resp) := by
  obtain ⟨hgiven, hfit⟩ := hsafe
  refine responds_read total_signRequest (fun _ => responds_none) ?_
  intro r c hr
  dsimp only
  cases hkey : returnPrivateMatching turn r.attrs with
  | none => exact responds_code h _
  | some key =>
    -- a key was found, so there is data to sign
    cases hdata : r.data with
    | none => exact absurd (hgiven r c hr hdata) (by rw [hkey]; exact Option.some_ne_none _)
    | some data =>
      obtain ⟨hash, hhash⟩ := hash_total sums hdata
      have halgo := finds_signRequest _ _ _ hr
      dsimp only
      rw [hhash, ok_bind]
      cases hsign : turn.sign hash with
      | error => exact responds_code h _
      | notAsked n => exact writeSignature_responds h halgo none n (by decide)
      | signature value => exact writeSignature_responds h halgo (some value) _ (hfit _ _ hsign)

theorem readSessionId_total (n : Nat) (b : UInt8) (c : Cursor) : ∃ x, readSessionId n b c = .ok x := by
  induction n generalizing b c with
  | zero => exact ⟨_, rfl⟩
  | succ n ih =>
    obtain ⟨⟨x, c'⟩, hx⟩ := total_byte c
    rw [readSessionId, hx, ok_bind]
    cases x with
    | error u =>
      obtain ⟨y, hy⟩ := ih b c'
      exact ⟨_, by dsimp only; rw [hy]; rfl⟩
    | ok b' =>
      obtain ⟨y, hy⟩ := ih b' c'
      exact ⟨_, by dsimp only; rw [hy]; rfl⟩

theorem readResponseType_total (unset : Nat) (c : Cursor) : ∃ x, readResponseType unset c = .ok x := by
  obtain ⟨⟨x, c'⟩, hx⟩ := total_uint32 c
  rw [readResponseType, hx, ok_bind]
  cases x with
  | error u => exact ⟨_, rfl⟩
  | ok v => exact ⟨_, rfl⟩

theorem readChallengeV1_total (c : Cursor) : ∃ x, gkdSshAgentProtoReadChallengeV1 c = .ok x := by
  have hbits : Total readBits := by
    apply total_uint16.bind
    intro bits
    split
    · exact total_stop
    · exact total_pull _
  obtain ⟨⟨x, c'⟩, hx⟩ := hbits c
  rw [gkdSshAgentProtoReadChallengeV1, hx, ok_bind]
  cases x with
  | error u => exact ⟨_, rfl⟩
  | ok data => exact ⟨_, rfl⟩

theorem challenge_responds (sums : Checksums) (turn : Turn) (attrs : GckAttributes) (c : Cursor)
    (h : resp.Plenty) : Responds resp (challenge sums turn attrs c resp) := by
  obtain ⟨data, hdata⟩ := readChallengeV1_total c
  obtain ⟨sessionId, hid⟩ := readSessionId_total 16 turn.unsetByte data.2
  obtain ⟨respType, htype⟩ := readResponseType_total turn.unsetWord sessionId.2
  rw [challenge, hdata, ok_bind]
  split
  · exact responds_code h _
  · rw [hid, ok_bind, htype, ok_bind]
    split
    · exact responds_none
    · split
      · exact responds_none
      · split
        · exact responds_code h _
        · split
          · exact responds_code h _
          · split
            · exact responds_code h _
            · rename_i result _
              have hbyte := grown_addByte h gkdSshResRsaResponse
              refine responds_some (hbyte.trans (grown_append hbyte.plenty _)) ?_
              rw [Vector.length_toList]
              decide

theorem opV1Challenge_responds (sums : Checksums) (turn : Turn) (req : EggBuffer) (h : resp.Plenty) :
    Responds resp (opV1Challenge sums turn req resp) :=
  responds_read (total_readPublicV1 _) (fun _ => responds_none) fun attrs c _ =>
    challenge_responds sums turn attrs c h

theorem removeByPublicKey_ok {pub : ModuleObject} (h : Removable turn excludeV1 pub) :
    removeByPublicKey turn pub excludeV1 = .ok () := by
  rw [removeByPublicKey]
  split
  · rfl
  · rename_i hguard
    simp only [Bool.or_eq_true, Bool.not_eq_true', Bool.and_eq_true, not_or] at hguard
    obtain ⟨⟨⟨hlogin, hget⟩, hv1⟩, hfind⟩ := hguard
    split
    · rename_i hnone
      rw [if_pos]
      rcases h with h | h | h | h | h | ⟨priv, hmem, hfound⟩
      · exact absurd h hlogin
      · exact absurd h hget
      · exact absurd h hfind
      · exact absurd h hv1
      · exact h
      · -- the private key would have been found
        exact absurd hfound (filter_eq_nil_iff.1 hnone priv hmem)
    · rfl

theorem removeEach_ok {keys : List ModuleObject} (h : ∀ pub ∈ keys, Removable turn excludeV1 pub) :
    removeEach turn excludeV1 keys = .ok () := by
  induction keys with
  | nil => rfl
  | cons pub keys ih =>
    rw [removeEach, removeByPublicKey_ok (h pub mem_cons_self), ok_bind]
    exact ih fun pub' hpub' => h pub' (mem_cons_of_mem _ hpub')

theorem removeIdentity_responds {read : Reader GckAttributes} (hread : Total read)
    (h : resp.Plenty) (hsafe : NamedRemovable turn read excludeV1 req) :
    Responds resp (removeIdentity read excludeV1 turn req resp) := by
  refine responds_read hread (fun _ => responds_none) ?_
  intro attrs c hattrs
  dsimp only
  rw [removeEach_ok fun pub hpub => hsafe attrs c hattrs pub (Option.mem_toList.1 hpub), ok_bind]
  exact responds_code h _

theorem removeAllIdentities_responds {search : GckAttributes} (req : EggBuffer) (h : resp.Plenty)
    (hsafe : ∀ pub ∈ mainFindObjects turn search, Removable turn excludeV1 pub) :
    Responds resp (removeAllIdentities search excludeV1 turn req resp) := by
  rw [removeAllIdentities, removeEach_ok hsafe, ok_bind]
  exact responds_code h _

/-- Every operation of the table that is safe answers or returns `FALSE`. -/
theorem operation_responds (sums : Checksums) (h : resp.Plenty) {op : Nat}
    (hop : op < gkdSshOpMax) (hsafe : OperationSafe turn req op) :
    ∃ operation, (gkdSshAgentOperations sums)[op]? = some operation ∧
      Responds resp (operation turn req resp) := by
  refine ⟨_, getElem?_eq_getElem hop, ?_⟩
  interval_cases op
  · exact responds_none
  · exact opV1RequestIdentities_responds req h hsafe
  · exact responds_none
  · exact opV1Challenge_responds sums turn req h
  · exact responds_none
  · exact responds_none
  · exact responds_none
  · exact addIdentity_responds true req h hsafe
  · exact removeIdentity_responds (total_readPublicV1 _) h hsafe
  · exact removeAllIdentities_responds req h hsafe
  · exact responds_none
  · exact opRequestIdentities_responds req h hsafe
  · exact responds_none
  · exact opSignRequest_responds sums h hsafe
  · exact responds_none
  · exact responds_none
  · exact responds_none
  · exact addIdentity_responds false req h hsafe
  · exact removeIdentity_responds total_removeIdentity h hsafe
  · exact removeAllIdentities_responds req h hsafe
  · exact responds_code h _
  · exact responds_code h _
  · exact responds_code h _
  · exact responds_code h _
  · exact addIdentity_responds true req h hsafe
  · exact addIdentity_responds false req h hsafe
  · exact responds_code h _

/-! ## Reading a packet -/

/-- The request buffer: it was never given memory, or it has what it had at the start and more. -/
def RequestBuffer (req : EggBuffer) : Prop :=
  (req.allocatedLen = 0 ∧ req.allocator = none) ∨ 128 ≤ req.allocatedLen

/-- Resizing never takes memory away, and when it succeeds there is enough. -/
theorem eggBufferResize_cases (b : EggBuffer) (n : Nat) (memory : Nat → UInt8) :
    b.allocatedLen ≤ (eggBufferResize b n memory).2.allocatedLen ∧
      ((eggBufferReserve b n).1 = true → n ≤ (eggBufferResize b n memory).2.allocatedLen) := by
  rw [eggBufferResize]
  rcases eggBufferReserve_cases b n with ⟨b', hb', -, -, hn, hle⟩ | ⟨b', hb', -, -, heq⟩
  · rw [hb']
    exact ⟨hle, fun _ => hn⟩
  · rw [hb']
    exact ⟨heq.ge, fun h => by cases h⟩

/-- Whether memory is given does not depend on the bytes in use. -/
theorem eggBufferReserve_reset (req : EggBuffer) (buf : Bytes) (n : Nat) :
    (eggBufferReserve { eggBufferReset req with buf := buf } n).1 = (eggBufferReserve req n).1 := by
  obtain ⟨_, size, _, allocator, attempts⟩ := req
  by_cases hlt : n < size
  · simp [eggBufferReserve, eggBufferReset, hlt]
  · cases allocator with
    | none => simp [eggBufferReserve, eggBufferReset, hlt]
    | some alloc =>
      by_cases hgrant : alloc attempts (newlen size n) = true
      · simp [eggBufferReserve, eggBufferReset, hlt, hgrant]
      · simp [eggBufferReserve, eggBufferReset, hlt, hgrant]

theorem store_ok {offset : Nat} {data : Bytes} (h : offset + data.length ≤ b.allocatedLen) :
    ∃ buf, store b offset data = .ok { b with buf := buf } :=
  ⟨_, if_pos h⟩

/-- The header of a packet always fits. -/
theorem readAll_header (h : 128 ≤ req.allocatedLen) (memory : Nat → UInt8) (input : Bytes) :
    ∃ buf, readAll (eggBufferResize (eggBufferReset req) 4 memory).2 0 4 input =
        .ok (decide (4 ≤ input.length), { eggBufferReset req with buf := buf }, input.drop 4) ∧
      (4 ≤ input.length → buf = input.take 4) := by
  have hresize : (eggBufferResize (eggBufferReset req) 4 memory).2 =
      { eggBufferReset req with buf := (List.range' 0 4).map memory } := by
    have hlt : 4 < (eggBufferReset req).allocatedLen := by
      simp only [eggBufferReset]
      omega
    rw [eggBufferResize, eggBufferReserve, if_pos hlt]
    rfl
  have hint : intLength 4 = 4 := rfl
  have hzero : (eggBufferReset req).allocatedLen ≠ 0 := by
    simp only [eggBufferReset]
    omega
  have hroom : 0 + (input.take 4).length ≤ (eggBufferReset req).allocatedLen := by
    simp only [eggBufferReset, length_take]
    omega
  rw [hresize, readAll, hint, if_neg (by decide), if_neg hzero, store, if_pos hroom, ok_bind]
  refine ⟨_, rfl, ?_⟩
  intro hlen
  have htake : (input.take 4).length = 4 := by
    rw [length_take]
    omega
  simp only [EggBuffer.len, length_map, length_range', take_zero, nil_append]
  rw [take_append_of_le_length (by omega), take_of_length_le (by omega)]

/-- The body of a packet that fits is read without leaving the buffer. -/
theorem readAll_body (hlen : 4 ≤ input.length) (hfits : PacketFits req input) (memory : Nat → UInt8)
    (buf : Bytes) :
    ∃ ok b rest, readAll (eggBufferResize { eggBufferReset req with buf := buf }
        ((decode (input.take 4) + 4) % 2 ^ 32) memory).2 4 (decode (input.take 4))
        (input.drop 4) = .ok (ok, b, rest) ∧ req.allocatedLen ≤ b.allocatedLen := by
  have hbound := decode_lt (input.take 4)
  have htake : (input.take 4).length = 4 := by
    rw [length_take]
    omega
  rw [htake] at hbound
  rw [PacketFits] at hfits
  generalize decode (input.take 4) = size at hbound hfits ⊢
  obtain ⟨hmono, hgranted⟩ := eggBufferResize_cases { eggBufferReset req with buf := buf }
    ((size + 4) % 2 ^ 32) memory
  rw [eggBufferReserve_reset] at hgranted
  generalize (eggBufferResize { eggBufferReset req with buf := buf } ((size + 4) % 2 ^ 32) memory).2 = b
    at hmono hgranted ⊢
  have hmono : req.allocatedLen ≤ b.allocatedLen := hmono
  rw [readAll]
  split
  · exact ⟨_, _, _, rfl, hmono⟩
  · rename_i hint
    split
    · exact ⟨_, _, _, rfl, hmono⟩
    · -- the size is below two gigabytes, so that it is the number of bytes that are read
      have hsize : size < 2 ^ 31 := by
        by_contra hge
        apply hint
        rw [intLength, if_neg (by omega)]
      have heq : intLength size = size := by
        rw [intLength, if_pos (by omega)]
        omega
      have hword : (size + 4) % 2 ^ 32 = size + 4 := by omega
      rw [hword] at hgranted
      have hroom : 4 + ((input.drop 4).take size).length ≤ b.allocatedLen := by
        rw [length_take, length_drop]
        rcases hfits hsize with hfit | hgrant
        · exact hfit.trans hmono
        · have := hgranted hgrant
          omega
      obtain ⟨buf', hstore⟩ := store_ok hroom
      rw [heq, hstore, ok_bind]
      exact ⟨_, _, _, rfl, hmono⟩

theorem readPacketWithSize_safe (hreq : RequestBuffer req) (hfits : PacketFits req input) (turn : Turn) :
    ∃ x, readPacketWithSize turn (eggBufferReset req) input = .ok x ∧
      ∀ p ∈ x, RequestBuffer p.1 := by
  have hnone : ∀ p ∈ (none : Option (EggBuffer × Bytes)), RequestBuffer p.1 := by
    intro p hp
    cases hp
  rw [readPacketWithSize]
  rcases hreq with ⟨hzero, hallocator⟩ | h128
  · -- without memory the header is not read
    have hresize : (eggBufferResize (eggBufferReset req) 4 turn.memory).2 = (eggBufferReset req).fail := by
      simp [eggBufferResize, eggBufferReserve, eggBufferReset, andThen, hzero, hallocator, EggBuffer.fail]
    have hread : readAll (eggBufferReset req).fail 0 4 input = .ok (false, (eggBufferReset req).fail, input) := by
      rw [readAll, if_neg (by decide), if_pos (by simp [EggBuffer.fail, eggBufferReset, hzero])]
    rw [hresize, hread, ok_bind]
    exact ⟨_, rfl, hnone⟩
  · obtain ⟨buf, hheader, hbuf⟩ := readAll_header h128 turn.memory input
    rw [hheader, ok_bind]
    by_cases hlen : 4 ≤ input.length
    · have hword : uint32At (input.take 4) 0 = some (decode (input.take 4), 4) := by
        have htake : (input.take 4).length = 4 := by
          rw [length_take]
          omega
        simp [uint32At, readAt, sliceAt, hlen, take_take]
      rw [hbuf hlen]
      simp only [hlen, decide_true, if_true, eggBufferGetUint32_eq, hword, readResult_some, ok_bind]
      split
      · exact ⟨_, rfl, hnone⟩
      · obtain ⟨ok, b, rest, hbody, hle⟩ := readAll_body hlen hfits turn.memory (input.take 4)
        rw [hbody, ok_bind]
        cases ok with
        | false => exact ⟨_, rfl, hnone⟩
        | true =>
          refine ⟨_, rfl, ?_⟩
          rintro p ⟨⟩
          exact .inr (h128.trans hle)
    · simp only [hlen, decide_false, Bool.false_eq_true, if_false]
      exact ⟨_, rfl, hnone⟩

/-! ## A round -/

/-- A response as it should be: it starts with the number of the bytes that follow, and the client got all
of it unless it is gone. -/
def Reply.WellFormed (r : Reply) : Prop :=
  (∃ body : Bytes, r.response = encode 4 body.length ++ body ∧ body.length < 2 ^ 32) ∧
    (r.written = .gone ∨ r.sent = r.response)

/-- The request at the head of the loop is accepted: its operation returns `TRUE`. -/
def Accepted (sums : Checksums) (t : Thread) : Prop :=
  ∃ turn turns req input resp, t.turns = turn :: turns ∧
    readPacketWithSize turn (eggBufferReset t.req) t.input = .ok (some (req, input)) ∧
    execute sums turn req t.resp = .ok (some resp)

/-- The round does not fault, and for a request that is accepted there is one response. -/
def RoundSound (sums : Checksums) (t : Thread) : Prop :=
  ∃ next, clientRound sums t = .ok next ∧
    (Accepted sums t → ∃ t' reply, next = some t' ∧ t'.replies = t.replies ++ [reply] ∧ reply.WellFormed)

/-- What holds at the head of the loop. -/
structure Thread.Inv (t : Thread) : Prop where
  req : RequestBuffer t.req
  resp : t.resp.Plenty
  replies : ∀ r ∈ t.replies, r.WellFormed

/-- Writes that are not interrupted write everything, or the client is gone. -/
theorem writeAll_whole {writes : List Write} (h : Write.interrupted ∉ writes) (buf : Bytes) :
    (writeAll writes buf).1 = .gone ∨ (writeAll writes buf).2 = buf := by
  induction writes generalizing buf with
  | nil => cases buf <;> exact .inr rfl
  | cons w writes ih =>
    have hrest : Write.interrupted ∉ writes := fun hw => h (mem_cons_of_mem _ hw)
    cases buf with
    | nil => exact .inr (by rw [writeAll])
    | cons b buf =>
      cases w with
      | wrote n =>
        rw [writeAll]
        · split
          · exact .inl rfl
          · rcases ih hrest ((b :: buf).drop n) with hgone | hall
            · exact .inl hgone
            · exact .inr (by dsimp only; rw [hall, take_append_drop])
        · intro hc
          cases hc
      | interrupted => exact absurd mem_cons_self h
      | gone => exact .inl (by rw [writeAll]; intro hc; cases hc)

/-- A response of less than two gigabytes gets its length and is written. -/
theorem reply_wellFormed (hwrites : Write.interrupted ∉ turn.writes) (resp : EggBuffer)
    (hleast : 4 ≤ resp.len) (hmost : resp.len < 2 ^ 31) :
    (eggBufferSetUint32 resp 0 (resp.len - 4)).1 = true ∧
      (reply turn (eggBufferSetUint32 resp 0 (resp.len - 4)).2).WellFormed := by
  have hset : eggBufferSetUint32 resp 0 (resp.len - 4) =
      (true, { resp with buf := encode 4 (resp.len - 4) ++ resp.buf.drop 4 }) := by
    rw [eggBufferSetUint32, if_neg (by omega), eggBufferEncodeUint32_eq]
    rfl
  have hlen := eggBufferSetUint32_len resp 0 (resp.len - 4)
  rw [hset] at hlen ⊢
  have hbody : (resp.buf.drop 4).length = resp.len - 4 := by
    rw [length_drop]
    rfl
  refine ⟨rfl, ⟨resp.buf.drop 4, by rw [hbody]; rfl, by omega⟩, ?_⟩
  have hint : intLength resp.len = resp.len := by
    rw [intLength, if_pos (by omega)]
    omega
  rw [reply, hlen, hint]
  have htake : (encode 4 (resp.len - 4) ++ resp.buf.drop 4).take resp.len =
      encode 4 (resp.len - 4) ++ resp.buf.drop 4 := by
    apply take_of_length_le
    rw [length_append, length_encode, hbody]
    omega
  dsimp only
  rw [htake]
  exact writeAll_whole hwrites _

theorem execute_responds (sums : Checksums) (h : resp.Plenty)
    (hsafe : OperationSafe turn req (req.buf.getD 4 0).toNat) :
    Responds (eggBufferAddUint32 (eggBufferReset resp) 0).2 (execute sums turn req resp) := by
  have hplenty : (eggBufferAddUint32 (eggBufferReset resp) 0).2.Plenty :=
    (grown_addUint32 (b := eggBufferReset resp) h 0).plenty
  rw [execute, eggBufferGetByte_eq, ok_bind]
  cases hbyte : byteAt req.buf 4 with
  | none => exact responds_none
  | some p =>
    have hop : p.1 = req.buf.getD 4 0 := by
      rw [byteAt] at hbyte
      rw [getD_eq_getElem?_getD]
      cases hget : req.buf[4]? with
      | none => simp [hget] at hbyte
      | some v => simp [hget] at hbyte; simp [← hbyte]
    obtain ⟨op, off⟩ := p
    dsimp only at hop
    subst hop
    rw [readResult_some]
    dsimp only
    split
    · exact responds_none
    · rename_i hlt
      obtain ⟨operation, htable, hresponds⟩ := operation_responds sums hplenty (Nat.lt_of_not_le hlt) hsafe
      rw [htable]
      exact hresponds

/-- What one round does: it leaves the loop, or it comes back with one more reply. -/
theorem clientRound_eq (sums : Checksums) {turns : List Turn} (hturns : t.turns = turn :: turns)
    (hread : readPacketWithSize turn (eggBufferReset t.req) t.input = .ok (some (req, input)))
    (hexec : execute sums turn req t.resp = .ok (some resp))
    (hset : (eggBufferSetUint32 resp 0 (resp.len - 4)).1 = true) :
    ∃ turns', clientRound sums t = .ok (some ⟨req, (eggBufferSetUint32 resp 0 (resp.len - 4)).2, input,
      t.replies ++ [reply turn (eggBufferSetUint32 resp 0 (resp.len - 4)).2], turns'⟩) := by
  rw [clientRound, hturns]
  dsimp only
  rw [hread, ok_bind]
  dsimp only
  rw [hexec, ok_bind]
  dsimp only
  rw [if_pos hset]
  exact ⟨_, rfl⟩

/-- A round that leaves the loop without an answer. -/
theorem roundSound_of_none {sums : Checksums} (hround : clientRound sums t = .ok none)
    (hrefused : ¬ Accepted sums t) :
    RoundSound sums t ∧ ∀ t', clientRound sums t = .ok (some t') → t'.Inv := by
  refine ⟨⟨none, hround, fun h => absurd h hrefused⟩, ?_⟩
  intro t' ht'
  rw [hround] at ht'
  cases ht'

/-- A round from a state that is safe is sound, and keeps the invariant. -/
theorem clientRound_safe (sums : Checksums) (hinv : t.Inv) (hsafe : Safe t) :
    RoundSound sums t ∧ ∀ t', clientRound sums t = .ok (some t') → t'.Inv := by
  cases hturns : t.turns with
  | nil =>
    apply roundSound_of_none
    · rw [clientRound, hturns]
    · rintro ⟨turn, turns, req, input, resp, hturn, -⟩
      rw [hturns] at hturn
      cases hturn
  | cons turn turns =>
    have hturn := hsafe turn turns hturns
    obtain ⟨x, hx, hbuffer⟩ := readPacketWithSize_safe hinv.req hturn.packet turn
    cases x with
    | none =>
      apply roundSound_of_none
      · rw [clientRound, hturns]
        dsimp only
        rw [hx]
        rfl
      · rintro ⟨turn', turns', req, input, resp, hturn', hread, -⟩
        rw [hturns] at hturn'
        cases hturn'
        rw [hx] at hread
        cases hread
    | some p =>
      obtain ⟨req, input⟩ := p
      obtain ⟨y, hy, hgrown⟩ := execute_responds sums hinv.resp (hturn.operation req input hx)
      cases y with
      | none =>
        apply roundSound_of_none
        · rw [clientRound, hturns]
          dsimp only
          rw [hx, ok_bind]
          dsimp only
          rw [hy]
          rfl
        · rintro ⟨turn', turns', req', input', resp, hturn', hread, hexec⟩
          rw [hturns] at hturn'
          cases hturn'
          rw [hx] at hread
          cases hread
          rw [hy] at hexec
          cases hexec
      | some resp =>
        have hresp := hgrown resp rfl
        have hfour : (eggBufferAddUint32 (eggBufferReset t.resp) 0).2.len = 4 := by
          have := (appended_addUint32 (b := eggBufferReset t.resp) hinv.resp 0).buf_eq
          rw [EggBuffer.len, this]
          rfl
        have hleast := hresp.least
        have hmost := hresp.most
        obtain ⟨hset, hreply⟩ := reply_wellFormed hturn.writes resp (by omega) (by omega)
        obtain ⟨turns', hround⟩ := clientRound_eq sums hturns hx hy hset
        refine ⟨⟨_, hround, fun _ => ⟨_, _, rfl, rfl, hreply⟩⟩, ?_⟩
        intro t' ht'
        rw [hround] at ht'
        cases ht'
        refine ⟨hbuffer _ rfl, eggBufferSetUint32_plenty hresp.plenty _ _, ?_⟩
        intro r hr
        rcases mem_append.1 hr with hr | hr
        · exact hinv.replies r hr
        · rw [mem_singleton.1 hr]
          exact hreply

/-! ## Runs -/

theorem runClientThread_inv (allocator : EggBufferAllocator) (input : Bytes) (turns : List Turn) :
    (runClientThread allocator input turns).Inv where
  req := by
    rw [runClientThread]
    dsimp only
    split
    · exact .inr (Nat.le_refl 128)
    · exact .inl ⟨rfl, rfl⟩
  resp := ⟨_, rfl, fun _ _ => rfl⟩
  replies r hr := by cases hr

/-- In a run of the client thread whose rounds are all made from states that are `Safe`, no round stores
bytes outside the request buffer, follows a null pointer or evaluates a false assertion; each request that
is accepted gets one response, and every response starts with the number of the bytes that follow. -/
theorem client_thread_robust (sums : Checksums) (allocator : EggBufferAllocator) (input : Bytes)
    (turns : List Turn) (t : Thread)
    (h : Reaches (clientRound sums) Safe (runClientThread allocator input turns) t) :
    (∀ r ∈ t.replies, r.WellFormed) ∧ (Safe t → RoundSound sums t) := by
  have hinv : t.Inv := by
    refine reaches_invariant ?_ (runClientThread_inv allocator input turns) h
    intro s s' hs hsafe hround
    exact (clientRound_safe sums hs hsafe).2 s' hround
  exact ⟨hinv.replies, fun hsafe => (clientRound_safe sums hinv hsafe).1⟩

/-! ## One run that is safe and three that are not -/

/-- Digests of the right length. -/
def zeroSums : Checksums := ⟨fun _ => Vector.replicate 16 0, fun _ => Vector.replicate 20 0⟩

/-- An object with these attributes. -/
def objectOf (handle : Nat) (attrs : GckAttributes) : ModuleObject :=
  ⟨handle, fun type => ((gckAttributesFind attrs type).map GckAttribute.value).getD .invalid⟩

/-- A public RSA key in the session. -/
def samplePublic : ModuleObject :=
  objectOf 1 [⟨ckaClass, .data (ulongBytes ckoPublicKey)⟩, ⟨ckaToken, .data [0]⟩, ⟨ckaId, .data [7]⟩,
    ⟨ckaLabel, .data (ascii "key")⟩, ⟨ckaKeyType, .data (ulongBytes ckkRsa)⟩,
    ⟨ckaModulus, .data [0x80, 0x01]⟩, ⟨ckaPublicExponent, .data [0x03]⟩]

/-- Its private key. -/
def samplePrivate : ModuleObject :=
  objectOf 2 [⟨ckaClass, .data (ulongBytes ckoPrivateKey)⟩, ⟨ckaToken, .data [0]⟩, ⟨ckaId, .data [7]⟩,
    ⟨ckaLabel, .data (ascii "key")⟩]

/-- A turn in which all calls succeed, and a search in the session of a public key finds `found`. -/
def sampleTurn (found : List ModuleObject) : Turn where
  memory _ := 0
  attributeMemory := true
  modules := [samplePublic]
  breaks := none
  main := [samplePublic]
  mainFind := true
  visit _ := ⟨true, true, true, found⟩
  session := ⟨[], 1, by simp⟩
  outcome := ⟨true, true, true⟩
  sign _ := .error
  decrypt _ := none
  unsetByte := 0
  unsetWord := 0
  writes := [.wrote 3]

/-- A packet. -/
def packetBytes (body : Bytes) : Bytes := encode 4 body.length ++ body

/-- The request for the identities. -/
def identitiesThread : Thread :=
  runClientThread (fun _ _ => true) (packetBytes [11]) [sampleTurn [samplePrivate]]

theorem identitiesThread_safe : Safe identitiesThread := by
  intro turn turns hturns
  obtain ⟨rfl, rfl⟩ := List.cons.inj hturns
  refine ⟨fun _ => .inl (by decide), ?_, by decide⟩
  intro req input hread
  have hop : (resultOf (readPacketWithSize (sampleTurn [samplePrivate]) (eggBufferReset identitiesThread.req)
      identitiesThread.input)).map (Option.map fun p => (p.1.buf.getD 4 0).toNat) = some (some 11) := by
    decide +kernel
  rw [hread] at hop
  have hop : (req.buf.getD 4 0).toNat = 11 := Option.some.inj (Option.some.inj hop)
  rw [hop]
  have hkeys : identitiesV2 (sampleTurn [samplePrivate])
      (gckModulesEnumerateObjects (sampleTurn [samplePrivate]) publicSearch).1 = [samplePublic] := rfl
  intro _
  rw [hkeys]
  refine ⟨?_, by rw [HaveRoom]; decide⟩
  intro o ho
  rw [mem_singleton.1 ho]
  intro algo halgo
  have hrsa : gckAttributesFindUlong (gckObjectGet samplePublic identityV2Types) ckaKeyType =
    some ckkRsa := by decide
  rw [hrsa] at halgo
  cases halgo
  exact ⟨.inl rfl, by decide⟩

theorem client_thread_robust_sample : RoundSound zeroSums identitiesThread :=
  (client_thread_robust zeroSums (fun _ _ => true) (packetBytes [11]) [sampleTurn [samplePrivate]]
    identitiesThread Relation.ReflTransGen.refl).2 identitiesThread_safe

/-- A request to sign a null byte array with the sample key. -/
def nullSignRequest : Bytes :=
  packetBytes ([13, 0, 0, 0, 0, 0, 0, 0, 7] ++ ascii "ssh-rsa" ++ [0, 0, 0, 1, 3, 0, 0, 0, 3, 0, 0x80, 1,
    0xff, 0xff, 0xff, 0xff, 0, 0, 0, 0])

/-- When the request buffer cannot grow, a packet of 200 bytes is stored past its end. A request to sign a
null byte array fails an assertion, and a request to remove all keys follows a null pointer where a public
key of the session has no private key. -/
theorem client_thread_not_robust :
    clientRound zeroSums (runClientThread (fun n _ => n == 0) (packetBytes (replicate 200 0))
      [sampleTurn []]) = .error .outOfBounds ∧
    clientRound zeroSums (runClientThread (fun _ _ => true) nullSignRequest
      [sampleTurn [samplePrivate]]) = .error .assertion ∧
    clientRound zeroSums (runClientThread (fun _ _ => true) (packetBytes [19]) [sampleTurn []]) =
      .error .nullPointer := by
  refine ⟨eq_error_of_faultOf ?_, eq_error_of_faultOf ?_, eq_error_of_faultOf ?_⟩
  · decide +kernel
  · decide +kernel
  · decide +kernel

end MateKeyring.Ssh.Agent
