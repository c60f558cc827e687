import MateKeyring.Lib.CText
import MateKeyring.Lib.Prog
import MateKeyring.Egg.Reader
import MateKeyring.Ssh.Attributes

/-!
# Keys in the packets of the SSH agent protocol

`gkd-ssh-agent-proto.c`. A big number travels as a signed byte array (`gkdSshAgentProtoReadMpi`) or,
in version 1 of the protocol, behind a 16-bit count of its bits (`gkdSshAgentProtoReadMpiV1`). The
descriptions of the writers (`mpiBytes`, `mpiV1Bytes`) are what the readers find, so the round trips
of the two public key encodings are assembled number by number.
-/

set_option autoImplicit false

namespace MateKeyring.Ssh

open Lib Egg BigEndian List

variable {attrs : GckAttributes} {value : Bytes} {resp : EggBuffer} {algo : Nat}

/-! ## Big numbers -/

/-- Whether the first byte has its high bit set. -/
def highBit (value : Bytes) : Bool := value.headD 0 &&& 0x80 != 0

/-- The conversion of `gkd_ssh_agent_proto_read_mpi` to the unsigned format. -/
def toUnsigned : Bytes → Bytes
  | first :: second :: rest =>
    if first = 0 ∧ highBit (second :: rest) then second :: rest else first :: second :: rest
  | value => value

/-- `gkd_ssh_agent_proto_read_mpi`. -/
def gkdSshAgentProtoReadMpi (attrs : GckAttributes) (type : Nat) : Reader GckAttributes := do
  let data ← get eggBufferGetByteArray
  pure (gckAttributesAddData attrs type (data.map toUnsigned))

/-- The bytes at the offset, `req->buf + *offset`; nothing is read past the end. -/
def pull (bytes : Nat) : Reader Bytes := fun c =>
  if c.req.len < c.offset + bytes then .ok (.error (), c)
  else do
    let data ← c.req.peek c.offset bytes
    pure (.ok data, { c with offset := c.offset + bytes })

/-- The bytes behind a 16-bit count of bits. -/
def readBits : Reader Bytes := do
  let bits ← get eggBufferGetUint16
  if (bits + 7) / 8 > 8 * 1024 then Prog.stop () else pull ((bits + 7) / 8)

/-- `gkd_ssh_agent_proto_read_mpi_v1`. -/
def gkdSshAgentProtoReadMpiV1 (attrs : GckAttributes) (type : Nat) : Reader GckAttributes := do
  let data ← readBits
  pure (gckAttributesAddData attrs type (some data))

/-- The conversion of `gkd_ssh_agent_proto_write_mpi` from the unsigned format. -/
def fromUnsigned (value : Bytes) : Bytes :=
  if highBit value then 0 :: value else value

/-- `gkd_ssh_agent_proto_write_mpi`. The length of an invalid attribute is not zero, so that its
null value is looked at. -/
def gkdSshAgentProtoWriteMpi (resp : EggBuffer) (attr : GckAttribute) :
    Checked (Bool × EggBuffer) :=
  match attr.value with
  | .invalid => .error .nullPointer
  | .null => .ok (eggBufferAddByteArrayEmpty resp [])
  | .data value => .ok (eggBufferAddByteArrayEmpty resp (fromUnsigned value))

/-- `gkd_ssh_agent_proto_write_mpi_v1`. -/
def gkdSshAgentProtoWriteMpiV1 (resp : EggBuffer) (attr : GckAttribute) :
    Checked (Bool × EggBuffer) :=
  match attr.value with
  -- eight times the length of an invalid attribute is not below `G_MAXUSHORT`
  | .invalid => .ok (false, resp)
  | .null => .ok (eggBufferAddUint16 resp 0)
  | .data value =>
    if value.length * 8 < 0xffff then
      .ok (andThen (eggBufferAddUint16 resp (value.length * 8)) fun resp =>
        eggBufferAddEmpty resp value)
    else .ok (false, resp)

/-! ## Key types -/

/-- `gkd_ssh_agent_proto_keytype_to_algo`; a null name is refused by the check at the start. -/
def gkdSshAgentProtoKeytypeToAlgo (salgo : Option Bytes) : Option Nat :=
  if salgo = some (ascii "ssh-rsa") then some ckkRsa
  else if salgo = some (ascii "ssh-dss") then some ckkDsa
  else none

/-- `gkd_ssh_agent_proto_algo_to_keytype`. -/
def gkdSshAgentProtoAlgoToKeytype (algo : Nat) : Option Bytes :=
  if algo = ckkRsa then some (ascii "ssh-rsa")
  else if algo = ckkDsa then some (ascii "ssh-dss")
  else none

/-! ## Public keys -/

/-- The attributes every public key gets. -/
def addRequired (attrs : GckAttributes) (klass algo : Nat) : GckAttributes :=
  gckAttributesAddUlong (gckAttributesAddUlong attrs ckaClass klass) ckaKeyType algo

/-- Read the numbers of a key, in the order of `types`. -/
def readNumbers (read : GckAttributes → Nat → Reader GckAttributes) :
    List Nat → GckAttributes → Reader GckAttributes
  | [], attrs => pure attrs
  | type :: types, attrs => do
      let attrs ← read attrs type
      readNumbers read types attrs

/-- `gkd_ssh_agent_proto_read_public_rsa`. -/
def gkdSshAgentProtoReadPublicRsa (attrs : GckAttributes) : Reader GckAttributes := do
  let attrs ← readNumbers gkdSshAgentProtoReadMpi [ckaPublicExponent, ckaModulus] attrs
  pure (addRequired attrs ckoPublicKey ckkRsa)

/-- `gkd_ssh_agent_proto_read_public_dsa`. -/
def gkdSshAgentProtoReadPublicDsa (attrs : GckAttributes) : Reader GckAttributes := do
  let attrs ← readNumbers gkdSshAgentProtoReadMpi [ckaPrime, ckaSubprime, ckaBase, ckaValue] attrs
  pure (addRequired attrs ckoPublicKey ckkDsa)

/-- `gkd_ssh_agent_proto_read_public_v1`. -/
def gkdSshAgentProtoReadPublicV1 (attrs : GckAttributes) : Reader GckAttributes := do
  let _ ← get eggBufferGetUint32
  let attrs ← readNumbers gkdSshAgentProtoReadMpiV1 [ckaPublicExponent, ckaModulus] attrs
  pure (addRequired attrs ckoPublicKey ckkRsa)

/-- `gkd_ssh_agent_proto_read_public`: the attributes and the algorithm. -/
def gkdSshAgentProtoReadPublic (attrs : GckAttributes) : Reader (GckAttributes × Nat) := do
  let stype ← get eggBufferGetString
  match gkdSshAgentProtoKeytypeToAlgo stype with
  | none => Prog.stop ()
  | some algo =>
    let attrs ← if algo = ckkRsa then gkdSshAgentProtoReadPublicRsa attrs
      else gkdSshAgentProtoReadPublicDsa attrs
    pure (attrs, algo)

/-- Write the numbers of a key, in the order of `types`. -/
def writeNumbers (write : EggBuffer → GckAttribute → Checked (Bool × EggBuffer))
    (attrs : GckAttributes) : List Nat → EggBuffer → Checked (Bool × EggBuffer)
  | [], resp => .ok (true, resp)
  | type :: types, resp =>
    match gckAttributesFind attrs type with
    | none => .ok (false, resp)
    | some attr => do
        let r ← write resp attr
        if r.1 then writeNumbers write attrs types r.2 else pure (false, r.2)

/-- `gkd_ssh_agent_proto_write_public_rsa`. -/
def gkdSshAgentProtoWritePublicRsa (resp : EggBuffer) (attrs : GckAttributes) :
    Checked (Bool × EggBuffer) :=
  writeNumbers gkdSshAgentProtoWriteMpi attrs [ckaPublicExponent, ckaModulus] resp

/-- `gkd_ssh_agent_proto_write_public_dsa`. -/
def gkdSshAgentProtoWritePublicDsa (resp : EggBuffer) (attrs : GckAttributes) :
    Checked (Bool × EggBuffer) :=
  writeNumbers gkdSshAgentProtoWriteMpi attrs [ckaPrime, ckaSubprime, ckaBase, ckaValue] resp

/-- `gkd_ssh_agent_proto_write_public`. -/
def gkdSshAgentProtoWritePublic (resp : EggBuffer) (attrs : GckAttributes) :
    Checked (Bool × EggBuffer) :=
  match gckAttributesFindUlong attrs ckaKeyType with
  | none => .ok (false, resp)
  | some algo =>
    match gkdSshAgentProtoAlgoToKeytype algo with
    | none => .error .assertion
    | some salgo =>
      -- whether the name could be written is not looked at
      let resp := (eggBufferAddString resp (some salgo)).2
      if algo = ckkRsa then gkdSshAgentProtoWritePublicRsa resp attrs
      else gkdSshAgentProtoWritePublicDsa resp attrs

/-- `gkd_ssh_agent_proto_write_public_v1`. -/
def gkdSshAgentProtoWritePublicV1 (resp : EggBuffer) (attrs : GckAttributes) :
    Checked (Bool × EggBuffer) :=
  match gckAttributesFindUlong attrs ckaModulusBits with
  | none => .ok (false, resp)
  | some bits =>
    writeNumbers gkdSshAgentProtoWriteMpiV1 attrs [ckaPublicExponent, ckaModulus]
      (eggBufferAddUint32 resp bits).2

/-! ## What the writers write -/

theorem reads_pull (data : Bytes) : Reads (pull data.length) data data := by
  intro req off hat
  have hs := hat.sliceAt
  have hle := (sliceAt_eq_some_iff.1 hs).1
  have hlen : ¬ req.len < off + data.length := by
    simp only [EggBuffer.len]
    omega
  simp [pull, hlen, EggBuffer.peek_eq hs]

/-- The wire form of a big number. -/
def mpiBytes (value : Bytes) : Bytes := byteArrayBytes (some (fromUnsigned value))

/-- The wire form of a big number in version 1 of the protocol. -/
def mpiV1Bytes (value : Bytes) : Bytes :=
  encode 2 (value.length * 8) ++ value

/-- A number without leading zero comes back from the signed format. -/
theorem toUnsigned_fromUnsigned (h : value.head? ≠ some 0) :
    toUnsigned (fromUnsigned value) = value := by
  cases value with
  | nil => rfl
  | cons first rest =>
    have hfirst : first ≠ 0 := by simpa using h
    by_cases hb : highBit (first :: rest) = true
    · simp [fromUnsigned, toUnsigned, hb]
    · rw [fromUnsigned, if_neg hb]
      cases rest with
      | nil => rfl
      | cons second rest => simp [toUnsigned, hfirst]

theorem reads_mpi (attrs : GckAttributes) (type : Nat) (hzero : value.head? ≠ some 0)
    (hlen : (fromUnsigned value).length < 0x7fffffff) :
    Reads (gkdSshAgentProtoReadMpi attrs type) (attrs ++ [⟨type, .data value⟩])
      (mpiBytes value) := by
  have h := (reads_byteArray hlen).map fun data =>
    gckAttributesAddData attrs type (data.map toUnsigned)
  rwa [Option.map_some, toUnsigned_fromUnsigned hzero] at h

theorem reads_mpiV1 (attrs : GckAttributes) (type : Nat) (hlen : value.length < 8192) :
    Reads (gkdSshAgentProtoReadMpiV1 attrs type) (attrs ++ [⟨type, .data value⟩])
      (mpiV1Bytes value) := by
  have hbits : Reads readBits value (mpiV1Bytes value) := by
    apply (reads_uint16 (by omega)).bind
    have hbytes : (value.length * 8 + 7) / 8 = value.length := by omega
    rw [hbytes, if_neg (by omega)]
    exact reads_pull value
  exact hbits.map fun data => gckAttributesAddData attrs type (some data)

/-- The write succeeds and appends `out`. -/
def Puts (resp : EggBuffer) (r : Checked (Bool × EggBuffer)) (out : Bytes) : Prop :=
  ∃ resp', r = .ok (true, resp') ∧ Appended resp resp' out

theorem puts_mpi (h : resp.Plenty) (type : Nat) (hlen : (fromUnsigned value).length < 0x7fffffff) :
    Puts resp (gkdSshAgentProtoWriteMpi resp ⟨type, .data value⟩) (mpiBytes value) := by
  have hlen' : ∀ d, some (fromUnsigned value) = some d → d.length < 0x7fffffff := by
    intro d hd
    cases hd
    exact hlen
  have hg := eggBufferAddByteArray_granted h hlen'
  refine ⟨_, ?_, appended_addByteArray h hlen'⟩
  rw [gkdSshAgentProtoWriteMpi, eggBufferAddByteArrayEmpty]
  exact congrArg Except.ok (Prod.ext hg.1 rfl)

theorem puts_mpiV1 (h : resp.Plenty) (type : Nat) (hlen : value.length < 8192) :
    Puts resp (gkdSshAgentProtoWriteMpiV1 resp ⟨type, .data value⟩) (mpiV1Bytes value) := by
  have hg : Granted (andThen (eggBufferAddUint16 resp (value.length * 8)) fun resp =>
      eggBufferAddEmpty resp value) :=
    (eggBufferAddUint16_granted h _).andThen fun _ hb => eggBufferAppend_granted hb _
  refine ⟨_, ?_, hg.appended ?_⟩
  · have hbits : value.length * 8 < 0xffff := by omega
    rw [gkdSshAgentProtoWriteMpiV1]
    dsimp only
    rw [if_pos hbits]
    exact congrArg Except.ok (Prod.ext hg.1 rfl)
  · exact (eggBufferAddUint16_writes resp _).andThen _ fun b' => eggBufferAppend_writes b' _

/-- The numbers of a key are written one after the other. -/
theorem puts_numbers {write : EggBuffer → GckAttribute → Checked (Bool × EggBuffer)}
    {value : Nat → Bytes} (enc : Bytes → Bytes) (types : List Nat)
    (hfind : ∀ type ∈ types, gckAttributesFind attrs type = some ⟨type, .data (value type)⟩)
    (hwrite : ∀ type ∈ types, ∀ resp : EggBuffer, resp.Plenty →
      Puts resp (write resp ⟨type, .data (value type)⟩) (enc (value type))) (resp : EggBuffer)
    (h : resp.Plenty) :
    Puts resp (writeNumbers write attrs types resp)
      (types.flatMap fun type => enc (value type)) := by
  induction types generalizing resp with
  | nil => exact ⟨resp, rfl, h, by simp, rfl⟩
  | cons type types ih =>
    obtain ⟨resp', hw, happ⟩ := hwrite type (by simp) resp h
    obtain ⟨resp'', hw', happ'⟩ := ih (fun t ht => hfind t (by simp [ht]))
      (fun t ht => hwrite t (by simp [ht])) resp' happ.plenty
    refine ⟨resp'', ?_, happ.trans happ'⟩
    simp [writeNumbers, hfind type (by simp), hw, hw']

/-- The numbers of a key are read one after the other. -/
theorem reads_numbers {read : GckAttributes → Nat → Reader GckAttributes}
    {value : Nat → Bytes} {enc : Bytes → Bytes} (types : List Nat)
    (hread : ∀ type ∈ types, ∀ attrs, Reads (read attrs type)
      (attrs ++ [⟨type, .data (value type)⟩]) (enc (value type)))
    (attrs : GckAttributes) :
    Reads (readNumbers read types attrs) (attrs ++ types.map fun type => ⟨type, .data (value type)⟩)
      (types.flatMap fun type => enc (value type)) := by
  induction types generalizing attrs with
  | nil =>
    intro req off hat
    simp [readNumbers]
  | cons type types ih =>
    have hrest := ih (fun t ht => hread t (by simp [ht])) (attrs ++ [⟨type, .data (value type)⟩])
    rw [append_assoc] at hrest
    exact (hread type (by simp) attrs).bind hrest

/-! ## Public keys come back -/

/-- The numbers of a public key, in the order of the protocol. -/
def publicNumbers (algo : Nat) : List Nat :=
  if algo = ckkRsa then [ckaPublicExponent, ckaModulus]
  else [ckaPrime, ckaSubprime, ckaBase, ckaValue]

theorem publicNumbers_rsa : publicNumbers ckkRsa = [ckaPublicExponent, ckaModulus] := rfl

theorem publicNumbers_dsa : publicNumbers ckkDsa = [ckaPrime, ckaSubprime, ckaBase, ckaValue] := rfl

/-- The name of a supported key type, as a string of the protocol. -/
theorem keytype_round_trip (h : algo = ckkRsa ∨ algo = ckkDsa) :
    ∃ salgo : CString, gkdSshAgentProtoAlgoToKeytype algo = some salgo.val ∧
      gkdSshAgentProtoKeytypeToAlgo (some salgo.val) = some algo ∧
      salgo.val.length < 0x7fffffff := by
  rcases h with rfl | rfl
  · exact ⟨⟨ascii "ssh-rsa", by decide⟩, by decide⟩
  · exact ⟨⟨ascii "ssh-dss", by decide⟩, by decide⟩

/-- A public key the protocol can carry: its numbers have no leading zero byte and fit a byte
array. -/
structure PublicKey (attrs : GckAttributes) (algo : Nat) : Prop where
  supported : algo = ckkRsa ∨ algo = ckkDsa
  keyType : gckAttributesFindUlong attrs ckaKeyType = some algo
  number : ∀ type ∈ publicNumbers algo, ∃ value,
    gckAttributesFind attrs type = some ⟨type, .data value⟩ ∧ value.head? ≠ some 0 ∧
      (fromUnsigned value).length < 0x7fffffff

/-- A public key that version 1 of the protocol can carry. -/
structure PublicKeyV1 (attrs : GckAttributes) : Prop where
  modulusBits : ∃ bits, gckAttributesFindUlong attrs ckaModulusBits = some bits
  number : ∀ type ∈ publicNumbers ckkRsa, ∃ value,
    gckAttributesFind attrs type = some ⟨type, .data value⟩ ∧ value.length < 8192

/-- `attrs'` has the key type and the numbers of the key `attrs`. -/
structure SameKey (attrs attrs' : GckAttributes) (algo : Nat) : Prop where
  keyType : gckAttributesFindUlong attrs' ckaKeyType = some algo
  number : ∀ type ∈ publicNumbers algo, gckAttributesFind attrs' type = gckAttributesFind attrs type

/-- The write succeeds; what it appends, the reader finds wherever it stands in a request, and the
value found satisfies `Q`. -/
def RoundTrips {α : Type} (resp : EggBuffer) (r : Checked (Bool × EggBuffer))
    (read : Reader α) (Q : α → Prop) : Prop :=
  ∃ resp' out a, r = .ok (true, resp') ∧ resp'.buf = resp.buf ++ out ∧ Reads read a out ∧ Q a

/-- The value of a number of the key. -/
def numberOf (attrs : GckAttributes) (type : Nat) : Bytes :=
  match gckAttributesFind attrs type with
  | some ⟨_, .data value⟩ => value
  | _ => []

theorem numberOf_eq {type : Nat} (h : gckAttributesFind attrs type = some ⟨type, .data value⟩) :
    numberOf attrs type = value := by
  simp [numberOf, h]

theorem PublicKey.numberOf {algo type : Nat} (h : PublicKey attrs algo) (ht : type ∈ publicNumbers algo) :
    gckAttributesFind attrs type = some ⟨type, .data (Ssh.numberOf attrs type)⟩ ∧
      (Ssh.numberOf attrs type).head? ≠ some 0 ∧
      (fromUnsigned (Ssh.numberOf attrs type)).length < 0x7fffffff := by
  obtain ⟨value, hfind, hrest⟩ := h.number type ht
  rw [numberOf_eq hfind]
  exact ⟨hfind, hrest⟩

theorem PublicKeyV1.numberOf {type : Nat} (h : PublicKeyV1 attrs) (ht : type ∈ publicNumbers ckkRsa) :
    gckAttributesFind attrs type = some ⟨type, .data (Ssh.numberOf attrs type)⟩ ∧
      (Ssh.numberOf attrs type).length < 8192 := by
  obtain ⟨value, hfind, hlen⟩ := h.number type ht
  rw [numberOf_eq hfind]
  exact ⟨hfind, hlen⟩

/-- The attributes read back for a key with these numbers. -/
def readBack (value : Nat → Bytes) (algo : Nat) : GckAttributes :=
  addRequired ((publicNumbers algo).map fun type => ⟨type, .data (value type)⟩) ckoPublicKey algo

theorem readBack_sameKey (hsupported : algo = ckkRsa ∨ algo = ckkDsa) (hfind : ∀ type ∈ publicNumbers algo,
      gckAttributesFind attrs type = some ⟨type, .data (numberOf attrs type)⟩) :
    SameKey attrs (readBack (numberOf attrs) algo) algo := by
  constructor
  · apply gckAttributesFindUlong_of_find
    · rcases hsupported with rfl | rfl <;> rfl
    · rcases hsupported with rfl | rfl <;> decide
  · intro type ht
    rw [hfind type ht]
    rcases hsupported with rfl | rfl
    · simp only [publicNumbers_rsa, mem_cons, not_mem_nil, or_false] at ht
      rcases ht with rfl | rfl <;> rfl
    · simp only [publicNumbers_dsa, mem_cons, not_mem_nil, or_false] at ht
      rcases ht with rfl | rfl | rfl | rfl <;> rfl

theorem reads_publicNumbers (h : PublicKey attrs algo) :
    Reads (readNumbers gkdSshAgentProtoReadMpi (publicNumbers algo) [])
      ((publicNumbers algo).map fun type => ⟨type, .data (numberOf attrs type)⟩)
      ((publicNumbers algo).flatMap fun type => mpiBytes (numberOf attrs type)) := by
  refine reads_numbers (publicNumbers algo) ?_ []
  intro type ht attrs'
  exact reads_mpi attrs' type (h.numberOf ht).2.1 (h.numberOf ht).2.2

/-- The key type and the numbers of a public key come back. -/
theorem public_round_trip (hresp : resp.Plenty) (h : PublicKey attrs algo) :
    RoundTrips resp (gkdSshAgentProtoWritePublic resp attrs) (gkdSshAgentProtoReadPublic [])
      fun r => r.2 = algo ∧ SameKey attrs r.1 algo := by
  obtain ⟨salgo, hname, halgo, hlen⟩ := keytype_round_trip h.supported
  have hstr := appended_addString hresp hlen
  obtain ⟨resp', hputs, happ⟩ := puts_numbers mpiBytes (publicNumbers algo)
    (fun t ht => (h.numberOf ht).1) (fun t ht b hb => puts_mpi hb t (h.numberOf ht).2.2) _
    hstr.plenty
  refine ⟨resp', _, (readBack (numberOf attrs) algo, algo), ?_, (hstr.trans happ).buf_eq, ?_, rfl,
    readBack_sameKey h.supported fun t ht => (h.numberOf ht).1⟩
  · rw [gkdSshAgentProtoWritePublic, h.keyType]
    dsimp only
    rw [hname]
    dsimp only
    rcases h.supported with rfl | rfl
    · exact hputs
    · exact hputs
  · apply (reads_string salgo hlen).bind
    rw [halgo]
    have hnumbers := reads_publicNumbers h
    rcases h.supported with rfl | rfl
    · exact (hnumbers.map fun attrs => addRequired attrs ckoPublicKey ckkRsa).map
        fun attrs => (attrs, ckkRsa)
    · exact (hnumbers.map fun attrs => addRequired attrs ckoPublicKey ckkDsa).map
        fun attrs => (attrs, ckkDsa)

/-- The numbers of a public key come back from version 1 of the protocol. -/
theorem public_round_trip_v1 (hresp : resp.Plenty) (h : PublicKeyV1 attrs) :
    RoundTrips resp (gkdSshAgentProtoWritePublicV1 resp attrs) (gkdSshAgentProtoReadPublicV1 [])
      fun attrs' => SameKey attrs attrs' ckkRsa := by
  obtain ⟨bits, hbits⟩ := h.modulusBits
  have hword := appended_addUint32 hresp bits
  obtain ⟨resp', hputs, happ⟩ := puts_numbers mpiV1Bytes (publicNumbers ckkRsa)
    (fun t ht => (h.numberOf ht).1) (fun t ht b hb => puts_mpiV1 hb t (h.numberOf ht).2) _
    hword.plenty
  refine ⟨resp', _, readBack (numberOf attrs) ckkRsa, ?_, (hword.trans happ).buf_eq, ?_,
    readBack_sameKey (.inl rfl) fun t ht => (h.numberOf ht).1⟩
  · rw [gkdSshAgentProtoWritePublicV1, hbits]
    exact hputs
  · -- only the low 32 bits of the number of bits are written, and nothing looks at them
    have hmod : encode 4 bits = encode 4 (bits % 2 ^ 32) := (encode_mod (Nat.le_refl 4) bits).symm
    rw [hmod]
    apply (reads_uint32 (Nat.mod_lt _ (by decide))).bind
    have hnumbers : Reads (readNumbers gkdSshAgentProtoReadMpiV1 (publicNumbers ckkRsa) [])
        ((publicNumbers ckkRsa).map fun type => ⟨type, .data (numberOf attrs type)⟩)
        ((publicNumbers ckkRsa).flatMap fun type => mpiV1Bytes (numberOf attrs type)) :=
      reads_numbers (publicNumbers ckkRsa)
        (fun t ht attrs' => reads_mpiV1 attrs' t (h.numberOf ht).2) []
    exact hnumbers.map fun attrs => addRequired attrs ckoPublicKey ckkRsa

/-- A public key whose numbers have no leading zero byte and fit a byte array comes back from its
encoding, wherever the encoding stands in a request: the reader succeeds, consumes exactly the
bytes written, and finds the key type and the numbers. The encoding of version 1 does the same for
numbers shorter than 8192 bytes. The response grows whenever it has to, since `g_realloc` does not
return without memory. -/
theorem public_key_round_trip (resp : EggBuffer) (hresp : resp.Plenty) :
    (∀ attrs algo, PublicKey attrs algo →
      RoundTrips resp (gkdSshAgentProtoWritePublic resp attrs) (gkdSshAgentProtoReadPublic [])
        fun r => r.2 = algo ∧ SameKey attrs r.1 algo) ∧
    (∀ attrs, PublicKeyV1 attrs →
      RoundTrips resp (gkdSshAgentProtoWritePublicV1 resp attrs)
        (gkdSshAgentProtoReadPublicV1 []) fun attrs' => SameKey attrs attrs' ckkRsa) :=
  ⟨fun _ _ h => public_round_trip hresp h, fun _ h => public_round_trip_v1 hresp h⟩

/-- An RSA key whose modulus has its high bit set. -/
def sampleRsa : GckAttributes :=
  [⟨ckaKeyType, .data (ulongBytes ckkRsa)⟩, ⟨ckaModulusBits, .data (ulongBytes 16)⟩,
    ⟨ckaModulus, .data [0x80, 0x01]⟩, ⟨ckaPublicExponent, .data [0x03]⟩]

theorem sampleRsa_publicKey : PublicKey sampleRsa ckkRsa := by
  refine ⟨.inl rfl, by decide, ?_⟩
  intro type ht
  simp only [publicNumbers_rsa, mem_cons, not_mem_nil, or_false] at ht
  rcases ht with rfl | rfl
  · exact ⟨[0x03], rfl, by decide, by decide⟩
  · exact ⟨[0x80, 0x01], rfl, by decide, by decide⟩

theorem sampleRsa_publicKeyV1 : PublicKeyV1 sampleRsa := by
  refine ⟨⟨16, by decide⟩, ?_⟩
  intro type ht
  simp only [publicNumbers_rsa, mem_cons, not_mem_nil, or_false] at ht
  rcases ht with rfl | rfl
  · exact ⟨[0x03], rfl, by decide⟩
  · exact ⟨[0x80, 0x01], rfl, by decide⟩

/-- The response of the agent's client thread. -/
def emptyResponse : EggBuffer := eggBufferInitFull 128 fun _ _ => true

theorem public_key_round_trip_sample :
    (RoundTrips emptyResponse (gkdSshAgentProtoWritePublic emptyResponse sampleRsa)
      (gkdSshAgentProtoReadPublic []) fun r => r.2 = ckkRsa ∧ SameKey sampleRsa r.1 ckkRsa) ∧
    RoundTrips emptyResponse (gkdSshAgentProtoWritePublicV1 emptyResponse sampleRsa)
      (gkdSshAgentProtoReadPublicV1 []) fun attrs' => SameKey sampleRsa attrs' ckkRsa :=
  have h := public_key_round_trip emptyResponse ⟨fun _ _ => true, rfl, fun _ _ => rfl⟩
  ⟨h.1 sampleRsa ckkRsa sampleRsa_publicKey, h.2 sampleRsa sampleRsa_publicKeyV1⟩

end MateKeyring.Ssh
