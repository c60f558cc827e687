import MateKeyring.Ssh.Identities

/-!
# The client thread of the SSH agent

`run_client_thread` of `gkd-ssh-agent.c`: read a packet, look up the operation, run it, and write the
response with its length in front. The operations of `gkd-ssh-agent-ops.c` are here in full, with the
assertions they make; a pointer that may be null is an `Option`, and following it is a `Fault`.

What the thread does not decide itself stands in a `Turn`, one for each request: the bytes that are in
memory that was never written, the objects the PKCS#11 modules hold and which of the calls to them
fail, and how the writes to the socket end. The request buffer is in secure memory, and its allocator
may refuse.
-/

set_option autoImplicit false

namespace MateKeyring.Ssh.Agent

open Lib Egg

/-! ## The PKCS#11 modules -/

/-- An object: its handle, and what `gck_object_get` gives for each attribute. -/
structure ModuleObject where
  handle : Nat
  value : Nat → GckValue

/-- `gck_object_get`, when it succeeds. An attribute that the object does not have is marked invalid. -/
def gckObjectGet (o : ModuleObject) (types : List Nat) : GckAttributes :=
  types.map fun type => ⟨type, o.value type⟩

/-- Whether an object is found by a search for these attributes. -/
def ModuleObject.isFound (attrs : GckAttributes) (o : ModuleObject) : Bool :=
  attrs.all fun attr =>
    match attr.value with
    | .data value => o.value attr.type == .data value
    | _ => false

/-- What the modules answer while one public key is looked at: whether its attributes can be had,
whether its session can be logged in, and the search in that session. -/
structure Visit where
  get : Bool
  login : Bool
  find : Bool
  objects : List ModuleObject

/-- What comes of signing. Without the attribute `CKA_ALWAYS_AUTHENTICATE` there is neither a signature
nor an error, and the length of the signature is whatever was in memory. -/
inductive Signed where
  | error
  | notAsked (length : Nat)
  | signature (value : Bytes)

/-- What comes of a call of `write`. -/
inductive Write where
  | wrote (n : Nat)
  /-- `EAGAIN` or `EINTR` -/
  | interrupted
  /-- another error -/
  | gone
  deriving DecidableEq

/-- What one request meets. -/
structure Turn where
  /-- the request buffer, where nothing was written -/
  memory : Nat → UInt8
  /-- every attribute of a private key is given memory -/
  attributeMemory : Bool
  /-- the objects of all modules, and how many of them an enumeration gives before it fails -/
  modules : List ModuleObject
  breaks : Option Nat
  /-- the objects that the main session sees, and whether they can be searched -/
  main : List ModuleObject
  mainFind : Bool
  visit : Nat → Visit
  /-- the keys that were added, and what becomes of a further one -/
  session : Session
  outcome : Outcome
  sign : Bytes → Signed
  decrypt : Bytes → Option Bytes
  /-- variables that were not set -/
  unsetByte : UInt8
  unsetWord : Nat
  writes : List Write

/-- `gck_attributes_find_boolean`, where `none` is that nothing was found. A value of the wrong size is
false. -/
def gckAttributesFindBoolean (attrs : GckAttributes) (type : Nat) : Option Bool :=
  match gckAttributesFind attrs type with
  | none => none
  | some ⟨_, .invalid⟩ => none
  | some ⟨_, .null⟩ => some false
  | some ⟨_, .data [value]⟩ => some (value != 0)
  | some ⟨_, .data _⟩ => some false

/-- `gck_modules_enumerate_objects`: the objects, and whether the enumeration failed after them. -/
def gckModulesEnumerateObjects (turn : Turn) (attrs : GckAttributes) : List ModuleObject × Bool :=
  match turn.breaks with
  | none => (turn.modules.filter (ModuleObject.isFound attrs), false)
  | some n => ((turn.modules.filter (ModuleObject.isFound attrs)).take n, true)

/-- `gck_session_find_objects` in the main session. -/
def mainFindObjects (turn : Turn) (attrs : GckAttributes) : List ModuleObject :=
  if turn.mainFind then turn.main.filter (ModuleObject.isFound attrs) else []

/-! ## Searching for keys -/

/-- The search of `return_private_matching`. -/
def privateSearch (pub : ModuleObject) : GckAttributes :=
  let attrs := gckObjectGet pub [ckaId, ckaToken]
  let token := (gckAttributesFindBoolean attrs ckaToken).getD false
  gckAttributesAddBoolean (gckAttributesAddUlong [⟨ckaId, pub.value ckaId⟩] ckaClass ckoPrivateKey)
    ckaToken token

/-- `search_keys_like_attributes` in all modules, with `return_private_matching`. -/
def firstPrivate (visit : Nat → Visit) : List ModuleObject → Option ModuleObject
  | [] => none
  | pub :: rest =>
    let v := visit pub.handle
    if v.get then
      if v.login then
        -- that the search fails is the same as that it finds nothing
        match (if v.find then v.objects.filter (ModuleObject.isFound (privateSearch pub)) else []) with
        | priv :: _ => some priv
        | [] => firstPrivate visit rest
      else none
    else firstPrivate visit rest

/-- The private key for the public key with these attributes. -/
def returnPrivateMatching (turn : Turn) (attrs : GckAttributes) : Option ModuleObject :=
  match buildLikeAttributes attrs ckoPublicKey with
  | none => none
  | some search => firstPrivate turn.visit (gckModulesEnumerateObjects turn search).1

/-- `search_keys_like_attributes` in the main session, with `return_first_matching`. -/
def returnFirstMatching (turn : Turn) (attrs : GckAttributes) : Option ModuleObject :=
  match buildLikeAttributes attrs ckoPublicKey with
  | none => none
  | some search => (mainFindObjects turn search).head?

/-! ## The operations -/

/-- An operation: the response, or `none` where it returns `FALSE`. -/
abbrev Operation := Turn → EggBuffer → EggBuffer → Checked (Option EggBuffer)

/-- `egg_buffer_add_byte (call->resp, code)` and `return TRUE`. -/
def respond (resp : EggBuffer) (code : UInt8) : Checked (Option EggBuffer) :=
  .ok (some (eggBufferAddByte resp code).2)

abbrev gkdSshResRsaIdentitiesAnswer : UInt8 := 2
abbrev gkdSshResRsaResponse : UInt8 := 4
abbrev gkdSshResFailure : UInt8 := 5
abbrev gkdSshResSuccess : UInt8 := 6
abbrev gkdSshResIdentitiesAnswer : UInt8 := 12
abbrev gkdSshResSignResponse : UInt8 := 14

/-- `op_add_identity` and `op_v1_add_identity`. The attributes of the private key are in secure memory,
and `attribute_init` asserts that it was given. -/
def addIdentity (v1 : Bool) : Operation := fun turn req resp => do
  cAssert (turn.attributeMemory = true)
  match ← opAddIdentity turn.session ⟨v1, req, turn.outcome⟩ with
  | (.success, _) => respond resp gkdSshResSuccess
  | (.failure, _) => respond resp gkdSshResFailure
  | (.closed, _) => pure none

/-- `op_add_identity`. -/
def opAddIdentity : Operation := addIdentity false

/-- `op_v1_add_identity`. -/
def opV1AddIdentity : Operation := addIdentity true

/-- The attributes `load_identity_v2_attributes` asks for. -/
def identityV2Types : List Nat :=
  [ckaId, ckaLabel, ckaKeyType, ckaModulus, ckaPublicExponent, ckaPrime, ckaSubprime, ckaBase, ckaValue,
    ckaClass, ckaModulusBits, ckaToken]

/-- The attributes `load_identity_v1_attributes` asks for. -/
def identityV1Types : List Nat :=
  [ckaId, ckaLabel, ckaKeyType, ckaModulus, ckaPublicExponent, ckaClass, ckaModulusBits]

/-- The public keys of version 2 whose attributes can be had, the last one first. -/
def identitiesV2 (turn : Turn) (found : List ModuleObject) : List ModuleObject :=
  (found.filter fun o => (turn.visit o.handle).get && o.value ckaLabel != .data v1Label).reverse

/-- The public keys of version 1 whose attributes can be had, the last one first. -/
def identitiesV1 (turn : Turn) (found : List ModuleObject) : List ModuleObject :=
  (found.filter fun o => (turn.visit o.handle).get).reverse

/-- The loop of `op_request_identities`. Whether the key could be written is not looked at. -/
def writeIdentities : List GckAttributes → EggBuffer → Checked EggBuffer
  | [], resp => .ok resp
  | attrs :: rest, resp => do
      let comment := (gckAttributesFindString attrs ckaLabel).join.getD []
      let blobpos := resp.len
      let written ← gkdSshAgentProtoWritePublic (eggBufferAddUint32 resp 0).2 attrs
      let resp := (eggBufferSetUint32 written.2 blobpos (written.2.len - blobpos - 4)).2
      writeIdentities rest (eggBufferAddString resp (some comment)).2

/-- The loop of `op_v1_request_identities`. -/
def writeIdentitiesV1 : List GckAttributes → EggBuffer → Checked EggBuffer
  | [], resp => .ok resp
  | attrs :: rest, resp => do
      let written ← gkdSshAgentProtoWritePublicV1 resp attrs
      writeIdentitiesV1 rest (eggBufferAddString written.2 (some (ascii "Public Key"))).2

/-- The search of `op_request_identities`. -/
def publicSearch : GckAttributes := gckAttributesAddUlong [] ckaClass ckoPublicKey

/-- The search of `op_v1_request_identities`. -/
def publicSearchV1 : GckAttributes :=
  gckAttributesAddData (gckAttributesAddBoolean publicSearch ckaToken false) ckaLabel (some v1Label)

/-- `op_request_identities`. -/
def opRequestIdentities : Operation := fun turn _ resp =>
  let found := gckModulesEnumerateObjects turn publicSearch
  let allAttrs := (identitiesV2 turn found.1).map fun o => gckObjectGet o identityV2Types
  if found.2 then respond resp gkdSshResFailure
  else do
    let resp := (eggBufferAddByte resp gkdSshResIdentitiesAnswer).2
    let resp ← writeIdentities allAttrs (eggBufferAddUint32 resp allAttrs.length).2
    pure (some resp)

/-- `op_v1_request_identities`. -/
def opV1RequestIdentities : Operation := fun turn _ resp =>
  let found := gckModulesEnumerateObjects turn publicSearchV1
  let allAttrs := (identitiesV1 turn found.1).map fun o => gckObjectGet o identityV1Types
  if found.2 then respond resp gkdSshResFailure
  else do
    let resp := (eggBufferAddByte resp gkdSshResRsaIdentitiesAnswer).2
    let resp ← writeIdentitiesV1 allAttrs (eggBufferAddUint32 resp allAttrs.length).2
    pure (some resp)

/-- `GChecksumType`, as far as it is used. -/
inductive GChecksumType where
  | md5
  | sha1

/-- The digests, with the length each of them has. -/
structure Checksums where
  md5 : Bytes → Octets 16
  sha1 : Bytes → Octets 20

/-- The digest of some data. -/
def Checksums.digest (sums : Checksums) (algo : GChecksumType) (data : Bytes) : Bytes :=
  match algo with
  | .md5 => (sums.md5 data).toList
  | .sha1 => (sums.sha1 data).toList

/-- `SHA1_ASN` and `MD5_ASN`. -/
def asn : GChecksumType → Bytes
  | .sha1 => [0x30, 0x21, 0x30, 0x09, 0x06, 0x05, 0x2b, 0x0e, 0x03, 0x02, 0x1a, 0x05, 0x00, 0x04, 0x14]
  | .md5 => [0x30, 0x20, 0x30, 0x0c, 0x06, 0x08, 0x2a, 0x86, 0x48, 0x86, 0xf7, 0x0d, 0x02, 0x05, 0x05,
      0x00, 0x04, 0x10]

/-- `make_pkcs1_sign_hash`. -/
def makePkcs1SignHash (sums : Checksums) (algo : GChecksumType) (data : Option Bytes) :
    Checked Bytes :=
  match data with
  | none => .error .assertion
  | some data => .ok (asn algo ++ sums.digest algo data)

/-- `make_raw_sign_hash`. -/
def makeRawSignHash (sums : Checksums) (algo : GChecksumType) (data : Option Bytes) :
    Checked Bytes :=
  match data with
  | none => .error .assertion
  | some data => .ok (sums.digest algo data)

/-- What stands in the packet of a sign request. -/
structure SignRequest where
  attrs : GckAttributes
  algo : Nat
  data : Option Bytes
  flags : Nat

/-- `op_sign_request`, as far as the packet goes. -/
def opSignRequestRead : Reader SignRequest := do
  let _ ← get eggBufferGetUint32
  let key ← gkdSshAgentProtoReadPublic []
  let data ← get eggBufferGetByteArray
  let flags ← get eggBufferGetUint32
  pure ⟨key.1, key.2, data, flags⟩

/-- Build the hash of a sign request. -/
def SignRequest.hash (sums : Checksums) (r : SignRequest) : Checked Bytes :=
  let halgo := if r.flags % 2 = 1 then GChecksumType.md5 else GChecksumType.sha1
  if r.algo = ckkRsa then makePkcs1SignHash sums halgo r.data else makeRawSignHash sums halgo r.data

/-- `gkd_ssh_agent_proto_write_signature_rsa`. -/
def gkdSshAgentProtoWriteSignatureRsa (resp : EggBuffer) (signature : Option Bytes) (_ : Nat) :
    Bool × EggBuffer :=
  eggBufferAddByteArray resp signature

/-- `gkd_ssh_agent_proto_write_signature_dsa`. -/
def gkdSshAgentProtoWriteSignatureDsa (resp : EggBuffer) (signature : Option Bytes) (n : Nat) :
    Bool × EggBuffer :=
  if n = 40 then eggBufferAddByteArray resp signature else (false, resp)

/-- The end of `op_sign_request`: the response with the signature. -/
def writeSignature (resp : EggBuffer) (algo : Nat) (signature : Option Bytes) (n : Nat) :
    Checked (Option EggBuffer) :=
  let resp := (eggBufferAddByte resp gkdSshResSignResponse).2
  let blobpos := resp.len
  let resp := (eggBufferAddUint32 resp 0).2
  match gkdSshAgentProtoAlgoToKeytype algo with
  | none => .error .assertion
  | some salgo =>
    let resp := (eggBufferAddString resp (some salgo)).2
    let ret := if algo = ckkRsa then gkdSshAgentProtoWriteSignatureRsa resp signature n
      else gkdSshAgentProtoWriteSignatureDsa resp signature n
    if ret.1 then .ok (some (eggBufferSetUint32 ret.2 blobpos (ret.2.len - blobpos - 4)).2)
    else .ok none

/-- `op_sign_request`. -/
def opSignRequest (sums : Checksums) : Operation := fun turn req resp => do
  match ← opSignRequestRead ⟨req, 5⟩ with
  | (.error _, _) => pure none
  | (.ok r, _) =>
    match returnPrivateMatching turn r.attrs with
    | none => respond resp gkdSshResFailure
    | some _ => do
        let hash ← r.hash sums
        match turn.sign hash with
        | .error => respond resp gkdSshResFailure
        | .notAsked n => writeSignature resp r.algo none n
        | .signature value => writeSignature resp r.algo (some value) value.length

/-- `gkd_ssh_agent_proto_read_challenge_v1`; `none` is a null pointer. -/
def gkdSshAgentProtoReadChallengeV1 : Cursor → Checked (Option Bytes × Cursor) := fun c => do
  match ← readBits c with
  | (.error _, c) => pure (none, c)
  | (.ok data, c) => pure (some data, c)

/-- The session id of `op_v1_challenge`. Reading on past the end leaves the byte as it was. -/
def readSessionId : Nat → UInt8 → Cursor → Checked (Bytes × Cursor)
  | 0, _, c => .ok ([], c)
  | n + 1, b, c => do
      match ← get eggBufferGetByte c with
      | (.error _, c) => do
          let r ← readSessionId n b c
          pure (b :: r.1, r.2)
      | (.ok b, c) => do
          let r ← readSessionId n b c
          pure (b :: r.1, r.2)

/-- The response type of `op_v1_challenge`. -/
def readResponseType (unset : Nat) (c : Cursor) : Checked (Nat × Cursor) := do
  match ← get eggBufferGetUint32 c with
  | (.error _, c) => pure (unset, c)
  | (.ok v, c) => pure (v, c)

/-- `op_v1_challenge` behind the public key. -/
def challenge (sums : Checksums) (turn : Turn) (attrs : GckAttributes) (c : Cursor) (resp : EggBuffer) :
    Checked (Option EggBuffer) := do
  let data ← gkdSshAgentProtoReadChallengeV1 c
  -- only protocol 1.1 is supported
  if data.2.req.len ≤ data.2.offset then respond resp gkdSshResFailure
  else do
    let sessionId ← readSessionId 16 turn.unsetByte data.2
    let respType ← readResponseType turn.unsetWord sessionId.2
    match data.1 with
    | none => pure none
    | some data =>
      if eggBufferHasError respType.2.req then pure none
      else if respType.1 ≠ 1 then respond resp gkdSshResFailure
      else
        match returnPrivateMatching turn attrs with
        | none => respond resp gkdSshResFailure
        | some _ =>
          match turn.decrypt data with
          | none => respond resp gkdSshResFailure
          | some result =>
            let resp := (eggBufferAddByte resp gkdSshResRsaResponse).2
            pure (some (eggBufferAppend resp (sums.md5 (result ++ sessionId.1)).toList).2)

/-- `op_v1_challenge`. -/
def opV1Challenge (sums : Checksums) : Operation := fun turn req resp => do
  match ← gkdSshAgentProtoReadPublicV1 [] ⟨req, 5⟩ with
  | (.error _, _) => pure none
  | (.ok attrs, c) => challenge sums turn attrs c resp

/-- The label of the key is `V1_LABEL`. -/
def isV1 (pub : ModuleObject) : Bool :=
  (gckAttributesFindString (gckObjectGet pub [ckaLabel]) ckaLabel).join == some v1Label

/-- The search of `remove_by_public_key` for the private key. -/
def relatedSearch (pub : ModuleObject) : GckAttributes :=
  gckAttributesAddUlong (gckObjectGet pub [ckaLabel, ckaId, ckaToken]) ckaClass ckoPrivateKey

/-- Whether `remove_by_public_key` takes a public key for a token object. -/
def isToken (pub : ModuleObject) : Bool :=
  (gckAttributesFindBoolean (gckObjectGet pub [ckaLabel, ckaId, ckaToken]) ckaToken).getD false

/-- `remove_by_public_key`. For a key that is not on a token `objects->data` is looked at, whether or not
anything was found; what `remove_key_pair` and `lock_key_pair` then do has no bearing on the response. -/
def removeByPublicKey (turn : Turn) (pub : ModuleObject) (excludeV1 : Bool) : Checked Unit :=
  let v := turn.visit pub.handle
  if !v.login || !v.get || (excludeV1 && isV1 pub) || !v.find then .ok ()
  else
    match v.objects.filter (ModuleObject.isFound (relatedSearch pub)) with
    | [] => if isToken pub then .ok () else .error .nullPointer
    | _ :: _ => .ok ()

/-- Remove one key after the other. -/
def removeEach (turn : Turn) (excludeV1 : Bool) : List ModuleObject → Checked Unit
  | [] => .ok ()
  | pub :: rest => do
      removeByPublicKey turn pub excludeV1
      removeEach turn excludeV1 rest

/-- `op_remove_identity`, as far as the packet goes. -/
def opRemoveIdentityRead : Reader GckAttributes := do
  let _ ← get eggBufferGetUint32
  let key ← gkdSshAgentProtoReadPublic []
  pure key.1

/-- `op_remove_identity` and `op_v1_remove_identity`, which differ in how they read the key. -/
def removeIdentity (read : Reader GckAttributes) (excludeV1 : Bool) : Operation := fun turn req resp => do
  match ← read ⟨req, 5⟩ with
  | (.error _, _) => pure none
  | (.ok attrs, _) => do
      removeEach turn excludeV1 (returnFirstMatching turn attrs).toList
      respond resp gkdSshResSuccess

/-- `op_remove_identity`. -/
def opRemoveIdentity : Operation := removeIdentity opRemoveIdentityRead true

/-- `op_v1_remove_identity`. -/
def opV1RemoveIdentity : Operation := removeIdentity (gkdSshAgentProtoReadPublicV1 []) false

/-- `op_remove_all_identities` and `op_v1_remove_all_identities`, which differ in what they search. -/
def removeAllIdentities (search : GckAttributes) (excludeV1 : Bool) : Operation := fun turn _ resp => do
  removeEach turn excludeV1 (mainFindObjects turn search)
  respond resp gkdSshResSuccess

/-- `op_remove_all_identities`. -/
def opRemoveAllIdentities : Operation := removeAllIdentities publicSearch true

/-- `op_v1_remove_all_identities`. -/
def opV1RemoveAllIdentities : Operation := removeAllIdentities publicSearchV1 false

/-- `op_not_implemented_success`. -/
def opNotImplementedSuccess : Operation := fun _ _ resp => respond resp gkdSshResSuccess

/-- `op_not_implemented_failure`. -/
def opNotImplementedFailure : Operation := fun _ _ resp => respond resp gkdSshResFailure

/-- `op_invalid`. -/
def opInvalid : Operation := fun _ _ _ => .ok none

/-- `GKD_SSH_OP_MAX`. -/
abbrev gkdSshOpMax : Nat := 27

/-- `gkd_ssh_agent_operations`. -/
def gkdSshAgentOperations (sums : Checksums) : List Operation :=
  [opInvalid, opV1RequestIdentities, opInvalid, opV1Challenge sums, opInvalid, opInvalid, opInvalid,
    opV1AddIdentity, opV1RemoveIdentity, opV1RemoveAllIdentities, opInvalid, opRequestIdentities,
    opInvalid, opSignRequest sums, opInvalid, opInvalid, opInvalid, opAddIdentity, opRemoveIdentity,
    opRemoveAllIdentities, opNotImplementedFailure, opNotImplementedFailure, opNotImplementedSuccess,
    opNotImplementedSuccess, opV1AddIdentity, opAddIdentity, opNotImplementedFailure]

/-! ## The client thread -/

/-- A length that is passed as an `int`; a negative one is no length at all. -/
def intLength (len : Nat) : Nat := if len % 2 ^ 32 < 2 ^ 31 then len % 2 ^ 32 else 0

/-- `egg_buffer_resize`, where `memory` is what the memory behind the bytes in use holds. -/
def eggBufferResize (b : EggBuffer) (len : Nat) (memory : Nat → UInt8) : Bool × EggBuffer :=
  andThen (eggBufferReserve b len) fun b =>
    (true, { b with buf := b.buf.take len ++ (List.range' b.len (len - b.len)).map memory })

/-- Put bytes into the memory of the buffer; those behind the bytes in use are not seen again. -/
def store (b : EggBuffer) (offset : Nat) (data : Bytes) : Checked EggBuffer :=
  if offset + data.length ≤ b.allocatedLen then
    .ok { b with buf := (b.buf.take offset ++ data ++ b.buf.drop (offset + data.length)).take b.len }
  else .error .outOfBounds

/-- `read_all` into the buffer. The client may close the connection early, and into a null pointer
nothing is read: whether everything was read, the buffer and what is still to come. -/
def readAll (b : EggBuffer) (offset len : Nat) (input : Bytes) :
    Checked (Bool × EggBuffer × Bytes) :=
  if intLength len = 0 then .ok (true, b, input)
  else if b.allocatedLen = 0 then .ok (false, b, input)
  else do
    let b ← store b offset (input.take (intLength len))
    pure (decide (intLength len ≤ input.length), b, input.drop (intLength len))

/-- `read_packet_with_size`. Whether the buffer could be resized is not looked at. -/
def readPacketWithSize (turn : Turn) (req : EggBuffer) (input : Bytes) :
    Checked (Option (EggBuffer × Bytes)) := do
  let header ← readAll (eggBufferResize req 4 turn.memory).2 0 4 input
  if header.1 then
    match ← eggBufferGetUint32 header.2.1 0 with
    | (none, _) => pure none
    | (some (packetSize, _), req) =>
      if packetSize < 1 then pure none
      else do
        -- `packet_size + 4` is a `guint32`
        let req := (eggBufferResize req ((packetSize + 4) % 2 ^ 32) turn.memory).2
        let body ← readAll req 4 packetSize header.2.2
        pure (if body.1 then some body.2 else none)
  else pure none

/-- How `write_all` ends. -/
inductive WriteAll where
  | all
  | interrupted
  | gone
  deriving DecidableEq

/-- `write_all`: how it ends, and the bytes that were written. That the error is `EAGAIN` and `EINTR` at
the same time cannot be, so every error ends it. -/
def writeAll : List Write → Bytes → WriteAll × Bytes
  | _, [] => (.all, [])
  | [], buf => (.all, buf)
  | .wrote n :: writes, buf =>
    if n = 0 then (.gone, [])
    else
      let rest := writeAll writes (buf.drop n)
      (rest.1, buf.take n ++ rest.2)
  | .interrupted :: _, _ => (.interrupted, [])
  | .gone :: _, _ => (.gone, [])

/-- A response, how it was written and what the client got of it. -/
structure Reply where
  response : Bytes
  written : WriteAll
  sent : Bytes

/-- The client thread at the head of its loop. -/
structure Thread where
  req : EggBuffer
  resp : EggBuffer
  input : Bytes
  replies : List Reply
  turns : List Turn

/-- `run_client_thread` before its loop; the request buffer is not there when its first memory is
refused. -/
def runClientThread (allocator : EggBufferAllocator) (input : Bytes) (turns : List Turn) :
    Thread where
  req :=
    if allocator 0 128 then eggBufferInitFull 128 allocator
    else { buf := [], allocatedLen := 0, failures := 1, allocator := none, attempts := 1 }
  resp := eggBufferInitFull 128 fun _ _ => true
  input := input
  replies := []
  turns := turns

/-- Execute the operation of a packet. -/
def execute (sums : Checksums) (turn : Turn) (req resp : EggBuffer) : Checked (Option EggBuffer) := do
  match ← eggBufferGetByte req 4 with
  | (none, _) => pure none
  | (some (op, _), req) =>
    if gkdSshOpMax ≤ op.toNat then pure none
    else
      match (gkdSshAgentOperations sums)[op.toNat]? with
      | none => .error .assertion
      | some operation => operation turn req (eggBufferAddUint32 (eggBufferReset resp) 0).2

/-- Write the reply back out. -/
def reply (turn : Turn) (resp : EggBuffer) : Reply :=
  let written := writeAll turn.writes (resp.buf.take (intLength resp.len))
  ⟨resp.buf, written.1, written.2⟩

/-- One round of the loop of `run_client_thread`; it does not come back to the head of the loop after the
last turn, or where the loop is left. A reply that was not written as a whole is kept too. -/
def clientRound (sums : Checksums) (t : Thread) : Checked (Option Thread) :=
  match t.turns with
  | [] => .ok none
  | turn :: turns => do
      match ← readPacketWithSize turn (eggBufferReset t.req) t.input with
      | none => pure none
      | some (req, input) =>
        match ← execute sums turn req t.resp with
        | none => pure none
        | some resp =>
          let set := eggBufferSetUint32 resp 0 (resp.len - 4)
          if set.1 then
            pure (some ⟨req, set.2, input, t.replies ++ [reply turn set.2],
              if (reply turn set.2).written = .all then turns else []⟩)
          else pure none

end MateKeyring.Ssh.Agent
