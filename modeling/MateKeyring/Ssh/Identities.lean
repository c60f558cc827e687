import Mathlib.Data.List.Basic
import MateKeyring.Ssh.Proto

/-!
# Adding identities to the SSH agent

The requests of `gkd-ssh-agent-ops.c` that add a key. The key pair is read from the packet
(`opAddIdentityRead`, `opV1AddIdentityRead`), and `replaceKeyPair` puts it into the main session: it
searches for the keys that it replaces, creates the two new objects and destroys what it found. The
outcome of each creation is part of the request.

`Session` is the main session as its module keeps it: a number is stored without leading zeros
(`gcry_mpi_scan` and `gcry_mpi_print` with `GCRYMPI_FMT_USG`), and the private value of a DSA key is
sensitive.
-/

set_option autoImplicit false

namespace MateKeyring.Ssh

open Lib Egg List

variable {attrs : GckAttributes} {priv pub : GckAttributes} {pair : GckAttributes × GckAttributes}
  {type : Nat} {values : List GckValue} {klass algo : Nat}

/-! ## Reading a key pair -/

abbrev ckaGDestructAfter : Nat := 0xc74e4d45 + 191

/-- `copy_attribute`. -/
def copyAttribute (original : GckAttributes) (dest : GckAttributes) (type : Nat) : GckAttributes :=
  match gckAttributesFind original type with
  | none => dest
  | some attr => gckAttributesAdd dest attr

/-- The numbers of a private RSA key, in the order of the packet. -/
def rsaNumbers : List Nat :=
  [ckaModulus, ckaPublicExponent, ckaPrivateExponent, ckaCoefficient, ckaPrime1, ckaPrime2]

/-- The end of `gkd_ssh_agent_proto_read_pair_rsa` and of `gkd_ssh_agent_proto_read_pair_v1`: the
private and the public key. -/
def rsaPair (priv : GckAttributes) : GckAttributes × GckAttributes :=
  (addRequired priv ckoPrivateKey ckkRsa,
    addRequired ([ckaModulus, ckaPublicExponent].foldl (copyAttribute priv) []) ckoPublicKey ckkRsa)

/-- `gkd_ssh_agent_proto_read_pair_rsa`. -/
def gkdSshAgentProtoReadPairRsa : Reader (GckAttributes × GckAttributes) := do
  let priv ← readNumbers gkdSshAgentProtoReadMpi rsaNumbers []
  pure (rsaPair priv)

/-- `gkd_ssh_agent_proto_read_pair_v1`. -/
def gkdSshAgentProtoReadPairV1 : Reader (GckAttributes × GckAttributes) := do
  let priv ← readNumbers gkdSshAgentProtoReadMpiV1 rsaNumbers []
  pure (rsaPair priv)

/-- `gkd_ssh_agent_proto_read_pair_dsa`. Both keys have a `CKA_VALUE` of their own, and the one of the
public key comes first. -/
def gkdSshAgentProtoReadPairDsa : Reader (GckAttributes × GckAttributes) := do
  let priv ← readNumbers gkdSshAgentProtoReadMpi [ckaPrime, ckaSubprime, ckaBase] []
  let pub ← gkdSshAgentProtoReadMpi [] ckaValue
  let priv ← gkdSshAgentProtoReadMpi priv ckaValue
  pure (addRequired priv ckoPrivateKey ckkDsa,
    addRequired ([ckaPrime, ckaSubprime, ckaBase].foldl (copyAttribute priv) pub) ckoPublicKey ckkDsa)

/-- The key pair of a packet of version 2. -/
def readPair (algo : Nat) : Reader (GckAttributes × GckAttributes) :=
  if algo = ckkRsa then gkdSshAgentProtoReadPairRsa else gkdSshAgentProtoReadPairDsa

/-- Add an attribute to both keys. -/
def addToBoth (pair : GckAttributes × GckAttributes) (type : Nat) (value : Option Bytes) :
    GckAttributes × GckAttributes :=
  (gckAttributesAddData pair.1 type value, gckAttributesAddData pair.2 type value)

/-- `load_contraints`. Each turn reads a byte at least, so that `fuel` need not be more than the length
of the packet. -/
def loadContraints : Nat → GckAttributes × GckAttributes → Reader (GckAttributes × GckAttributes)
  | 0, pair => pure pair
  | fuel + 1, pair => do
      if ← Prog.read fun c => decide (c.offset < c.req.len) then
        let constraint ← get eggBufferGetByte
        -- only the lifetime is supported
        if constraint = 1 then
          let lifetime ← get eggBufferGetUint32
          loadContraints fuel (addToBoth pair ckaGDestructAfter (some (ulongBytes lifetime)))
        else Prog.stop ()
      else pure pair

/-- `V1_LABEL`. -/
def v1Label : Bytes := ascii "SSH1 RSA Key"

/-- `op_add_identity`, as far as the packet goes. -/
def opAddIdentityRead : Reader (GckAttributes × GckAttributes) := do
  let stype ← get eggBufferGetString
  match gkdSshAgentProtoKeytypeToAlgo stype with
  | none => Prog.stop ()
  | some algo =>
    let pair ← readPair algo
    let comment ← get eggBufferGetString
    let length ← Prog.read fun c => c.req.len
    loadContraints length (addToBoth pair ckaLabel comment)

/-- `op_v1_add_identity`, as far as the packet goes. -/
def opV1AddIdentityRead : Reader (GckAttributes × GckAttributes) := do
  let _ ← get eggBufferGetUint32
  let pair ← gkdSshAgentProtoReadPairV1
  let _ ← get eggBufferGetString
  let length ← Prog.read fun c => c.req.len
  loadContraints length (addToBoth pair ckaLabel (some v1Label))

/-! ## The main session -/

/-- A session object, with the attributes it was created with. -/
structure KeyObject where
  handle : Nat
  attrs : GckAttributes

/-- The session objects. A handle is not given twice. -/
structure Session where
  objects : List KeyObject
  next : Nat
  fresh : ∀ o ∈ objects, o.handle < next

/-- The attributes that are numbers. -/
def isNumber (type : Nat) : Bool :=
  type ∈ [ckaModulus, ckaPublicExponent, ckaPrime, ckaSubprime, ckaBase, ckaValue]

/-- What the module answers for an attribute of a key. -/
def KeyObject.getAttribute (o : KeyObject) (type : Nat) : Option Bytes :=
  if type = ckaToken then some [0]
  else if type = ckaValue ∧ gckAttributesFindUlong o.attrs ckaClass = some ckoPrivateKey then none
  else
    match gckAttributesFind o.attrs type with
    | some ⟨_, .data value⟩ => some (if isNumber type then value.dropWhile (· = 0) else value)
    | _ => none

/-- `gkm_object_match`. -/
def gkmObjectMatch (o : KeyObject) (attr : GckAttribute) : Bool :=
  match attr.value with
  | .data value => o.getAttribute attr.type == some value
  | _ => false

/-- `gck_session_find_objects`. -/
def gckSessionFindObjects (s : Session) (attrs : GckAttributes) : List KeyObject :=
  s.objects.filter fun o => attrs.all (gkmObjectMatch o)

/-- `gck_session_create_object`, when it succeeds. -/
def gckSessionCreateObject (s : Session) (attrs : GckAttributes) : Session where
  objects := s.objects ++ [⟨s.next, attrs⟩]
  next := s.next + 1
  fresh := by
    intro o ho
    rcases mem_append.1 ho with ho | ho
    · exact Nat.lt_succ_of_lt (s.fresh o ho)
    · rw [mem_singleton.1 ho]
      exact Nat.lt_succ_self _

/-- `gck_object_destroy` of each of these objects. -/
def gckObjectDestroy (s : Session) (handles : List Nat) : Session where
  objects := s.objects.filter fun o => o.handle ∉ handles
  next := s.next
  fresh o ho := s.fresh o (mem_filter.1 ho).1

/-! ## Replacing a key pair -/

/-- The numbers that `build_like_attributes` compares. -/
def likeNumbers (keyType : Nat) : List Nat :=
  if keyType = ckkRsa then [ckaModulus, ckaPublicExponent]
  else [ckaPrime, ckaSubprime, ckaBase, ckaValue]

/-- `build_like_attributes`; other key types do not get here. -/
def buildLikeAttributes (attrs : GckAttributes) (klass : Nat) : Option GckAttributes :=
  match gckAttributesFindUlong attrs ckaKeyType with
  | none => none
  | some keyType =>
    if keyType = ckkRsa ∨ keyType = ckkDsa then
      some ((ckaKeyType :: ckaToken :: likeNumbers keyType).foldl (copyAttribute attrs)
        (gckAttributesAddUlong [] ckaClass klass))
    else none

/-- `search_keys_like_attributes` in the session, with `list_all_matching`. -/
def searchKeysLikeAttributes (s : Session) (attrs : GckAttributes) (klass : Nat) : List Nat :=
  match buildLikeAttributes attrs klass with
  | none => []
  | some search => ((gckSessionFindObjects s search).map KeyObject.handle).reverse

/-- What the module makes of a request: whether the session could be logged in, and whether the
private and the public key could be created. -/
structure Outcome where
  login : Bool
  priv : Bool
  pub : Bool
  deriving DecidableEq, Repr

/-- Both keys can be created. -/
def Outcome.created (outcome : Outcome) : Bool := outcome.login && outcome.priv && outcome.pub

/-- `create_key_pair`. When the public key cannot be created the private key is destroyed again. -/
def createKeyPair (s : Session) (outcome : Outcome) (priv pub : GckAttributes) : Bool × Session :=
  if outcome.login then
    if outcome.priv then
      let s' := gckSessionCreateObject s priv
      if outcome.pub then (true, gckSessionCreateObject s' pub)
      else (false, gckObjectDestroy s' [s.next])
    else (false, s)
  else (false, s)

/-- `replace_key_pair`. The keys to replace are searched with the attributes of the private key, and
what it returns does not depend on whether the keys were created. -/
def replaceKeyPair (s : Session) (outcome : Outcome) (priv pub : GckAttributes) : Bool × Session :=
  if outcome.login then
    let priv := gckAttributesAddBoolean priv ckaToken false
    let pub := gckAttributesAddBoolean pub ckaToken false
    let privPrev := searchKeysLikeAttributes s priv ckoPrivateKey
    let pubPrev := searchKeysLikeAttributes s priv ckoPublicKey
    let created := createKeyPair s outcome priv pub
    if created.1 then (true, gckObjectDestroy (gckObjectDestroy created.2 privPrev) pubPrev)
    else (true, created.2)
  else (false, s)

/-- A request to add a key, in the packet of version 1 or 2 of the protocol. -/
structure AddRequest where
  v1 : Bool
  req : EggBuffer
  outcome : Outcome

/-- The key pair in the packet. -/
def AddRequest.read (r : AddRequest) : Checked (Except Unit (GckAttributes × GckAttributes)) :=
  ((if r.v1 then opV1AddIdentityRead else opAddIdentityRead) ⟨r.req, 5⟩).map Prod.fst

/-- The answer to a request. -/
inductive Answer where
  /-- `GKD_SSH_RES_SUCCESS` -/
  | success
  /-- `GKD_SSH_RES_FAILURE` -/
  | failure
  /-- the connection is closed -/
  | closed
  deriving DecidableEq, Repr

/-- `op_add_identity` and `op_v1_add_identity`. -/
def opAddIdentity (s : Session) (r : AddRequest) : Checked (Answer × Session) := do
  match ← r.read with
  | .error _ => pure (.closed, s)
  | .ok (priv, pub) =>
    let replaced := replaceKeyPair s r.outcome priv pub
    pure (if replaced.1 then .success else .failure, replaced.2)

/-- A sequence of requests: the answers, each with the session before and after it. -/
def addIdentities : Session → List AddRequest →
    Checked (List (Session × AddRequest × Answer × Session))
  | _, [] => .ok []
  | s, r :: rs => do
      let (answer, s') ← opAddIdentity s r
      let rest ← addIdentities s' rs
      pure ((s, r, answer, s') :: rest)

/-! ## What the packets hold -/

theorem total_mpi (attrs : GckAttributes) (type : Nat) : Total (gkdSshAgentProtoReadMpi attrs type) :=
  total_byteArray.bind fun _ => total_pure _

theorem total_pull (bytes : Nat) : Total (pull bytes) := by
  intro c
  unfold pull
  split
  · exact ⟨_, rfl⟩
  · rename_i h
    rw [EggBuffer.peek, if_pos (by omega)]
    exact ⟨_, rfl⟩

theorem total_mpiV1 (attrs : GckAttributes) (type : Nat) :
    Total (gkdSshAgentProtoReadMpiV1 attrs type) := by
  have hbits : Total readBits := by
    apply total_uint16.bind
    intro bits
    split
    · exact total_stop
    · exact total_pull _
  exact hbits.bind fun _ => total_pure _

variable {read : GckAttributes → Nat → Reader GckAttributes}

theorem total_numbers
    (h : ∀ attrs type, Total (read attrs type)) (types : List Nat) (attrs : GckAttributes) :
    Total (readNumbers read types attrs) := by
  induction types generalizing attrs with
  | nil => exact total_pure _
  | cons type types ih => exact (h attrs type).bind fun _ => ih _

theorem total_loadContraints (fuel : Nat) (pair : GckAttributes × GckAttributes) :
    Total (loadContraints fuel pair) := by
  induction fuel generalizing pair with
  | zero => exact total_pure _
  | succ fuel ih =>
    apply (total_read _).bind
    intro more
    split
    · apply total_byte.bind
      intro constraint
      split
      · exact total_uint32.bind fun _ => ih _
      · exact total_stop
    · exact total_pure _

/-- Reading a request does not fault. -/
theorem AddRequest.read_total (r : AddRequest) : ∃ x, r.read = .ok x := by
  have htotal : Total (if r.v1 then opV1AddIdentityRead else opAddIdentityRead) := by
    split
    · refine total_uint32.bind fun _ => Total.bind ?_ fun pair => total_string.bind fun _ =>
        (total_read _).bind fun _ => total_loadContraints _ _
      exact (total_numbers total_mpiV1 _ _).bind fun _ => total_pure _
    · apply total_string.bind
      intro stype
      split
      · exact total_stop
      · refine Total.bind ?_ fun pair => total_string.bind fun _ =>
          (total_read _).bind fun _ => total_loadContraints _ _
        unfold readPair
        split
        · exact (total_numbers total_mpi _ _).bind fun _ => total_pure _
        · exact (total_numbers total_mpi _ _).bind fun _ => (total_mpi _ _).bind fun _ =>
            (total_mpi _ _).bind fun _ => total_pure _
  obtain ⟨x, hx⟩ := htotal ⟨r.req, 5⟩
  exact ⟨x.1, by rw [AddRequest.read, hx]; rfl⟩

/-- Numbers that were read one after the other. -/
def numberAttributes (types : List Nat) (values : List GckValue) : GckAttributes :=
  (types.zip values).map fun tv => ⟨tv.1, tv.2⟩

theorem find_numberAttributes {types : List Nat} (hlen : values.length = types.length) (h : type ∈ types) :
    ∃ value, gckAttributesFind (numberAttributes types values) type = some ⟨type, value⟩ := by
  induction types generalizing values with
  | nil => cases h
  | cons t types ih =>
    cases values with
    | nil => cases hlen
    | cons v values =>
      rw [numberAttributes, zip_cons_cons, map_cons, gckAttributesFind_cons]
      by_cases ht : t = type
      · exact ⟨v, by rw [if_pos ht, ht]⟩
      · rw [if_neg ht]
        have hmem : type ∈ types := (mem_cons.1 h).resolve_left fun he => ht he.symm
        exact ih (Nat.succ.inj hlen) hmem

theorem find_numberAttributes_none {types : List Nat} (values : List GckValue) (h : type ∉ types) :
    gckAttributesFind (numberAttributes types values) type = none := by
  rw [gckAttributesFind, find?_eq_none]
  intro attr hattr
  obtain ⟨tv, htv, rfl⟩ := mem_map.1 hattr
  rw [decide_eq_true_eq]
  rintro rfl
  exact h (of_mem_zip htv).1

/-- A reader that appends one attribute of this type. -/
def Appends (read : GckAttributes → Nat → Reader GckAttributes) : Prop :=
  ∀ attrs type, Finds (read attrs type) fun out => ∃ value, out = attrs ++ [⟨type, value⟩]

theorem appends_mpi : Appends gkdSshAgentProtoReadMpi := fun _ _ =>
  (finds_any _).bind fun _ _ => finds_pure ⟨_, rfl⟩

theorem appends_mpiV1 : Appends gkdSshAgentProtoReadMpiV1 := fun _ _ =>
  (finds_any _).bind fun _ _ => finds_pure ⟨_, rfl⟩

theorem finds_numbers (h : Appends read) (types : List Nat) (attrs : GckAttributes) :
    Finds (readNumbers read types attrs) fun out => ∃ values : List GckValue,
      values.length = types.length ∧ out = attrs ++ numberAttributes types values := by
  induction types generalizing attrs with
  | nil => exact finds_pure ⟨[], rfl, (append_nil _).symm⟩
  | cons type types ih =>
    refine Finds.bind (h attrs type) ?_
    rintro attrs' ⟨value, rfl⟩
    intro c out c' hout
    obtain ⟨values, hlen, heq⟩ := ih _ c out c' hout
    refine ⟨value :: values, congrArg Nat.succ hlen, ?_⟩
    rw [heq, append_assoc]
    rfl

/-- What is needed of the attributes of a key pair. -/
structure KeyPair (algo : Nat) (priv pub : GckAttributes) : Prop where
  supported : algo = ckkRsa ∨ algo = ckkDsa
  privClass : gckAttributesFind priv ckaClass = some ⟨ckaClass, .data (ulongBytes ckoPrivateKey)⟩
  pubClass : gckAttributesFind pub ckaClass = some ⟨ckaClass, .data (ulongBytes ckoPublicKey)⟩
  privType : gckAttributesFind priv ckaKeyType = some ⟨ckaKeyType, .data (ulongBytes algo)⟩
  pubType : gckAttributesFind pub ckaKeyType = some ⟨ckaKeyType, .data (ulongBytes algo)⟩
  token : gckAttributesFind priv ckaToken = none
  privNumbers : ∀ t ∈ likeNumbers algo, ∃ value, gckAttributesFind priv t = some ⟨t, value⟩
  pubNumbers : ∀ t ∈ likeNumbers algo, ∃ value, gckAttributesFind pub t = some ⟨t, value⟩
  rsaNumbers : algo = ckkRsa → ∀ t ∈ likeNumbers ckkRsa,
    gckAttributesFind pub t = gckAttributesFind priv t

theorem find_append_of_some {attr : GckAttribute} (h : gckAttributesFind attrs type = some attr)
    (more : GckAttributes) :
    gckAttributesFind (attrs ++ more) type = some attr := by
  rw [gckAttributesFind_append, h]
  rfl

theorem find_append_of_none (h : gckAttributesFind attrs type = none) (more : GckAttributes) :
    gckAttributesFind (attrs ++ more) type = gckAttributesFind more type := by
  rw [gckAttributesFind_append, h]
  rfl

/-- Attributes that come later change nothing. -/
theorem KeyPair.addToBoth {algo : Nat} (h : KeyPair algo pair.1 pair.2) (htype : type ≠ ckaToken)
    (value : Option Bytes) :
    KeyPair algo (Ssh.addToBoth pair type value).1 (Ssh.addToBoth pair type value).2 where
  supported := h.supported
  privClass := find_append_of_some h.privClass _
  pubClass := find_append_of_some h.pubClass _
  privType := find_append_of_some h.privType _
  pubType := find_append_of_some h.pubType _
  token := by
    refine (find_append_of_none h.token _).trans ?_
    rw [gckAttributesFind_cons, if_neg htype]
    rfl
  privNumbers t ht := by
    obtain ⟨value', hvalue⟩ := h.privNumbers t ht
    exact ⟨value', find_append_of_some hvalue _⟩
  pubNumbers t ht := by
    obtain ⟨value', hvalue⟩ := h.pubNumbers t ht
    exact ⟨value', find_append_of_some hvalue _⟩
  rsaNumbers halgo t ht := by
    obtain ⟨value', hvalue⟩ := h.privNumbers t (halgo ▸ ht)
    have hpub := (h.rsaNumbers halgo t ht).trans hvalue
    exact (find_append_of_some hpub _).trans (find_append_of_some hvalue _).symm

theorem find_addRequired (klass algo : Nat) (hclass : gckAttributesFind attrs ckaClass = none)
    (htype : gckAttributesFind attrs ckaKeyType = none) :
    gckAttributesFind (addRequired attrs klass algo) ckaClass =
        some ⟨ckaClass, .data (ulongBytes klass)⟩ ∧
      gckAttributesFind (addRequired attrs klass algo) ckaKeyType =
        some ⟨ckaKeyType, .data (ulongBytes algo)⟩ := by
  have hshape : addRequired attrs klass algo = attrs ++ [⟨ckaClass, .data (ulongBytes klass)⟩,
      ⟨ckaKeyType, .data (ulongBytes algo)⟩] := by
    simp [addRequired, gckAttributesAddUlong, gckAttributesAddData]
  rw [hshape, find_append_of_none hclass, find_append_of_none htype]
  exact ⟨rfl, rfl⟩

theorem find_addRequired_of_some {type klass algo : Nat} {attr : GckAttribute}
    (h : gckAttributesFind attrs type = some attr) :
    gckAttributesFind (addRequired attrs klass algo) type = some attr :=
  find_append_of_some (find_append_of_some h _) _

theorem find_addRequired_token (h : gckAttributesFind attrs ckaToken = none) :
    gckAttributesFind (addRequired attrs klass algo) ckaToken = none := by
  rw [addRequired, gckAttributesAddUlong, gckAttributesAddUlong, gckAttributesAddData,
    gckAttributesAddData, append_assoc, find_append_of_none h]
  rfl

/-- The pair that is made of the numbers of an RSA key. -/
theorem keyPair_rsa (hlen : values.length = rsaNumbers.length) :
    KeyPair ckkRsa (rsaPair (numberAttributes rsaNumbers values)).1
      (rsaPair (numberAttributes rsaNumbers values)).2 := by
  have hnone : ∀ t, t ∉ rsaNumbers → gckAttributesFind (numberAttributes rsaNumbers values) t = none :=
    fun t ht => find_numberAttributes_none values ht
  obtain ⟨n, hn⟩ := find_numberAttributes hlen (by decide : ckaModulus ∈ rsaNumbers)
  obtain ⟨e, he⟩ := find_numberAttributes hlen (by decide : ckaPublicExponent ∈ rsaNumbers)
  have hpub : [ckaModulus, ckaPublicExponent].foldl
      (copyAttribute (numberAttributes rsaNumbers values)) [] =
        [⟨ckaModulus, n⟩, ⟨ckaPublicExponent, e⟩] := by
    simp [copyAttribute, hn, he, gckAttributesAdd]
  have hlike : ∀ t ∈ likeNumbers ckkRsa, ∃ value,
      gckAttributesFind (numberAttributes rsaNumbers values) t = some ⟨t, value⟩ ∧
      gckAttributesFind [⟨ckaModulus, n⟩, ⟨ckaPublicExponent, e⟩] t = some ⟨t, value⟩ := by
    intro t ht
    have ht' : t = ckaModulus ∨ t = ckaPublicExponent := by simpa [likeNumbers] using ht
    rcases ht' with rfl | rfl
    · exact ⟨n, hn, rfl⟩
    · exact ⟨e, he, rfl⟩
  obtain ⟨hprivClass, hprivType⟩ := find_addRequired ckoPrivateKey ckkRsa
    (hnone ckaClass (by decide)) (hnone ckaKeyType (by decide))
  rw [rsaPair, hpub]
  exact
    { supported := .inl rfl
      privClass := hprivClass
      pubClass := (find_addRequired _ _ rfl rfl).1
      privType := hprivType
      pubType := (find_addRequired _ _ rfl rfl).2
      token := find_addRequired_token (hnone ckaToken (by decide))
      privNumbers := fun t ht => (hlike t ht).imp fun _ h => find_addRequired_of_some h.1
      pubNumbers := fun t ht => (hlike t ht).imp fun _ h => find_addRequired_of_some h.2
      rsaNumbers := fun _ t ht => by
        obtain ⟨value, hpriv, hpub⟩ := hlike t ht
        rw [find_addRequired_of_some hpriv, find_addRequired_of_some hpub] }

/-- The pair that is made of the numbers of a DSA key. -/
theorem keyPair_dsa (hlen : values.length = 3) (x y : GckValue) :
    KeyPair ckkDsa
      (addRequired (numberAttributes [ckaPrime, ckaSubprime, ckaBase] values ++ [⟨ckaValue, x⟩])
        ckoPrivateKey ckkDsa)
      (addRequired ([ckaPrime, ckaSubprime, ckaBase].foldl (copyAttribute
        (numberAttributes [ckaPrime, ckaSubprime, ckaBase] values ++ [⟨ckaValue, x⟩])) [⟨ckaValue, y⟩])
        ckoPublicKey ckkDsa) := by
  obtain ⟨p, q, g, rfl⟩ : ∃ p q g, values = [p, q, g] := length_eq_three.1 hlen
  have hpub : [ckaPrime, ckaSubprime, ckaBase].foldl (copyAttribute
      (numberAttributes [ckaPrime, ckaSubprime, ckaBase] [p, q, g] ++ [⟨ckaValue, x⟩]))
        [⟨ckaValue, y⟩] = [⟨ckaValue, y⟩, ⟨ckaPrime, p⟩, ⟨ckaSubprime, q⟩, ⟨ckaBase, g⟩] := rfl
  rw [hpub]
  have hlike : ∀ t ∈ likeNumbers ckkDsa,
      (∃ value, gckAttributesFind (numberAttributes [ckaPrime, ckaSubprime, ckaBase] [p, q, g] ++
        [⟨ckaValue, x⟩]) t = some ⟨t, value⟩) ∧
      ∃ value, gckAttributesFind [⟨ckaValue, y⟩, ⟨ckaPrime, p⟩, ⟨ckaSubprime, q⟩, ⟨ckaBase, g⟩] t =
        some ⟨t, value⟩ := by
    intro t ht
    have ht' : t = ckaPrime ∨ t = ckaSubprime ∨ t = ckaBase ∨ t = ckaValue := by
      simpa [likeNumbers] using ht
    rcases ht' with rfl | rfl | rfl | rfl
    · exact ⟨⟨p, rfl⟩, ⟨p, rfl⟩⟩
    · exact ⟨⟨q, rfl⟩, ⟨q, rfl⟩⟩
    · exact ⟨⟨g, rfl⟩, ⟨g, rfl⟩⟩
    · exact ⟨⟨x, rfl⟩, ⟨y, rfl⟩⟩
  exact
    { supported := .inr rfl
      privClass := (find_addRequired _ _ rfl rfl).1
      pubClass := (find_addRequired _ _ rfl rfl).1
      privType := (find_addRequired _ _ rfl rfl).2
      pubType := (find_addRequired _ _ rfl rfl).2
      token := find_addRequired_token rfl
      privNumbers := fun t ht => (hlike t ht).1.imp fun _ h => find_addRequired_of_some h
      pubNumbers := fun t ht => (hlike t ht).2.imp fun _ h => find_addRequired_of_some h
      rsaNumbers := fun h => nomatch h }

/-- The pair is that of some key. -/
def IsKeyPair (pair : GckAttributes × GckAttributes) : Prop := ∃ algo, KeyPair algo pair.1 pair.2

theorem finds_loadContraints (fuel : Nat) (h : IsKeyPair pair) : Finds (loadContraints fuel pair) IsKeyPair := by
  induction fuel generalizing pair with
  | zero => exact finds_pure h
  | succ fuel ih =>
    refine (finds_any _).bind fun more _ => ?_
    split
    · refine (finds_any _).bind fun constraint _ => ?_
      split
      · refine (finds_any _).bind fun lifetime _ => ih ?_
        obtain ⟨algo, hpair⟩ := h
        exact ⟨algo, hpair.addToBoth (by decide) _⟩
      · exact finds_stop
    · exact finds_pure h

theorem finds_pairRsa (h : Appends read) :
    Finds (readNumbers read rsaNumbers [] >>= fun priv => pure (rsaPair priv)) IsKeyPair := by
  refine (finds_numbers h rsaNumbers []).bind ?_
  rintro priv ⟨values, hlen, rfl⟩
  exact finds_pure ⟨ckkRsa, keyPair_rsa hlen⟩

theorem finds_readPair (algo : Nat) : Finds (readPair algo) IsKeyPair := by
  unfold readPair
  split
  · exact finds_pairRsa appends_mpi
  · refine (finds_numbers appends_mpi _ []).bind ?_
    rintro priv ⟨values, hlen, rfl⟩
    refine (appends_mpi _ _).bind ?_
    rintro pub ⟨y, rfl⟩
    refine (appends_mpi _ _).bind ?_
    rintro priv' ⟨x, rfl⟩
    exact finds_pure ⟨ckkDsa, keyPair_dsa hlen x y⟩

/-- The end of both requests. -/
theorem finds_labelled {r : Reader (GckAttributes × GckAttributes)} (h : Finds r IsKeyPair)
    (label : Option Bytes → Option Bytes) :
    Finds (do
      let pair ← r
      let comment ← get eggBufferGetString
      let length ← Prog.read fun c => c.req.len
      loadContraints length (addToBoth pair ckaLabel (label comment))) IsKeyPair := by
  refine h.bind fun pair hpair => (finds_any _).bind fun comment _ => (finds_any _).bind fun length _ => ?_
  obtain ⟨algo, hpair⟩ := hpair
  exact finds_loadContraints length ⟨algo, hpair.addToBoth (by decide) _⟩

variable {r : AddRequest}

/-- What is read from a packet is a key pair. -/
theorem AddRequest.read_keyPair (h : r.read = .ok (.ok pair)) : IsKeyPair pair := by
  have hfinds : Finds (if r.v1 then opV1AddIdentityRead else opAddIdentityRead) IsKeyPair := by
    split
    · exact (finds_any _).bind fun _ _ => finds_labelled (finds_pairRsa appends_mpiV1) fun _ => _
    · refine (finds_any _).bind fun stype _ => ?_
      split
      · exact finds_stop
      · exact finds_labelled (finds_readPair _) id
  rw [AddRequest.read] at h
  cases hx : (if r.v1 then opV1AddIdentityRead else opAddIdentityRead) ⟨r.req, 5⟩ with
  | error e =>
    rw [hx] at h
    cases h
  | ok x =>
    obtain ⟨result, c⟩ := x
    rw [hx] at h
    have hresult : result = .ok pair := Except.ok.inj h
    rw [hresult] at hx
    exact hfinds _ _ _ hx

/-! ## Keys like this one -/

/-- A number of a key, without leading zeros. -/
def keyNumber (attrs : GckAttributes) (type : Nat) : Option Bytes :=
  match gckAttributesFind attrs type with
  | some ⟨_, .data value⟩ => some (value.dropWhile (· = 0))
  | some ⟨_, .null⟩ => some []
  | _ => none

/-- Whether an object is a key of this class with the parameters of this key. -/
def KeyObject.isLike (klass : Nat) (attrs : GckAttributes) (o : KeyObject) : Bool :=
  match gckAttributesFindUlong attrs ckaKeyType with
  | none => false
  | some keyType =>
    o.getAttribute ckaClass == some (ulongBytes klass) &&
      o.getAttribute ckaKeyType == some (ulongBytes keyType) &&
      (likeNumbers keyType).all fun type => keyNumber o.attrs type == keyNumber attrs type

/-- The keys of this class with the parameters of this key. -/
def Session.keysLike (s : Session) (klass : Nat) (attrs : GckAttributes) : List KeyObject :=
  s.objects.filter (KeyObject.isLike klass attrs)

/-- The numbers that the search compares are as the module stores them. -/
def Canonical (priv : GckAttributes) : Prop :=
  ∀ t ∈ likeNumbers ckkRsa, ∃ first rest,
    gckAttributesFind priv t = some ⟨t, .data (first :: rest)⟩ ∧ first ≠ 0

/-- What is asked of a request to add a key. -/
structure Added (s : Session) (r : AddRequest) (answer : Answer) (s' : Session) : Prop where
  success : answer = .success → ∃ priv pub, r.read = .ok (.ok (priv, pub)) ∧
    (s'.keysLike ckoPrivateKey priv).length = 1 ∧ (s'.keysLike ckoPublicKey pub).length = 1
  failure : ∀ priv pub, r.read = .ok (.ok (priv, pub)) → r.outcome.created = false →
    answer = .failure ∧ s'.objects = s.objects

/-- The requests that do not reach a branch that goes wrong: the keys can be created when the session
is logged in, and the search finds all the keys that are to be replaced. It finds those of an RSA key
whose numbers have no leading zeros. -/
def Fit (s : Session) (r : AddRequest) : Prop :=
  ∀ priv pub, r.read = .ok (.ok (priv, pub)) → r.outcome.login = true →
    r.outcome.created = true ∧
      (gckAttributesFindUlong priv ckaKeyType = some ckkRsa ∧ Canonical priv ∨
        s.keysLike ckoPrivateKey priv = [] ∧ s.keysLike ckoPublicKey pub = [])

/-- Every request is `Fit` for the session in which it arrives. -/
def FitRequests : Session → List AddRequest → Prop
  | _, [] => True
  | s, r :: rs => Fit s r ∧ ∀ answer s', opAddIdentity s r = .ok (answer, s') → FitRequests s' rs

/-! ## What the search finds -/

variable {o : KeyObject}

/-- The value that the module gives for a number of a public or of an RSA key. -/
theorem getAttribute_number (hnumber : isNumber type = true) (htype : type ≠ ckaValue) {value : Bytes}
    (hne : value ≠ []) (h : keyNumber o.attrs type = some value) : o.getAttribute type = some value := by
  have htoken : type ≠ ckaToken := by
    rintro rfl
    cases hnumber
  rw [KeyObject.getAttribute, if_neg htoken, if_neg fun hv => htype hv.1]
  unfold keyNumber at h
  split at h
  · rename_i heq
    rw [heq]
    simp only [hnumber, if_true]
    exact h
  · exact absurd (Option.some.inj h).symm hne
  · cases h

variable {s : Session}

/-- The search finds the keys like a canonical RSA key, of both classes. -/
theorem mem_search_of_isLike {priv : GckAttributes} {klass : Nat} (ho : o ∈ s.objects)
    (hlike : o.isLike klass priv = true)
    (htype : gckAttributesFind priv ckaKeyType = some ⟨ckaKeyType, .data (ulongBytes ckkRsa)⟩)
    (htoken : gckAttributesFind priv ckaToken = some ⟨ckaToken, .data [0]⟩) (hcanonical : Canonical priv) :
    o.handle ∈ searchKeysLikeAttributes s priv klass := by
  have hkey : gckAttributesFindUlong priv ckaKeyType = some ckkRsa :=
    gckAttributesFindUlong_of_find htype (by decide)
  obtain ⟨n, ns, hn, hn0⟩ := hcanonical ckaModulus (by decide)
  obtain ⟨e, es, he, he0⟩ := hcanonical ckaPublicExponent (by decide)
  have hsearch : buildLikeAttributes priv klass = some [⟨ckaClass, .data (ulongBytes klass)⟩,
      ⟨ckaKeyType, .data (ulongBytes ckkRsa)⟩, ⟨ckaToken, .data [0]⟩, ⟨ckaModulus, .data (n :: ns)⟩,
      ⟨ckaPublicExponent, .data (e :: es)⟩] := by
    simp [buildLikeAttributes, hkey, likeNumbers, copyAttribute, htype, htoken, hn, he,
      gckAttributesAdd, gckAttributesAddUlong, gckAttributesAddData]
  rw [KeyObject.isLike, hkey] at hlike
  simp only [Bool.and_eq_true, beq_iff_eq, all_eq_true] at hlike
  obtain ⟨⟨hclass, hkeyType⟩, hnumbers⟩ := hlike
  have hmodulus : o.getAttribute ckaModulus = some (n :: ns) := by
    refine getAttribute_number rfl (by decide) (cons_ne_nil _ _) ?_
    rw [hnumbers ckaModulus (by decide), keyNumber, hn]
    exact congrArg some (dropWhile_cons_of_neg (by simpa using hn0))
  have hexponent : o.getAttribute ckaPublicExponent = some (e :: es) := by
    refine getAttribute_number rfl (by decide) (cons_ne_nil _ _) ?_
    rw [hnumbers ckaPublicExponent (by decide), keyNumber, he]
    exact congrArg some (dropWhile_cons_of_neg (by simpa using he0))
  have htok : o.getAttribute ckaToken = some [0] := if_pos rfl
  rw [searchKeysLikeAttributes, hsearch, mem_reverse]
  refine mem_map.2 ⟨o, mem_filter.2 ⟨ho, ?_⟩, rfl⟩
  simp [gkmObjectMatch, hclass, hkeyType, htok, hmodulus, hexponent]

/-! ## The step -/

theorem search_lt {klass handle : Nat} (h : handle ∈ searchKeysLikeAttributes s attrs klass) :
    handle < s.next := by
  unfold searchKeysLikeAttributes at h
  split at h
  · cases h
  · obtain ⟨o, ho, rfl⟩ := mem_map.1 (mem_reverse.1 h)
    exact s.fresh o (mem_filter.1 ho).1

/-- The keys of a kind that are left, when all the old ones of that kind are destroyed and none of the
new ones. -/
theorem filter_replaced {new : List KeyObject} {privPrev pubPrev : List Nat} {p : KeyObject → Bool}
    (hnew : ∀ o ∈ new, o.handle ∉ privPrev ∧ o.handle ∉ pubPrev)
    (hold : ∀ o ∈ s.objects, p o = true → o.handle ∈ privPrev ∨ o.handle ∈ pubPrev) :
    (((s.objects ++ new).filter fun o => o.handle ∉ privPrev).filter
      fun o => o.handle ∉ pubPrev).filter p = new.filter p := by
  rw [filter_filter, filter_filter, filter_append]
  have hnil : s.objects.filter (fun o => p o && decide (o.handle ∉ pubPrev) &&
      decide (o.handle ∉ privPrev)) = [] := by
    rw [filter_eq_nil_iff]
    intro o ho h
    simp only [Bool.and_eq_true, decide_eq_true_eq] at h
    rcases hold o ho h.1.1 with hmem | hmem
    · exact h.2 hmem
    · exact h.1.2 hmem
  rw [hnil, nil_append]
  apply filter_congr
  intro o ho
  simp [(hnew o ho).1, (hnew o ho).2]

theorem getAttribute_class {value : Bytes} (htype : type = ckaClass ∨ type = ckaKeyType)
    (h : gckAttributesFind attrs type = some ⟨type, .data value⟩) (handle : Nat) :
    KeyObject.getAttribute ⟨handle, attrs⟩ type = some value := by
  rcases htype with rfl | rfl
  · simp [KeyObject.getAttribute, h, isNumber]
  · simp [KeyObject.getAttribute, h, isNumber]

/-- An object with the attributes of a key is like that key. -/
theorem isLike_self (halgo : algo < 2 ^ 64)
    (hclass : gckAttributesFind attrs ckaClass = some ⟨ckaClass, .data (ulongBytes klass)⟩)
    (htype : gckAttributesFind attrs ckaKeyType = some ⟨ckaKeyType, .data (ulongBytes algo)⟩)
    (hnumbers : ∀ t ∈ likeNumbers algo, ∃ value, gckAttributesFind attrs t = some ⟨t, value⟩) (handle : Nat)
    (more : GckAttributes) :
    KeyObject.isLike klass attrs ⟨handle, attrs ++ more⟩ = true := by
  rw [KeyObject.isLike, gckAttributesFindUlong_of_find htype halgo]
  simp only [Bool.and_eq_true, beq_iff_eq, all_eq_true]
  refine ⟨⟨?_, ?_⟩, ?_⟩
  · exact getAttribute_class (.inl rfl) (find_append_of_some hclass more) handle
  · exact getAttribute_class (.inr rfl) (find_append_of_some htype more) handle
  · intro t ht
    obtain ⟨value, hvalue⟩ := hnumbers t ht
    rw [keyNumber, keyNumber, find_append_of_some hvalue more, hvalue]

/-- An object of another class is not. -/
theorem not_isLike_of_class {attrs attrs' : GckAttributes} {klass klass' : Nat}
    (hclass : gckAttributesFind attrs' ckaClass = some ⟨ckaClass, .data (ulongBytes klass')⟩)
    (hne : ulongBytes klass' ≠ ulongBytes klass) (handle : Nat) (more : GckAttributes) :
    KeyObject.isLike klass attrs ⟨handle, attrs' ++ more⟩ = false := by
  unfold KeyObject.isLike
  split
  · rfl
  · rw [getAttribute_class (.inl rfl) (find_append_of_some hclass more) handle]
    simp [hne]

/-- The objects that are created for a pair. -/
def newKeys (s : Session) (priv pub : GckAttributes) : List KeyObject :=
  [⟨s.next, gckAttributesAddBoolean priv ckaToken false⟩,
    ⟨s.next + 1, gckAttributesAddBoolean pub ckaToken false⟩]

/-- When the pair is created, the session has one key of each class with its parameters, provided that
all the old ones were found. -/
theorem replaceKeyPair_created {outcome : Outcome} {algo : Nat} (hpair : KeyPair algo priv pub)
    (hcreated : outcome.created = true) (hpriv : ∀ o ∈ s.objects, o.isLike ckoPrivateKey priv = true →
      o.handle ∈ searchKeysLikeAttributes s (gckAttributesAddBoolean priv ckaToken false) ckoPrivateKey)
    (hpub : ∀ o ∈ s.objects, o.isLike ckoPublicKey pub = true →
      o.handle ∈ searchKeysLikeAttributes s (gckAttributesAddBoolean priv ckaToken false) ckoPublicKey) :
    (replaceKeyPair s outcome priv pub).1 = true ∧
      ((replaceKeyPair s outcome priv pub).2.keysLike ckoPrivateKey priv).length = 1 ∧
      ((replaceKeyPair s outcome priv pub).2.keysLike ckoPublicKey pub).length = 1 := by
  obtain ⟨login, privOk, pubOk⟩ := outcome
  simp only [Outcome.created, Bool.and_eq_true] at hcreated
  obtain ⟨⟨rfl, rfl⟩, rfl⟩ := hcreated
  have halgo : algo < 2 ^ 64 := by
    rcases hpair.supported with rfl | rfl
    · decide
    · decide
  have hfresh : ∀ klass k, s.next ≤ k → k ∉ searchKeysLikeAttributes s
      (gckAttributesAddBoolean priv ckaToken false) klass := fun klass k hk hmem =>
    absurd (search_lt hmem) (Nat.not_lt.2 hk)
  have hnew : ∀ o ∈ newKeys s priv pub,
      o.handle ∉ searchKeysLikeAttributes s (gckAttributesAddBoolean priv ckaToken false)
        ckoPrivateKey ∧
      o.handle ∉ searchKeysLikeAttributes s (gckAttributesAddBoolean priv ckaToken false)
        ckoPublicKey := by
    intro o ho
    rcases mem_pair.1 ho with rfl | rfl
    · exact ⟨hfresh _ _ (Nat.le_refl _), hfresh _ _ (Nat.le_refl _)⟩
    · exact ⟨hfresh _ _ (Nat.le_succ _), hfresh _ _ (Nat.le_succ _)⟩
  have hobjects : (replaceKeyPair s ⟨true, true, true⟩ priv pub).2.objects =
      ((s.objects ++ newKeys s priv pub).filter fun o => o.handle ∉
          searchKeysLikeAttributes s (gckAttributesAddBoolean priv ckaToken false)
            ckoPrivateKey).filter fun o => o.handle ∉
          searchKeysLikeAttributes s (gckAttributesAddBoolean priv ckaToken false) ckoPublicKey := by
    show ((((s.objects ++ [_]) ++ [_]).filter _).filter _) = _
    rw [append_assoc]
    rfl
  have hprivLike : KeyObject.isLike ckoPrivateKey priv
      ⟨s.next, gckAttributesAddBoolean priv ckaToken false⟩ = true :=
    isLike_self halgo hpair.privClass hpair.privType hpair.privNumbers s.next _
  have hpubNot : ¬ KeyObject.isLike ckoPrivateKey priv
      ⟨s.next + 1, gckAttributesAddBoolean pub ckaToken false⟩ = true :=
    Bool.not_eq_true _ ▸ not_isLike_of_class hpair.pubClass (by decide) _ _
  have hpubLike : KeyObject.isLike ckoPublicKey pub
      ⟨s.next + 1, gckAttributesAddBoolean pub ckaToken false⟩ = true :=
    isLike_self halgo hpair.pubClass hpair.pubType hpair.pubNumbers (s.next + 1) _
  have hprivNot : ¬ KeyObject.isLike ckoPublicKey pub
      ⟨s.next, gckAttributesAddBoolean priv ckaToken false⟩ = true :=
    Bool.not_eq_true _ ▸ not_isLike_of_class hpair.privClass (by decide) _ _
  refine ⟨rfl, ?_, ?_⟩
  · rw [Session.keysLike, hobjects, filter_replaced hnew fun o ho hlike => .inl (hpriv o ho hlike),
      newKeys, filter_cons_of_pos hprivLike, filter_cons_of_neg hpubNot]
    rfl
  · rw [Session.keysLike, hobjects, filter_replaced hnew fun o ho hlike => .inr (hpub o ho hlike),
      newKeys, filter_cons_of_neg hprivNot, filter_cons_of_pos hpubLike]
    rfl

/-- The token attribute makes no difference to what a key is like. -/
theorem isLike_withToken (o : KeyObject)
    (htype : gckAttributesFind attrs ckaKeyType = some ⟨ckaKeyType, .data (ulongBytes algo)⟩)
    (hnumbers : ∀ t ∈ likeNumbers algo, ∃ value, gckAttributesFind attrs t = some ⟨t, value⟩)
    (halgo : algo < 2 ^ 64) :
    o.isLike klass (gckAttributesAddBoolean attrs ckaToken false) = o.isLike klass attrs := by
  have htype' : gckAttributesFind (gckAttributesAddBoolean attrs ckaToken false) ckaKeyType =
      some ⟨ckaKeyType, .data (ulongBytes algo)⟩ := find_append_of_some htype _
  rw [KeyObject.isLike, KeyObject.isLike, gckAttributesFindUlong_of_find htype halgo,
    gckAttributesFindUlong_of_find htype' halgo]
  dsimp only
  congr 1
  rw [Bool.eq_iff_iff, all_eq_true, all_eq_true]
  refine forall₂_congr fun t ht => ?_
  obtain ⟨value, hvalue⟩ := hnumbers t ht
  have hvalue' : gckAttributesFind (gckAttributesAddBoolean attrs ckaToken false) t =
      some ⟨t, value⟩ := find_append_of_some hvalue _
  rw [keyNumber, keyNumber, keyNumber, hvalue, hvalue']

/-- The search with the attributes of a canonical RSA key finds the keys like it, and those like its
public key, which has the same numbers. -/
theorem KeyPair.search_rsa (h : KeyPair ckkRsa priv pub) (hcanonical : Canonical priv) {klass : Nat}
    (ho : o ∈ s.objects) (hlike : o.isLike klass priv = true) :
    o.handle ∈ searchKeysLikeAttributes s (gckAttributesAddBoolean priv ckaToken false) klass := by
  refine mem_search_of_isLike ho ?_ (find_append_of_some h.privType _)
    ((find_append_of_none h.token _).trans rfl) ?_
  · rw [isLike_withToken o h.privType h.privNumbers (by decide)]
    exact hlike
  · intro t ht
    obtain ⟨first, rest, hfind, hfirst⟩ := hcanonical t ht
    exact ⟨first, rest, find_append_of_some hfind _, hfirst⟩

theorem KeyPair.isLike_pub (h : KeyPair ckkRsa priv pub) (klass : Nat) (o : KeyObject) :
    o.isLike klass pub = o.isLike klass priv := by
  rw [KeyObject.isLike, KeyObject.isLike, gckAttributesFindUlong_of_find h.privType (by decide),
    gckAttributesFindUlong_of_find h.pubType (by decide)]
  dsimp only
  congr 1
  rw [Bool.eq_iff_iff, all_eq_true, all_eq_true]
  refine forall₂_congr fun t ht => ?_
  rw [keyNumber, keyNumber, keyNumber, h.rsaNumbers rfl t ht]

theorem opAddIdentity_of_read (h : r.read = .ok (.ok (priv, pub))) (s : Session) :
    opAddIdentity s r = .ok (if (replaceKeyPair s r.outcome priv pub).1 then .success else .failure,
      (replaceKeyPair s r.outcome priv pub).2) := by
  rw [opAddIdentity, h]
  rfl

/-- One request. -/
theorem opAddIdentity_added (hfit : Fit s r) :
    ∃ answer s', opAddIdentity s r = .ok (answer, s') ∧ Added s r answer s' := by
  obtain ⟨x, hx⟩ := r.read_total
  cases x with
  | error u =>
    have hop : opAddIdentity s r = .ok (.closed, s) := by
      rw [opAddIdentity, hx]
      rfl
    refine ⟨.closed, s, hop, ⟨fun h => Answer.noConfusion h, ?_⟩⟩
    intro priv pub hread
    rw [hx] at hread
    cases hread
  | ok pair =>
    obtain ⟨priv, pub⟩ := pair
    obtain ⟨algo, hpair⟩ := AddRequest.read_keyPair hx
    have hop := opAddIdentity_of_read hx s
    cases hlogin : r.outcome.login with
    | false =>
      have hreplace : replaceKeyPair s r.outcome priv pub = (false, s) := by
        rw [replaceKeyPair, hlogin]
        rfl
      rw [hreplace] at hop
      exact ⟨.failure, s, hop, ⟨fun h => Answer.noConfusion h, fun _ _ _ _ => ⟨rfl, rfl⟩⟩⟩
    | true =>
      obtain ⟨hcreated, hfound⟩ := hfit priv pub hx hlogin
      have hall : (∀ o ∈ s.objects, o.isLike ckoPrivateKey priv = true → o.handle ∈
          searchKeysLikeAttributes s (gckAttributesAddBoolean priv ckaToken false) ckoPrivateKey) ∧
          ∀ o ∈ s.objects, o.isLike ckoPublicKey pub = true → o.handle ∈
            searchKeysLikeAttributes s (gckAttributesAddBoolean priv ckaToken false)
              ckoPublicKey := by
        rcases hfound with ⟨hrsa, hcanonical⟩ | ⟨hnopriv, hnopub⟩
        · have halgo : algo = ckkRsa := by
            have hbound : algo < 2 ^ 64 := by
              rcases hpair.supported with h | h <;> rw [h] <;> decide
            rw [gckAttributesFindUlong_of_find hpair.privType hbound] at hrsa
            exact Option.some.inj hrsa
          subst halgo
          refine ⟨fun o ho hlike => hpair.search_rsa hcanonical ho hlike, fun o ho hlike => ?_⟩
          rw [hpair.isLike_pub] at hlike
          exact hpair.search_rsa hcanonical ho hlike
        · refine ⟨fun o ho hlike => ?_, fun o ho hlike => ?_⟩
          · exact absurd hlike (filter_eq_nil_iff.1 hnopriv o ho)
          · exact absurd hlike (filter_eq_nil_iff.1 hnopub o ho)
      obtain ⟨hanswer, hone⟩ := replaceKeyPair_created hpair hcreated hall.1 hall.2
      rw [hanswer] at hop
      refine ⟨.success, _, hop, ⟨fun _ => ⟨priv, pub, hx, hone⟩, ?_⟩⟩
      intro priv' pub' _ hnot
      exact absurd (hcreated.symm.trans hnot) (by decide)

theorem addIdentities_cons {s s' : Session} {rs : List AddRequest} {answer : Answer}
    {steps : List (Session × AddRequest × Answer × Session)} (hop : opAddIdentity s r = .ok (answer, s'))
    (hsteps : addIdentities s' rs = .ok steps) :
    addIdentities s (r :: rs) = .ok ((s, r, answer, s') :: steps) := by
  rw [addIdentities, hop]
  show (do
    let rest ← addIdentities s' rs
    pure ((s, r, answer, s') :: rest)) = _
  rw [hsteps]
  rfl

/-- Every sequence of requests that are fit. -/
theorem identities_replaced {s : Session} {rs : List AddRequest} (hfit : FitRequests s rs) :
    ∃ steps, addIdentities s rs = .ok steps ∧ steps.map (fun step => step.2.1) = rs ∧
      ∀ step ∈ steps, Added step.1 step.2.1 step.2.2.1 step.2.2.2 := by
  induction rs generalizing s with
  | nil => exact ⟨[], rfl, rfl, fun _ h => nomatch h⟩
  | cons r rs ih =>
    obtain ⟨answer, s', hop, hadded⟩ := opAddIdentity_added hfit.1
    obtain ⟨steps, hsteps, hrequests, hall⟩ := ih (hfit.2 answer s' hop)
    refine ⟨(s, r, answer, s') :: steps, ?_, ?_, ?_⟩
    · exact addIdentities_cons hop hsteps
    · rw [map_cons, hrequests]
    · intro step hstep
      rcases mem_cons.1 hstep with rfl | hstep
      · exact hadded
      · exact hall step hstep

/-! ## Samples -/

/-- A packet that adds a key, with numbers of one byte each. -/
def samplePacket (type : String) (numbers : Bytes) : EggBuffer :=
  eggBufferInitStatic (BigEndian.encode 4 0 ++ [17] ++ byteArrayBytes (some (ascii type)) ++
    numbers.flatMap (fun n => byteArrayBytes (some [n])) ++ byteArrayBytes (some (ascii "key")))

/-- An RSA key. -/
def sampleRsaRequest (priv : Bool) : AddRequest :=
  { v1 := false, req := samplePacket "ssh-rsa" [33, 3, 7, 2, 3, 11], outcome := ⟨true, priv, true⟩ }

/-- A DSA key. -/
def sampleDsaRequest : AddRequest :=
  { v1 := false, req := samplePacket "ssh-dss" [23, 11, 2, 8, 3], outcome := ⟨true, true, true⟩ }

/-- A session without objects. -/
def emptySession : Session := { objects := [], next := 1, fresh := fun _ h => nomatch h }

/-- The private and the public key of the RSA sample. -/
def sampleRsaPair : GckAttributes × GckAttributes :=
  (([(ckaModulus, 33), (ckaPublicExponent, 3), (ckaPrivateExponent, 7), (ckaCoefficient, 2),
      (ckaPrime1, 3), (ckaPrime2, 11)].map fun tv => ⟨tv.1, .data [tv.2]⟩) ++
    [⟨ckaClass, .data (ulongBytes ckoPrivateKey)⟩, ⟨ckaKeyType, .data (ulongBytes ckkRsa)⟩,
      ⟨ckaLabel, .data (ascii "key")⟩],
  [⟨ckaModulus, .data [33]⟩, ⟨ckaPublicExponent, .data [3]⟩,
    ⟨ckaClass, .data (ulongBytes ckoPublicKey)⟩, ⟨ckaKeyType, .data (ulongBytes ckkRsa)⟩,
    ⟨ckaLabel, .data (ascii "key")⟩])

/-- The private and the public key of the DSA sample. -/
def sampleDsaPair : GckAttributes × GckAttributes :=
  (([(ckaPrime, 23), (ckaSubprime, 11), (ckaBase, 2), (ckaValue, 3)].map
      fun tv => ⟨tv.1, .data [tv.2]⟩) ++
    [⟨ckaClass, .data (ulongBytes ckoPrivateKey)⟩, ⟨ckaKeyType, .data (ulongBytes ckkDsa)⟩,
      ⟨ckaLabel, .data (ascii "key")⟩],
  ([(ckaValue, 8), (ckaPrime, 23), (ckaSubprime, 11), (ckaBase, 2)].map
      fun tv => ⟨tv.1, .data [tv.2]⟩) ++
    [⟨ckaClass, .data (ulongBytes ckoPublicKey)⟩, ⟨ckaKeyType, .data (ulongBytes ckkDsa)⟩,
      ⟨ckaLabel, .data (ascii "key")⟩])

/-- What a packet holds, if it can be read. -/
def readResultOf {α : Type} : Checked (Except Unit α) → Option α
  | .ok (.ok a) => some a
  | _ => none

theorem eq_of_readResultOf {α : Type} {x : Checked (Except Unit α)} {a : α}
    (h : readResultOf x = some a) : x = .ok (.ok a) := by
  unfold readResultOf at h
  split at h
  · rw [Option.some.inj h]
  · cases h

theorem read_sampleRsaRequest (priv : Bool) : (sampleRsaRequest priv).read = .ok (.ok sampleRsaPair) :=
  eq_of_readResultOf (by cases priv <;> decide +kernel)

theorem read_sampleDsaRequest : sampleDsaRequest.read = .ok (.ok sampleDsaPair) :=
  eq_of_readResultOf (by decide +kernel)

/-- The RSA sample is fit for every session. -/
theorem fit_sampleRsaRequest (s : Session) : Fit s (sampleRsaRequest true) := by
  intro priv pub hread _
  rw [read_sampleRsaRequest true] at hread
  have hpair : sampleRsaPair = (priv, pub) := Except.ok.inj (Except.ok.inj hread)
  have hpriv : priv = sampleRsaPair.1 := (congrArg Prod.fst hpair).symm
  refine ⟨rfl, .inl ⟨?_, ?_⟩⟩
  · rw [hpriv]
    decide
  · intro t ht
    have ht' : t = ckaModulus ∨ t = ckaPublicExponent := by simpa [likeNumbers] using ht
    rw [hpriv]
    rcases ht' with rfl | rfl
    · exact ⟨33, [], rfl, by decide⟩
    · exact ⟨3, [], rfl, by decide⟩

theorem identities_replaced_sample :
    ∃ steps, addIdentities emptySession [sampleRsaRequest true, sampleRsaRequest true] = .ok steps ∧
      steps.map (fun step => step.2.1) = [sampleRsaRequest true, sampleRsaRequest true] ∧
      ∀ step ∈ steps, Added step.1 step.2.1 step.2.2.1 step.2.2.2 :=
  identities_replaced ⟨fit_sampleRsaRequest _, fun _ _ _ => ⟨fit_sampleRsaRequest _, fun _ _ _ => trivial⟩⟩

/-- A private key that could not be created is answered with success; and a DSA key that is added twice
is there twice. -/
theorem identities_not_replaced :
    (¬ ∃ steps, addIdentities emptySession [sampleRsaRequest false] = .ok steps ∧
      ∀ step ∈ steps, Added step.1 step.2.1 step.2.2.1 step.2.2.2) ∧
    (¬ ∃ steps, addIdentities emptySession [sampleDsaRequest, sampleDsaRequest] = .ok steps ∧
      ∀ step ∈ steps, Added step.1 step.2.1 step.2.2.1 step.2.2.2) := by
  refine ⟨?_, ?_⟩
  · rintro ⟨steps, hrun, hall⟩
    have hop := opAddIdentity_of_read (read_sampleRsaRequest false) emptySession
    rw [addIdentities_cons hop rfl] at hrun
    cases hrun
    have hadded := hall _ mem_cons_self
    have hanswer := (hadded.failure _ _ (read_sampleRsaRequest false) rfl).1
    revert hanswer
    decide +kernel
  · rintro ⟨steps, hrun, hall⟩
    have hop := opAddIdentity_of_read read_sampleDsaRequest
    rw [addIdentities_cons (hop emptySession) (addIdentities_cons (hop _) rfl)] at hrun
    cases hrun
    have hadded := hall _ (mem_cons_of_mem _ mem_cons_self)
    obtain ⟨priv, pub, hread, hone, -⟩ := hadded.success (by decide +kernel)
    rw [read_sampleDsaRequest] at hread
    have hpair : sampleDsaPair = (priv, pub) := Except.ok.inj (Except.ok.inj hread)
    rw [show priv = sampleDsaPair.1 from (congrArg Prod.fst hpair).symm] at hone
    revert hone
    decide +kernel

end MateKeyring.Ssh
