import MateKeyring.Rpc.Message

/-!
# The wrap layer

`gkm-wrap-layer.c` puts the slots of several PKCS#11 modules side by side. Its slot ids are offsets
into the array `wrap_mappings`, counted from `PLEX_MAPPING_OFFSET`; its session handles are drawn
from a counter and looked up in `wrap_sessions`.

The modules below answer each call as they like: the answers are arguments of the call
(`InitAnswer`, and the codes of the other calls). What they have to keep to is that an open session
is not given out again, so the state remembers which sessions are open below (`lower`). It also
remembers what the callers hold: for every handle that `wrap_C_OpenSession` returned and that is not
closed yet, the module and the session the lower `C_OpenSession` gave for it (`given`).
-/

set_option autoImplicit false

namespace MateKeyring.Wrap

open Rpc (CkRv ckrOk ckrBufferTooSmall)

abbrev ckrSlotIdInvalid : CkRv := 0x3
abbrev ckrSessionHandleInvalid : CkRv := 0xb3
abbrev ckrCryptokiNotInitialized : CkRv := 0x190
abbrev ckrCryptokiAlreadyInitialized : CkRv := 0x191

/-- `PLEX_MAPPING_OFFSET`. -/
abbrev plexMappingOffset : Nat := 0x10

/-- A module below, known by its function list. -/
abbrev Funcs := Nat

/-- `Mapping`. -/
structure Mapping where
  wrapSlot : Nat
  realSlot : Nat
  funcs : Funcs
  deriving DecidableEq, Repr

/-- `Session`. The handle is a `gint`, kept as the 32-bit number with the same bits. -/
structure Session where
  wrapSession : Nat
  realSession : Nat
  appId : Nat
  wrapSlot : Nat
  deriving DecidableEq, Repr

/-- The variables of the wrap layer. A freed array or table is `none`. -/
structure WrapLayer where
  wrapModules : List Funcs
  wrapMappings : Option (List Mapping)
  nWrapMappings : Nat
  wrapSessions : Option (List Session)
  lastHandle : Nat
  deriving DecidableEq, Repr

/-- The conversion of a handle to `gint`. -/
def toGint (handle : Nat) : Nat := handle % 2 ^ 32

/-- The conversion of a `gint` to `CK_ULONG`, which extends the sign. -/
def toUlong (key : Nat) : Nat := if key < 2 ^ 31 then key else key + (2 ^ 64 - 2 ^ 32)

theorem toGint_toUlong {key : Nat} (h : key < 2 ^ 32) : toGint (toUlong key) = key := by
  unfold toGint toUlong
  split <;> omega

/-! ## Slots and sessions -/

/-- `map_slot_unlocked`: a code that refuses the slot, or its mapping. -/
def mapSlotUnlocked (w : WrapLayer) (slot : Nat) : Checked (Except CkRv Mapping) :=
  match w.wrapMappings with
  | none => .ok (.error ckrCryptokiNotInitialized)
  | some mappings =>
    if slot < plexMappingOffset then .ok (.error ckrSlotIdInvalid)
    else if slot - plexMappingOffset > w.nWrapMappings then .ok (.error ckrSlotIdInvalid)
    else
      match mappings[slot - plexMappingOffset]? with
      | none => .error .outOfBounds
      | some mapping => .ok (.ok mapping)

/-- Look a handle up in `wrap_sessions`. -/
def lookup (sessions : List Session) (key : Nat) : Option Session :=
  sessions.find? fun sess => sess.wrapSession = key

/-- `map_session_to_real`: a code that refuses the handle, or the real handle and the mapping. -/
def mapSessionToReal (w : WrapLayer) (handle : Nat) :
    Checked (Except CkRv (Nat × Mapping)) :=
  match w.wrapSessions with
  | none => .ok (.error ckrCryptokiNotInitialized)
  | some sessions =>
    match lookup sessions (toGint handle) with
    | none => .ok (.error ckrSessionHandleInvalid)
    | some sess => do
        match ← mapSlotUnlocked w sess.wrapSlot with
        | .error rv => pure (.error rv)
        | .ok mapping => pure (.ok (sess.realSession, mapping))

/-! ## Starting and stopping -/

/-- What a module answers to `wrap_C_Initialize`: to `C_Initialize`, to the first `C_GetSlotList`
and to the second one. -/
structure InitAnswer where
  initRv : CkRv
  countRv : CkRv
  count : Nat
  listRv : CkRv
  slots : List Nat

/-- Add a mapping for each of the slots of a module. -/
def addSlots (funcs : Funcs) : List Nat → List Mapping → List Mapping
  | [], mappings => mappings
  | slot :: slots, mappings =>
    addSlots funcs slots (mappings ++ [⟨mappings.length + plexMappingOffset, slot, funcs⟩])

/-- The loop over the modules: the code, the mappings, and how many modules were done with. The
`i`-th module gives the answers `answer i`. -/
def initModules (answer : Nat → InitAnswer) :
    List Funcs → Nat → List Mapping → CkRv × List Mapping × Nat
  | [], i, mappings => (ckrOk, mappings, i)
  | funcs :: rest, i, mappings =>
    let a := answer i
    if a.initRv ≠ ckrOk ∧ a.initRv ≠ ckrCryptokiAlreadyInitialized then
      (a.initRv, mappings, i)
    else if a.countRv ≠ ckrOk then (a.countRv, mappings, i)
    else if a.count = 0 then initModules answer rest (i + 1) mappings
    else if a.listRv ≠ ckrOk then (a.listRv, mappings, i)
    else initModules answer rest (i + 1) (addSlots funcs a.slots mappings)

/-- The array that `g_array_free` hands over: it has no memory when nothing was appended. -/
def handOver (mappings : List Mapping) : Option (List Mapping) :=
  if mappings = [] then none else some mappings

/-- `wrap_C_Initialize`: the code and the modules it finalizes because a later one failed. -/
def wrapCInitialize (w : WrapLayer) (answer : Nat → InitAnswer) :
    CkRv × List Funcs × WrapLayer :=
  if w.wrapMappings.isSome then (ckrCryptokiAlreadyInitialized, [], w)
  else
    match initModules answer w.wrapModules 0 [] with
    | (rv, mappings, i) =>
      if rv = ckrOk then
        (rv, [], { w with wrapMappings := handOver mappings, nWrapMappings := mappings.length,
                          wrapSessions := some [] })
      else (rv, w.wrapModules.take i, w)

/-- `wrap_C_Finalize`. The count of the mappings stays as it was. -/
def wrapCFinalize (w : WrapLayer) : WrapLayer :=
  { w with wrapMappings := none, wrapSessions := none }

/-! ## The slot list -/

/-- What `wrap_mappings[i]` is. -/
def mappingAt (w : WrapLayer) (i : Nat) : Checked Mapping :=
  match w.wrapMappings with
  | none => .error .nullPointer
  | some mappings =>
    match mappings[i]? with
    | none => .error .outOfBounds
    | some mapping => .ok mapping

/-- The answer of `C_GetSlotInfo` for the `i`-th mapping, whose functions are called; without
`token_present` nobody is asked. -/
def slotInfo (w : WrapLayer) (tokenPresent : Bool) (info : Nat → CkRv × Bool) (i : Nat) :
    Checked (CkRv × Bool) := do
  if tokenPresent then
    let _ ← mappingAt w i
    pure (info i)
  else pure (ckrOk, true)

/-- The loop of `wrap_C_GetSlotList` from `i` on, with `fuel` more mappings to look at: the code, the
slots that are written and the last `index`. There is room for `room` slots. -/
def slotListFrom (w : WrapLayer) (tokenPresent : Bool) (info : Nat → CkRv × Bool) (room : Nat) :
    Nat → Nat → Nat → Checked (CkRv × List Nat × Nat)
  | 0, _, index => .ok (ckrOk, [], index)
  | fuel + 1, i, index => do
      let (rv, present) ← slotInfo w tokenPresent info i
      if rv ≠ ckrOk then pure (rv, [], index)
      else if ¬ present then slotListFrom w tokenPresent info room fuel (i + 1) index
      else if index < room then
        let mapping ← mappingAt w i
        let (rv, slots, last) ← slotListFrom w tokenPresent info room fuel (i + 1) (index + 1)
        pure (rv, mapping.wrapSlot :: slots, last)
      else slotListFrom w tokenPresent info room fuel (i + 1) (index + 1)

/-- `wrap_C_GetSlotList`: the code, the slots written to `slot_list` and the new `count`. A null
`slot_list` is `none`, otherwise it has room for that many slots. -/
def wrapCGetSlotList (w : WrapLayer) (tokenPresent : Bool) (info : Nat → CkRv × Bool)
    (slotList : Option Nat) : Checked (CkRv × List Nat × Nat) := do
  let (rv, slots, index) ← slotListFrom w tokenPresent info (slotList.getD 0) w.nWrapMappings 0 0
  pure (if slotList.any (· < index) then ckrBufferTooSmall else rv, slots, index)

/-! ## Sessions -/

/-- `CKF_G_APPLICATION_SESSION`. -/
def isApplicationSession (flags : Nat) : Bool := flags.testBit 30

/-- What the lower `C_OpenSession` answers: the code, the session, and the application id that
`user_data` has afterwards. `junk` is what the fresh memory of the session record holds. -/
structure OpenAnswer where
  rv : CkRv
  session : Nat
  applicationId : Nat
  junk : Nat

/-- The record that `wrap_C_OpenSession` adds. -/
def newSession (w : WrapLayer) (flags : Nat) (mapping : Mapping) (a : OpenAnswer) : Session :=
  { wrapSession := toGint (w.lastHandle + 1)
    realSession := a.session
    appId := if isApplicationSession flags then a.applicationId else a.junk
    wrapSlot := mapping.wrapSlot }

/-- `g_hash_table_replace`. -/
def replace (sessions : List Session) (sess : Session) : List Session :=
  sess :: sessions.filter fun s => s.wrapSession ≠ sess.wrapSession

/-- `wrap_C_OpenSession`: a code, or the handle and the module the session is in. -/
def wrapCOpenSession (w : WrapLayer) (id flags : Nat) (a : OpenAnswer) :
    Checked (Except CkRv (Nat × Funcs) × WrapLayer) := do
  match ← mapSlotUnlocked w id with
  | .error rv => pure (.error rv, w)
  | .ok mapping =>
    if a.rv ≠ ckrOk then pure (.error a.rv, w)
    else
      let sess := newSession w flags mapping a
      pure (.ok (toUlong sess.wrapSession, mapping.funcs),
        { w with wrapSessions := w.wrapSessions.map fun sessions => replace sessions sess,
                 lastHandle := toGint (w.lastHandle + 1) })

/-- `wrap_C_CloseSession`, when the lower module answers `rv`: a code, or the session that was
closed below. -/
def wrapCCloseSession (w : WrapLayer) (handle : Nat) (rv : CkRv) :
    Checked (Except CkRv (Funcs × Nat) × WrapLayer) := do
  match ← mapSessionToReal w handle with
  | .error rv => pure (.error rv, w)
  | .ok (real, mapping) =>
    if rv ≠ ckrOk then pure (.error rv, w)
    else
      pure (.ok (mapping.funcs, real),
        { w with wrapSessions := w.wrapSessions.map fun sessions =>
                   sessions.filter fun s => s.wrapSession ≠ toGint handle })

/-- The handles that `wrap_C_CloseAllSessions` collects. Without a table the iterator is never
initialised. -/
def toClose (w : WrapLayer) (id : Nat) : Checked (List Nat) :=
  match w.wrapSessions with
  | none => .error .nullPointer
  | some sessions =>
    .ok ((sessions.filter fun s => s.appId ||| s.wrapSlot = id).map fun s =>
      toUlong s.wrapSession)

/-! ## Calls -/

/-- What a caller holds: a handle of the wrap layer, and the module and session it stands for. -/
structure Given where
  handle : Nat
  funcs : Funcs
  session : Nat
  deriving DecidableEq, Repr

/-- The wrap layer, the sessions that are open in the modules below, and what the callers hold. -/
structure System where
  layer : WrapLayer
  lower : List (Funcs × Nat)
  given : List Given
  deriving DecidableEq, Repr

/-- The calls, each with the answers of the modules below. -/
inductive Call where
  | cInitialize (answer : Nat → InitAnswer)
  | cFinalize
  | cGetSlotList (tokenPresent : Bool) (info : Nat → CkRv × Bool) (slotList : Option Nat)
  | cOpenSession (id flags : Nat) (answer : OpenAnswer)
  | cCloseSession (handle : Nat) (rv : CkRv)
  | cCloseAllSessions (id : Nat) (rv : Nat → CkRv)

/-- The daemon before the first call. -/
def start (modules : List Funcs) : System :=
  { layer := ⟨modules, none, 0, none, 16⟩, lower := [], given := [] }

/-- Modules below are finalized: their sessions are gone. -/
def System.finalizeLower (s : System) (modules : List Funcs) : System :=
  { s with lower := s.lower.filter fun e => e.1 ∉ modules }

/-- A session was closed, and its handle with it. -/
def System.closed (s : System) (handle : Nat) (e : Funcs × Nat) : System :=
  { s with lower := s.lower.filter (· ≠ e),
           given := s.given.filter fun g => toGint g.handle ≠ toGint handle }

/-- `wrap_C_CloseSession`. -/
def closeSession (s : System) (handle : Nat) (rv : CkRv) : Checked System := do
  match ← wrapCCloseSession s.layer handle rv with
  | (.error _, layer) => pure { s with layer := layer }
  | (.ok e, layer) => pure ({ s with layer := layer }.closed handle e)

/-- Close the handles one after the other; the `i`-th is answered `rv i`. -/
def closeSessions (rv : Nat → CkRv) : List Nat → Nat → System → Checked System
  | [], _, s => .ok s
  | handle :: handles, i, s => do
      let s ← closeSession s handle (rv i)
      closeSessions rv handles (i + 1) s

/-- `wrap_C_CloseAllSessions`. -/
def closeAllSessions (s : System) (id : Nat) (rv : Nat → CkRv) : Checked System := do
  let handles ← toClose s.layer id
  closeSessions rv handles 0 s

/-- `wrap_C_OpenSession`. -/
def openSession (s : System) (id flags : Nat) (a : OpenAnswer) : Checked System := do
  match ← wrapCOpenSession s.layer id flags a with
  | (.error _, layer) => pure { s with layer := layer }
  | (.ok (handle, funcs), layer) =>
    pure { layer := layer, lower := (funcs, a.session) :: s.lower,
           given := ⟨handle, funcs, a.session⟩ :: s.given }

/-- What a call does. -/
def step (s : System) : Call → Checked System
  | .cInitialize answer =>
    match wrapCInitialize s.layer answer with
    | (_, finalized, layer) => .ok ({ s with layer := layer }.finalizeLower finalized)
  | .cFinalize =>
    .ok { s.finalizeLower s.layer.wrapModules with layer := wrapCFinalize s.layer, given := [] }
  | .cGetSlotList tokenPresent info slotList => do
      let _ ← wrapCGetSlotList s.layer tokenPresent info slotList
      pure s
  | .cOpenSession id flags a => openSession s id flags a
  | .cCloseSession handle rv => closeSession s handle rv
  | .cCloseAllSessions id rv => closeAllSessions s id rv

end MateKeyring.Wrap
