import MateKeyring.Egg.Buffer

/-!
# Call identifiers and signatures of the PKCS#11 protocol

The tables of `gkm-rpc-private.h`: the calls, and for each call the signature of its request and
of its response. A signature is a word over `SigChar`; it travels in every message, one octet a
letter, and both ends check each argument they write or read against it.
-/

set_option autoImplicit false

namespace MateKeyring.Rpc

/-- A letter of a signature: `a` array of, `f` buffer for, `attr` (`A`) `CK_ATTRIBUTE`, `mech`
(`M`) `CK_MECHANISM`, `u` `CK_ULONG`, `s` space padded string, `v` `CK_VERSION`, `y` `CK_BYTE`,
`z` null terminated string. -/
inductive SigChar where
  | a | attr | f | mech | u | s | v | y | z
  deriving DecidableEq, Repr

/-- A signature. -/
abbrev Signature := List SigChar

/-- The octet of a letter. -/
def SigChar.toByte : SigChar → UInt8
  | .a => 97
  | .attr => 65
  | .f => 102
  | .mech => 77
  | .u => 117
  | .s => 115
  | .v => 118
  | .y => 121
  | .z => 122

/-- The octets of a signature. -/
def Signature.bytes (sig : Signature) : Bytes := sig.map SigChar.toByte

/-- `GKM_RPC_CALL_C_*`. -/
inductive CallId where
  | cInitialize | cFinalize | cGetInfo | cGetSlotList | cGetSlotInfo | cGetTokenInfo
  | cGetMechanismList | cGetMechanismInfo | cInitToken | cWaitForSlotEvent | cOpenSession
  | cCloseSession | cCloseAllSessions | cGetFunctionStatus | cCancelFunction | cGetSessionInfo
  | cInitPIN | cSetPIN | cGetOperationState | cSetOperationState | cLogin | cLogout
  | cCreateObject | cCopyObject | cDestroyObject | cGetObjectSize | cGetAttributeValue
  | cSetAttributeValue | cFindObjectsInit | cFindObjects | cFindObjectsFinal | cEncryptInit
  | cEncrypt | cEncryptUpdate | cEncryptFinal | cDecryptInit | cDecrypt | cDecryptUpdate
  | cDecryptFinal | cDigestInit | cDigest | cDigestUpdate | cDigestKey | cDigestFinal | cSignInit
  | cSign | cSignUpdate | cSignFinal | cSignRecoverInit | cSignRecover | cVerifyInit | cVerify
  | cVerifyUpdate | cVerifyFinal | cVerifyRecoverInit | cVerifyRecover | cDigestEncryptUpdate
  | cDecryptDigestUpdate | cSignEncryptUpdate | cDecryptVerifyUpdate | cGenerateKey
  | cGenerateKeyPair | cWrapKey | cUnwrapKey | cDeriveKey | cSeedRandom | cGenerateRandom
  deriving DecidableEq, Repr

namespace CallId

/-- All calls, in the order of their identifiers. -/
def all : List CallId :=
  [.cInitialize, .cFinalize, .cGetInfo, .cGetSlotList, .cGetSlotInfo, .cGetTokenInfo,
    .cGetMechanismList, .cGetMechanismInfo, .cInitToken, .cWaitForSlotEvent, .cOpenSession,
    .cCloseSession, .cCloseAllSessions, .cGetFunctionStatus, .cCancelFunction, .cGetSessionInfo,
    .cInitPIN, .cSetPIN, .cGetOperationState, .cSetOperationState, .cLogin, .cLogout,
    .cCreateObject, .cCopyObject, .cDestroyObject, .cGetObjectSize, .cGetAttributeValue,
    .cSetAttributeValue, .cFindObjectsInit, .cFindObjects, .cFindObjectsFinal, .cEncryptInit,
    .cEncrypt, .cEncryptUpdate, .cEncryptFinal, .cDecryptInit, .cDecrypt, .cDecryptUpdate,
    .cDecryptFinal, .cDigestInit, .cDigest, .cDigestUpdate, .cDigestKey, .cDigestFinal,
    .cSignInit, .cSign, .cSignUpdate, .cSignFinal, .cSignRecoverInit, .cSignRecover, .cVerifyInit,
    .cVerify, .cVerifyUpdate, .cVerifyFinal, .cVerifyRecoverInit, .cVerifyRecover,
    .cDigestEncryptUpdate, .cDecryptDigestUpdate, .cSignEncryptUpdate, .cDecryptVerifyUpdate,
    .cGenerateKey, .cGenerateKeyPair, .cWrapKey, .cUnwrapKey, .cDeriveKey, .cSeedRandom,
    .cGenerateRandom]

/-- The identifier on the wire; `0` is `GKM_RPC_CALL_ERROR`. -/
def wire (c : CallId) : Nat := all.idxOf c + 1

/-- The call with an identifier. -/
def ofWire (n : Nat) : Option CallId := if n = 0 then none else all[n - 1]?

/-- `gkm_rpc_calls[call_id].request`. -/
def request : CallId → Signature
  | .cInitialize => [.a, .y]
  | .cFinalize => []
  | .cGetInfo => []
  | .cGetSlotList => [.y, .f, .u]
  | .cGetSlotInfo => [.u]
  | .cGetTokenInfo => [.u]
  | .cGetMechanismList => [.u, .f, .u]
  | .cGetMechanismInfo => [.u, .u]
  | .cInitToken => [.u, .a, .y, .z]
  | .cWaitForSlotEvent => [.u]
  | .cOpenSession => [.u, .u]
  | .cCloseSession => [.u]
  | .cCloseAllSessions => [.u]
  | .cGetFunctionStatus => [.u]
  | .cCancelFunction => [.u]
  | .cGetSessionInfo => [.u]
  | .cInitPIN => [.u, .a, .y]
  | .cSetPIN => [.u, .a, .y, .a, .y]
  | .cGetOperationState => [.u, .f, .y]
  | .cSetOperationState => [.u, .a, .y, .u, .u]
  | .cLogin => [.u, .u, .a, .y]
  | .cLogout => [.u]
  | .cCreateObject => [.u, .a, .attr]
  | .cCopyObject => [.u, .u, .a, .attr]
  | .cDestroyObject => [.u, .u]
  | .cGetObjectSize => [.u, .u]
  | .cGetAttributeValue => [.u, .u, .f, .attr]
  | .cSetAttributeValue => [.u, .u, .a, .attr]
  | .cFindObjectsInit => [.u, .a, .attr]
  | .cFindObjects => [.u, .f, .u]
  | .cFindObjectsFinal => [.u]
  | .cEncryptInit => [.u, .mech, .u]
  | .cEncrypt => [.u, .a, .y, .f, .y]
  | .cEncryptUpdate => [.u, .a, .y, .f, .y]
  | .cEncryptFinal => [.u, .f, .y]
  | .cDecryptInit => [.u, .mech, .u]
  | .cDecrypt => [.u, .a, .y, .f, .y]
  | .cDecryptUpdate => [.u, .a, .y, .f, .y]
  | .cDecryptFinal => [.u, .f, .y]
  | .cDigestInit => [.u, .mech]
  | .cDigest => [.u, .a, .y, .f, .y]
  | .cDigestUpdate => [.u, .a, .y]
  | .cDigestKey => [.u, .u]
  | .cDigestFinal => [.u, .f, .y]
  | .cSignInit => [.u, .mech, .u]
  | .cSign => [.u, .a, .y, .f, .y]
  | .cSignUpdate => [.u, .a, .y]
  | .cSignFinal => [.u, .f, .y]
  | .cSignRecoverInit => [.u, .mech, .u]
  | .cSignRecover => [.u, .a, .y, .f, .y]
  | .cVerifyInit => [.u, .mech, .u]
  | .cVerify => [.u, .a, .y, .a, .y]
  | .cVerifyUpdate => [.u, .a, .y]
  | .cVerifyFinal => [.u, .a, .y]
  | .cVerifyRecoverInit => [.u, .mech, .u]
  | .cVerifyRecover => [.u, .a, .y, .f, .y]
  | .cDigestEncryptUpdate => [.u, .a, .y, .f, .y]
  | .cDecryptDigestUpdate => [.u, .a, .y, .f, .y]
  | .cSignEncryptUpdate => [.u, .a, .y, .f, .y]
  | .cDecryptVerifyUpdate => [.u, .a, .y, .f, .y]
  | .cGenerateKey => [.u, .mech, .a, .attr]
  | .cGenerateKeyPair => [.u, .mech, .a, .attr, .a, .attr]
  | .cWrapKey => [.u, .mech, .u, .u, .f, .y]
  | .cUnwrapKey => [.u, .mech, .u, .a, .y, .a, .attr]
  | .cDeriveKey => [.u, .mech, .u, .a, .attr]
  | .cSeedRandom => [.u, .a, .y]
  | .cGenerateRandom => [.u, .f, .y]

/-- `gkm_rpc_calls[call_id].response`. -/
def response : CallId → Signature
  | .cInitialize => []
  | .cFinalize => []
  | .cGetInfo => [.v, .s, .u, .s, .v]
  | .cGetSlotList => [.a, .u]
  | .cGetSlotInfo => [.s, .s, .u, .v, .v]
  | .cGetTokenInfo => [.s, .s, .s, .s, .u, .u, .u, .u, .u, .u, .u, .u, .u, .u, .u, .v, .v, .s]
  | .cGetMechanismList => [.a, .u]
  | .cGetMechanismInfo => [.u, .u, .u]
  | .cInitToken => []
  | .cWaitForSlotEvent => [.u]
  | .cOpenSession => [.u]
  | .cCloseSession => []
  | .cCloseAllSessions => []
  | .cGetFunctionStatus => []
  | .cCancelFunction => []
  | .cGetSessionInfo => [.u, .u, .u, .u]
  | .cInitPIN => []
  | .cSetPIN => []
  | .cGetOperationState => [.a, .y]
  | .cSetOperationState => []
  | .cLogin => []
  | .cLogout => []
  | .cCreateObject => [.u]
  | .cCopyObject => [.u]
  | .cDestroyObject => []
  | .cGetObjectSize => [.u]
  | .cGetAttributeValue => [.a, .attr, .u]
  | .cSetAttributeValue => []
  | .cFindObjectsInit => []
  | .cFindObjects => [.a, .u]
  | .cFindObjectsFinal => []
  | .cEncryptInit => []
  | .cEncrypt => [.a, .y]
  | .cEncryptUpdate => [.a, .y]
  | .cEncryptFinal => [.a, .y]
  | .cDecryptInit => []
  | .cDecrypt => [.a, .y]
  | .cDecryptUpdate => [.a, .y]
  | .cDecryptFinal => [.a, .y]
  | .cDigestInit => []
  | .cDigest => [.a, .y]
  | .cDigestUpdate => []
  | .cDigestKey => []
  | .cDigestFinal => [.a, .y]
  | .cSignInit => []
  | .cSign => [.a, .y]
  | .cSignUpdate => []
  | .cSignFinal => [.a, .y]
  | .cSignRecoverInit => []
  | .cSignRecover => [.a, .y]
  | .cVerifyInit => []
  | .cVerify => []
  | .cVerifyUpdate => []
  | .cVerifyFinal => []
  | .cVerifyRecoverInit => []
  | .cVerifyRecover => [.a, .y]
  | .cDigestEncryptUpdate => [.a, .y]
  | .cDecryptDigestUpdate => [.a, .y]
  | .cSignEncryptUpdate => [.a, .y]
  | .cDecryptVerifyUpdate => [.a, .y]
  | .cGenerateKey => [.u]
  | .cGenerateKeyPair => [.u, .u]
  | .cWrapKey => [.a, .y]
  | .cUnwrapKey => [.u]
  | .cDeriveKey => [.u]
  | .cSeedRandom => []
  | .cGenerateRandom => [.a, .y]

theorem ofWire_wire (c : CallId) : ofWire c.wire = some c := by
  cases c <;> rfl

theorem wire_of_ofWire {n : Nat} {c : CallId} (h : ofWire n = some c) : c.wire = n := by
  unfold ofWire at h
  split at h
  · simp at h
  · next hn =>
      have hlt : n - 1 < all.length := by
        by_contra hge
        rw [List.getElem?_eq_none (by omega)] at h
        simp at h
      have hnodup : all.Nodup := by decide
      rw [List.getElem?_eq_getElem hlt, Option.some.injEq] at h
      rw [wire, ← h, hnodup.idxOf_getElem]
      omega

theorem wire_pos (c : CallId) : 0 < c.wire := Nat.succ_pos _

theorem wire_lt (c : CallId) : c.wire < 256 ^ 4 := by
  have h : all.idxOf c ≤ all.length := List.idxOf_le_length
  have hlen : all.length = 67 := by decide
  unfold wire
  omega

end CallId

end MateKeyring.Rpc
