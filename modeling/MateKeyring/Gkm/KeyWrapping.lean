import MateKeyring.Egg.KeyDerivation
import MateKeyring.Egg.Unpadding
import MateKeyring.Gkm.SecretKeys
import MateKeyring.Secret.FieldWire

/-!
# Wrapping keys

`gkm-aes-mechanism.c`. The value of a key is padded, and encrypted in CBC mode with one call for each block. For the
size of a block the mechanism asks `gkm_aes_key_get_block_size`, which gives the length of the key. With a key of 16
octets that is the block of AES and with one of 32 octets it is two of them, and what is written is taken apart again
(`unwrap_wrapped`). With a key of 24 octets no call is of whole blocks, and every one fails, although the length that
is asked for first is given. The input of an unwrapping is copied to what `egg_secure_alloc` gives.
-/

set_option autoImplicit false

namespace MateKeyring.Gkm.KeyWrapping

open List
open Egg (CipherLibrary gcryCipherModeCbc eggPaddingPkcs7Pad eggPaddingPkcs7Unpad memcpyAt pkcs7Pad_eq
  pkcs7Unpad_some_iff pkcs7Unpad_cases Tail)
open Rpc (CkRv CkMechanism memRead memRead_eq_ok ckrOk ckrGeneralError ckrBufferTooSmall)
open Secret (WireAttribute gkmUtilReturnData gkmAttributeSetData setData_eq)
open SecretKeys (AesKey SecretKey Object TemplateAttribute algorithmForLength algorithmForLength_ne_zero_iff
  secureMost gkmModuleFindFactory gkmSessionCreateObjectForAttributes withValue create_total create_generic
  genericTemplate)

/-! ## Ciphers -/

/-- A context that was opened for CBC mode, and used. -/
inductive CbcContext (lib : CipherLibrary) {algo : Nat} : lib.Context algo → Prop
  | opened {ch} : lib.cipherOpen algo gcryCipherModeCbc = some ch → CbcContext lib ch
  | keyed {ch ch' key} : CbcContext lib ch → lib.setkey ch key = some ch' → CbcContext lib ch'
  | started {ch ch' iv} : CbcContext lib ch → lib.setiv ch iv = some ch' → CbcContext lib ch'
  | encrypted {ch ch' data out} : CbcContext lib ch → lib.encrypt ch data = some (out, ch') → CbcContext lib ch'
  | decrypted {ch ch' data out} : CbcContext lib ch → lib.decrypt ch data = some (out, ch') → CbcContext lib ch'

/-- The CBC mode of AES: it can be had with a key and an initialization vector of the right lengths, only whole
blocks are taken, for as many octets, and decryption inverts encryption and goes on as encryption does. -/
structure AesCbc (lib : CipherLibrary) : Prop where
  ready : ∀ key iv : Bytes, algorithmForLength key.length ≠ 0 → iv.length = 16 →
    ∃ ch ch' ch'', lib.cipherOpen (algorithmForLength key.length) gcryCipherModeCbc = some ch ∧
      lib.setkey ch key = some ch' ∧ lib.setiv ch' iv = some ch''
  encrypts : ∀ {n} {ch : lib.Context (algorithmForLength n)} {data}, algorithmForLength n ≠ 0 → CbcContext lib ch →
    ((lib.encrypt ch data).isSome ↔ data.length % 16 = 0)
  decrypts : ∀ {n} {ch : lib.Context (algorithmForLength n)} {data}, algorithmForLength n ≠ 0 → CbcContext lib ch →
    ((lib.decrypt ch data).isSome ↔ data.length % 16 = 0)
  length_encrypt : ∀ {n} {ch ch' : lib.Context (algorithmForLength n)} {data out}, algorithmForLength n ≠ 0 →
    CbcContext lib ch → lib.encrypt ch data = some (out, ch') → out.length = data.length
  length_decrypt : ∀ {n} {ch ch' : lib.Context (algorithmForLength n)} {data out}, algorithmForLength n ≠ 0 →
    CbcContext lib ch → lib.decrypt ch data = some (out, ch') → out.length = data.length
  inverts : ∀ {n} {ch ch' : lib.Context (algorithmForLength n)} {data out}, algorithmForLength n ≠ 0 →
    CbcContext lib ch → lib.encrypt ch data = some (out, ch') → lib.decrypt ch out = some (data, ch')

variable (lib : CipherLibrary)

/-- `gkm_aes_key_get_block_size` -/
def gkmAesKeyGetBlockSize (key : AesKey) : Nat := key.value.length

/-- `gkm_aes_key_get_cipher` -/
def gkmAesKeyGetCipher (key : AesKey) (mode : Nat) : Option (lib.Context (algorithmForLength key.value.length)) :=
  (lib.cipherOpen (algorithmForLength key.value.length) mode).bind fun cih => lib.setkey cih key.value

/-- `gcry_cipher_setiv` with the parameter of a mechanism; `none` is that there is none, or an error. -/
def setIv {algo : Nat} (cih : lib.Context algo) (mech : CkMechanism) : Checked (Option (lib.Context algo)) :=
  match mech.pParameter with
  | none => .ok none
  | some parameter => do
      let iv ← memRead parameter mech.ulParameterLen
      pure (lib.setiv cih iv)

/-- The loop that encrypts or decrypts in place, from a position on; `none` is an error. -/
def eachBlock {H : Type} (step : H → Bytes → Option (Bytes × H)) (block : Nat) :
    Nat → H → Bytes → Checked (Option Bytes)
  | 0, _, _ => .ok (some [])
  | fuel + 1, cih, data =>
    if data = [] then .ok (some [])
    else do
      let chunk ← memRead data block
      match step cih chunk with
      | none => pure none
      | some (out, cih') => do
          let rest ← eachBlock step block fuel cih' (data.drop block)
          pure (rest.map (out ++ ·))

/-! ## The mechanism -/

abbrev ckmAesCbcPad : Nat := 0x1085

abbrev ckrFunctionFailed : CkRv := 0x6
abbrev ckrKeySizeRange : CkRv := 0x62
abbrev ckrMechanismParamInvalid : CkRv := 0x71
abbrev ckrWrappedKeyInvalid : CkRv := 0x110
abbrev ckrWrappedKeyLenRange : CkRv := 0x112
abbrev ckrWrappingKeyTypeInconsistent : CkRv := 0x115

/-- `egg_secure_alloc`, with the zeros that are there; `none` is `NULL`. -/
def eggSecureAlloc (length : Nat) : Option Bytes :=
  if secureMost < length ∨ length = 0 then none else some (replicate length 0)

/-- `gkm_object_get_attribute` of a secret key for `CKA_VALUE`. -/
def gkmObjectGetValue (key : SecretKey) (attr : WireAttribute) : CkRv × WireAttribute :=
  gkmAttributeSetData attr key.value

/-- `retrieve_length` -/
def retrieveLength (wrapped : SecretKey) : CkRv × Nat :=
  let r := gkmObjectGetValue wrapped ⟨none, 0⟩
  (r.1, r.2.ulValueLen)

/-- `retrieve_value`: the memory and the length. -/
def retrieveValue (wrapped : SecretKey) : CkRv × Option Bytes × Nat :=
  let length := retrieveLength wrapped
  if length.1 ≠ ckrOk then (length.1, none, length.2)
  else
    let r := gkmObjectGetValue wrapped ⟨eggSecureAlloc length.2, length.2⟩
    (r.1, r.2.pValue, length.2)

/-- What `memcpy` takes from memory, or from a null pointer. -/
def copied (value : Option Bytes) (n : Nat) : Checked Bytes :=
  match value with
  | none => if n = 0 then .ok [] else .error .nullPointer
  | some memory => memRead memory n

/-- Padded octets are in secure memory, if there is some. -/
def secured (padded : Option Bytes) : Option Bytes := padded.filter fun p => p.length ≤ secureMost

/-- The part of `gkm_aes_mechanism_wrap` that only gives the length. -/
def wrapLength (block : Nat) (wrapped : SecretKey) (output : WireAttribute) : Checked (CkRv × WireAttribute) :=
  let length := retrieveLength wrapped
  if length.1 ≠ ckrOk then .ok (length.1, output)
  else do
    -- the octets are not looked at
    let padded ← eggPaddingPkcs7Pad block (replicate length.2 0)
    match padded with
    | none => pure (ckrKeySizeRange, output)
    | some padded => pure (ckrOk, { output with ulValueLen := padded.length })

/-- The part of `gkm_aes_mechanism_wrap` that has a cipher with its initialization vector. -/
def wrapValue {algo : Nat} (cih : lib.Context algo) (block : Nat) (wrapped : SecretKey) (output : WireAttribute) :
    Checked (CkRv × WireAttribute) :=
  let value := retrieveValue wrapped
  if value.1 ≠ ckrOk then .ok (value.1, output)
  else do
    let raw ← copied value.2.1 value.2.2
    let padded ← eggPaddingPkcs7Pad block raw
    match secured padded with
    | none => pure (ckrKeySizeRange, output)
    | some padded => do
        let encrypted ← eachBlock (@CipherLibrary.encrypt lib algo) block padded.length cih padded
        match encrypted with
        | none => pure (ckrGeneralError, output)
        | some encrypted => pure (gkmUtilReturnData output encrypted)

/-- `gkm_aes_mechanism_wrap` -/
def gkmAesMechanismWrap (mech : CkMechanism) (wrapper wrapped : SecretKey) (output : WireAttribute) :
    Checked (CkRv × WireAttribute) :=
  if mech.mechanism ≠ ckmAesCbcPad then .ok (ckrGeneralError, output)
  else
    match wrapper with
    | .generic _ _ => .ok (ckrWrappingKeyTypeInconsistent, output)
    | .null => .ok (ckrWrappingKeyTypeInconsistent, output)
    | .aes key =>
      match output.pValue with
      | none => wrapLength (gkmAesKeyGetBlockSize key) wrapped output
      | some _ =>
        match gkmAesKeyGetCipher lib key gcryCipherModeCbc with
        | none => .ok (ckrFunctionFailed, output)
        | some cih => do
            let started ← setIv lib cih mech
            match started with
            | none => pure (ckrMechanismParamInvalid, output)
            | some cih => wrapValue lib cih (gkmAesKeyGetBlockSize key) wrapped output

/-- The part of `gkm_aes_mechanism_unwrap` that has a cipher with its initialization vector. -/
def unwrapValue {algo : Nat} (cih : lib.Context algo) (block : Nat) (s : SecretKeys.Session) (input : Bytes)
    (attrs : List TemplateAttribute) : Checked (CkRv × Option Object) :=
  match eggSecureAlloc input.length with
  | none => .error .nullPointer
  | some memory => do
      let padded ← memcpyAt memory 0 input
      let decrypted ← eachBlock (@CipherLibrary.decrypt lib algo) block padded.length cih padded
      match decrypted with
      | none => pure (ckrGeneralError, none)
      | some decrypted => do
          let value ← eggPaddingPkcs7Unpad block decrypted
          match value with
          | none => pure (ckrWrappedKeyInvalid, none)
          | some value => gkmSessionCreateObjectForAttributes s (withValue value attrs)

/-- `gkm_aes_mechanism_unwrap` -/
def gkmAesMechanismUnwrap (s : SecretKeys.Session) (mech : CkMechanism) (wrapper : SecretKey) (input : Bytes)
    (attrs : List TemplateAttribute) : Checked (CkRv × Option Object) :=
  if mech.mechanism ≠ ckmAesCbcPad then .ok (ckrGeneralError, none)
  else
    match wrapper with
    | .generic _ _ => .ok (ckrWrappingKeyTypeInconsistent, none)
    | .null => .ok (ckrWrappingKeyTypeInconsistent, none)
    | .aes key =>
      if input.length = 0 ∨ input.length % gkmAesKeyGetBlockSize key ≠ 0 then .ok (ckrWrappedKeyLenRange, none)
      else
        match gkmAesKeyGetCipher lib key gcryCipherModeCbc with
        | none => .ok (ckrFunctionFailed, none)
        | some cih => do
            let started ← setIv lib cih mech
            match started with
            | none => pure (ckrMechanismParamInvalid, none)
            | some cih => unwrapValue lib cih (gkmAesKeyGetBlockSize key) s input attrs

/-! ## Block by block -/

section Blocks

variable {lib} {n block : Nat} {data : Bytes}

/-- Encrypted blocks are decrypted. -/
theorem eachBlock_encrypt (hlib : AesCbc lib) (hn : algorithmForLength n ≠ 0) (hblock : block % 16 = 0)
    (hpos : 0 < block) (fuel : Nat) (cih : lib.Context (algorithmForLength n)) (hcih : CbcContext lib cih)
    (hdata : data.length % block = 0) (hfuel : data.length ≤ fuel) :
    ∃ out, eachBlock lib.encrypt block fuel cih data = .ok (some out) ∧ out.length = data.length ∧
      eachBlock lib.decrypt block fuel cih out = .ok (some data) := by
  induction fuel generalizing cih data with
  | zero =>
    have hempty : data = [] := length_eq_zero_iff.1 (Nat.le_zero.1 hfuel)
    subst hempty
    exact ⟨[], rfl, rfl, rfl⟩
  | succ fuel ih =>
    by_cases hempty : data = []
    · subst hempty
      exact ⟨[], rfl, rfl, rfl⟩
    · have hlength : 0 < data.length := length_pos_iff.2 hempty
      have hle : block ≤ data.length := Nat.le_of_dvd hlength (Nat.dvd_of_mod_eq_zero hdata)
      have hchunk : (data.take block).length = block := length_take_of_le hle
      have hrest : (data.drop block).length = data.length - block := length_drop
      have hsome : (lib.encrypt cih (data.take block)).isSome := (hlib.encrypts hn hcih).2 (hchunk.symm ▸ hblock)
      obtain ⟨⟨out, cih'⟩, hout⟩ := Option.isSome_iff_exists.1 hsome
      have houtLength := (hlib.length_encrypt hn hcih hout).trans hchunk
      have hdecrypt := hlib.inverts hn hcih hout
      have hmod : (data.drop block).length % block = 0 := by
        rw [hrest, ← Nat.mod_eq_sub_mod hle]
        exact hdata
      obtain ⟨rest, hencrypted, hrestLength, hdecrypted⟩ := ih cih' (.encrypted hcih hout) hmod (by omega)
      have hne : out ++ rest ≠ [] := by
        intro h
        have := congrArg List.length h
        rw [length_append, length_nil] at this
        omega
      refine ⟨out ++ rest, ?_, ?_, ?_⟩
      · rw [eachBlock, if_neg hempty, memRead_eq_ok.2 ⟨hle, rfl⟩, ok_bind, hout]
        dsimp only
        rw [hencrypted]
        rfl
      · rw [length_append, houtLength, hrestLength, hrest]
        omega
      · have htake : (out ++ rest).take block = out := take_left' houtLength
        have hdrop : (out ++ rest).drop block = rest := drop_left' houtLength
        have hfits : block ≤ (out ++ rest).length := by
          rw [length_append]
          omega
        rw [eachBlock, if_neg hne, memRead_eq_ok.2 ⟨hfits, rfl⟩, ok_bind, htake, hdecrypt]
        dsimp only
        rw [hdrop, hdecrypted]
        show Except.ok (some (data.take block ++ data.drop block)) = _
        rw [take_append_drop]

/-- Whole blocks are read inside the data. -/
theorem eachBlock_ok {H : Type} {step : H → Bytes → Option (Bytes × H)} (fuel : Nat) (cih : H)
    (hdata : data.length % block = 0) : ∃ out, eachBlock step block fuel cih data = .ok out := by
  induction fuel generalizing cih data with
  | zero => exact ⟨_, rfl⟩
  | succ fuel ih =>
    rw [eachBlock]
    split
    · exact ⟨_, rfl⟩
    · rename_i hempty
      have hlength : 0 < data.length := length_pos_iff.2 hempty
      have hle : block ≤ data.length := Nat.le_of_dvd hlength (Nat.dvd_of_mod_eq_zero hdata)
      rw [memRead_eq_ok.2 ⟨hle, rfl⟩, ok_bind]
      split
      · exact ⟨_, rfl⟩
      · rename_i out cih' hout
        have hrest : (data.drop block).length % block = 0 := by
          rw [length_drop, ← Nat.mod_eq_sub_mod hle]
          exact hdata
        obtain ⟨rest, hrun⟩ := ih cih' hrest
        rw [hrun]
        exact ⟨_, rfl⟩

/-- What is decrypted is no longer than the input. -/
theorem length_eachBlock_decrypt (hlib : AesCbc lib) (hn : algorithmForLength n ≠ 0) {out : Bytes} (fuel : Nat)
    (cih : lib.Context (algorithmForLength n)) (hcih : CbcContext lib cih)
    (hrun : eachBlock lib.decrypt block fuel cih data = .ok (some out)) : out.length ≤ data.length := by
  induction fuel generalizing cih data out with
  | zero =>
    cases hrun
    exact Nat.zero_le _
  | succ fuel ih =>
    rw [eachBlock] at hrun
    split at hrun
    · cases hrun
      exact Nat.zero_le _
    · obtain ⟨chunk, hchunk, hrun⟩ := bind_eq_ok.1 hrun
      obtain ⟨hle, rfl⟩ := memRead_eq_ok.1 hchunk
      split at hrun
      · exact nomatch hrun
      · rename_i first cih' hfirst
        obtain ⟨rest, hrest, hrun⟩ := bind_eq_ok.1 hrun
        cases rest with
        | none => exact nomatch hrun
        | some rest =>
          cases hrun
          have hlength := hlib.length_decrypt hn hcih hfirst
          rw [length_take_of_le hle] at hlength
          have hrestLength := ih cih' (.decrypted hcih hfirst) hrest
          rw [length_drop] at hrestLength
          rw [length_append]
          omega

/-- No block of the length is taken. -/
theorem eachBlock_fails (hlib : AesCbc lib) (hn : algorithmForLength n ≠ 0) (hblock : block % 16 ≠ 0)
    {cih : lib.Context (algorithmForLength n)} (hcih : CbcContext lib cih) (hne : data ≠ [])
    (hdata : data.length % block = 0) : eachBlock lib.encrypt block data.length cih data = .ok none := by
  have hlength : 0 < data.length := length_pos_iff.2 hne
  have hle : block ≤ data.length := Nat.le_of_dvd hlength (Nat.dvd_of_mod_eq_zero hdata)
  obtain ⟨fuel, hfuel⟩ : ∃ fuel, data.length = fuel + 1 := ⟨data.length - 1, by omega⟩
  have hnone : lib.encrypt cih (data.take block) = none := by
    cases hrun : lib.encrypt cih (data.take block) with
    | none => rfl
    | some out =>
      have htaken := (hlib.encrypts hn hcih).1 (Option.isSome_iff_exists.2 ⟨out, hrun⟩)
      rw [length_take_of_le hle] at htaken
      exact absurd htaken hblock
  rw [hfuel, eachBlock, if_neg hne, memRead_eq_ok.2 ⟨hle, rfl⟩, ok_bind, hnone]
  rfl

end Blocks

/-! ## Values -/

section Values

variable {block : Nat} {key : AesKey} {wrapped : SecretKey}

/-- The length of a value with its padding. -/
def paddedLength (block n : Nat) : Nat := (n / block + 1) * block

/-- A value is padded to whole blocks, and taken apart again. -/
theorem padded_value (key : AesKey) {raw : Bytes} (hraw : raw.length ≤ secureMost) :
    ∃ padded, eggPaddingPkcs7Pad (gkmAesKeyGetBlockSize key) raw = .ok (some padded) ∧
      padded.length = paddedLength (gkmAesKeyGetBlockSize key) raw.length ∧
      eggPaddingPkcs7Unpad (gkmAesKeyGetBlockSize key) padded = .ok (some raw) := by
  have hmost : secureMost < 2 ^ 32 := by decide
  have hkey : gkmAesKeyGetBlockSize key = 16 ∨ gkmAesKeyGetBlockSize key = 24 ∨ gkmAesKeyGetBlockSize key = 32 :=
    key.length_cases
  generalize gkmAesKeyGetBlockSize key = block at hkey
  have hmod : raw.length % block < block := Nat.mod_lt _ (by omega)
  have hdiv := Nat.div_add_mod raw.length block
  refine ⟨_, pkcs7Pad_eq (by omega) (by omega) (by omega), ?_, ?_⟩
  · rw [length_append, length_replicate, paddedLength, Nat.succ_mul, Nat.mul_comm]
    omega
  · exact pkcs7Unpad_some_iff.2 ⟨_, by omega, by omega, .inr (by omega), rfl⟩

theorem paddedLength_mod (block n : Nat) : paddedLength block n % block = 0 := Nat.mul_mod_left _ _

theorem retrieveLength_eq (wrapped : SecretKey) : retrieveLength wrapped = (ckrOk, wrapped.value.length) := rfl

/-- The value is retrieved, from a null pointer if it is empty. -/
theorem retrieveValue_eq (wrapped : SecretKey) :
    ∃ memory, retrieveValue wrapped = (ckrOk, memory, wrapped.value.length) ∧
      copied memory wrapped.value.length = .ok wrapped.value := by
  rw [retrieveValue, retrieveLength_eq]
  dsimp only
  rw [if_neg (not_not.2 rfl), eggSecureAlloc]
  have hmost := wrapped.length_value_le
  by_cases hempty : wrapped.value.length = 0
  · rw [if_pos (.inr hempty), length_eq_zero_iff.1 hempty]
    refine ⟨none, ?_, rfl⟩
    rw [gkmObjectGetValue, length_eq_zero_iff.1 hempty]
    rfl
  · rw [if_neg (by omega), gkmObjectGetValue, setData_eq length_replicate]
    exact ⟨some wrapped.value, rfl, memRead_eq_ok.2 ⟨Nat.le_refl _, take_length⟩⟩

/-- The length that is given first is that of the padded value. -/
theorem wrapLength_eq (key : AesKey) (wrapped : SecretKey) (output : WireAttribute) :
    wrapLength (gkmAesKeyGetBlockSize key) wrapped output =
      .ok (ckrOk, { output with
        ulValueLen := paddedLength (gkmAesKeyGetBlockSize key) wrapped.value.length }) := by
  have hzeros : (replicate wrapped.value.length (0 : UInt8)).length = wrapped.value.length :=
    length_replicate
  obtain ⟨padded, hpad, hlength, -⟩ := padded_value key (hzeros.symm ▸ wrapped.length_value_le)
  rw [wrapLength, retrieveLength_eq]
  dsimp only
  rw [if_neg (not_not.2 rfl), hpad, ok_bind]
  dsimp only
  rw [hlength, hzeros]
  rfl

variable {lib}

/-- What is written: the value, padded and encrypted. -/
theorem wrapValue_writes (hlib : AesCbc lib) (hblock : key.value.length ≠ 24)
    (hroom : paddedLength key.value.length wrapped.value.length ≤ secureMost)
    {cih : lib.Context (algorithmForLength key.value.length)} (hcih : CbcContext lib cih) :
    ∃ out padded, out.length = paddedLength key.value.length wrapped.value.length ∧
      (∀ output, wrapValue lib cih (gkmAesKeyGetBlockSize key) wrapped output = .ok (gkmUtilReturnData output out)) ∧
      eachBlock lib.decrypt key.value.length out.length cih out = .ok (some padded) ∧
      eggPaddingPkcs7Unpad key.value.length padded = .ok (some wrapped.value) := by
  obtain ⟨memory, hretrieve, hcopied⟩ := retrieveValue_eq wrapped
  obtain ⟨padded, hpad, hlength, hunpad⟩ := padded_value key wrapped.length_value_le
  have hlengths := key.length_cases
  have hmod : padded.length % key.value.length = 0 := hlength ▸ paddedLength_mod _ _
  obtain ⟨out, hencrypt, hout, hdecrypt⟩ :=
    eachBlock_encrypt hlib key.known (by omega) (by omega) padded.length cih hcih hmod (Nat.le_refl _)
  refine ⟨out, padded, hout.trans hlength, fun output => ?_, hout.symm ▸ hdecrypt, hunpad⟩
  have hsecured : secured (some padded) = some padded := by
    rw [secured, Option.filter_some, if_pos (decide_eq_true (hlength.trans_le hroom))]
  have hblocks : eachBlock lib.encrypt (gkmAesKeyGetBlockSize key) padded.length cih padded = .ok (some out) := hencrypt
  rw [wrapValue, hretrieve]
  dsimp only
  rw [if_neg (not_not.2 rfl), hcopied, ok_bind, hpad, ok_bind, hsecured]
  dsimp only
  rw [hblocks]
  rfl

/-- Where nothing is written. -/
theorem wrapValue_fails (hlib : AesCbc lib)
    (hnot : ¬ (key.value.length ≠ 24 ∧ paddedLength key.value.length wrapped.value.length ≤ secureMost))
    {cih : lib.Context (algorithmForLength key.value.length)} (hcih : CbcContext lib cih) :
    ∃ rv, rv ≠ ckrOk ∧ ∀ output, wrapValue lib cih (gkmAesKeyGetBlockSize key) wrapped output = .ok (rv, output) := by
  obtain ⟨memory, hretrieve, hcopied⟩ := retrieveValue_eq wrapped
  obtain ⟨padded, hpad, hlength, -⟩ := padded_value key wrapped.length_value_le
  by_cases hroom : padded.length ≤ secureMost
  · have hkey : key.value.length = 24 := by
      by_contra hne
      exact hnot ⟨hne, hlength.symm.trans_le hroom⟩
    have hmod : padded.length % key.value.length = 0 := hlength ▸ paddedLength_mod _ _
    have hne : padded ≠ [] := by
      rintro rfl
      have hzero : 0 = paddedLength (gkmAesKeyGetBlockSize key) wrapped.value.length := hlength
      rw [paddedLength, gkmAesKeyGetBlockSize, hkey] at hzero
      omega
    have hfails : eachBlock lib.encrypt (gkmAesKeyGetBlockSize key) padded.length cih padded = .ok none :=
      eachBlock_fails hlib key.known (show key.value.length % 16 ≠ 0 by omega) hcih hne hmod
    have hsecured : secured (some padded) = some padded := by
      rw [secured, Option.filter_some, if_pos (decide_eq_true hroom)]
    refine ⟨ckrGeneralError, by decide, fun output => ?_⟩
    rw [wrapValue, hretrieve]
    dsimp only
    rw [if_neg (not_not.2 rfl), hcopied, ok_bind, hpad, ok_bind, hsecured]
    dsimp only
    rw [hfails]
    rfl
  · have hsecured : secured (some padded) = none := by
      rw [secured, Option.filter_some, if_neg (fun h => hroom (of_decide_eq_true h))]
    refine ⟨ckrKeySizeRange, by decide, fun output => ?_⟩
    rw [wrapValue, hretrieve]
    dsimp only
    rw [if_neg (not_not.2 rfl), hcopied, ok_bind, hpad, ok_bind, hsecured]
    rfl

theorem eggSecureAlloc_some {n : Nat} (hpos : n ≠ 0) (hroom : n ≤ secureMost) :
    eggSecureAlloc n = some (replicate n 0) := if_neg (by omega)

theorem memcpyAt_all (input : Bytes) : memcpyAt (replicate input.length 0) 0 input = .ok input := by
  have hlength : (replicate input.length (0 : UInt8)).length = input.length := length_replicate
  rw [memcpyAt, if_pos (by omega), Nat.zero_add, take_zero, nil_append,
    drop_eq_nil_of_le (Nat.le_of_eq hlength), append_nil]

/-- An error or an object, or what comes of the factory of another object for a value. -/
def Returns (s : SecretKeys.Session) (attrs : List TemplateAttribute) (r : Checked (CkRv × Option Object)) : Prop :=
  (∃ rv made, r = .ok (rv, made) ∧ (rv = ckrOk → made.isSome)) ∨
    ∃ factory value, gkmModuleFindFactory s.own (withValue value attrs) = some (.other factory) ∧
      r = s.createOther factory (withValue value attrs)

/-- What was written is unwrapped as the value. -/
theorem unwrapValue_written {algo block : Nat} {cih : lib.Context algo} {out padded value : Bytes} (s : SecretKeys.Session)
    (attrs : List TemplateAttribute) (hpos : out.length ≠ 0) (hroom : out.length ≤ secureMost)
    (hdecrypt : eachBlock (@CipherLibrary.decrypt lib algo) block out.length cih out = .ok (some padded))
    (hunpad : eggPaddingPkcs7Unpad block padded = .ok (some value)) :
    unwrapValue lib cih block s out attrs = gkmSessionCreateObjectForAttributes s (withValue value attrs) := by
  rw [unwrapValue, eggSecureAlloc_some hpos hroom]
  dsimp only
  rw [memcpyAt_all, ok_bind, hdecrypt, ok_bind]
  dsimp only
  rw [hunpad, ok_bind]

/-- Any input gives an object or an error, or a value for the factory of another object. -/
theorem unwrapValue_total (hlib : AesCbc lib) {n block : Nat} (hn : algorithmForLength n ≠ 0)
    {cih : lib.Context (algorithmForLength n)} (hcih : CbcContext lib cih) (s : SecretKeys.Session) {input : Bytes}
    (attrs : List TemplateAttribute) (hpos : input.length ≠ 0) (hroom : input.length ≤ secureMost)
    (hinput : input.length % block = 0) : Returns s attrs (unwrapValue lib cih block s input attrs) := by
  rw [unwrapValue, eggSecureAlloc_some hpos hroom]
  dsimp only
  rw [memcpyAt_all, ok_bind]
  obtain ⟨decrypted, hdecrypt⟩ := @eachBlock_ok block input _ (@CipherLibrary.decrypt lib (algorithmForLength n)) input.length
    cih hinput
  rw [hdecrypt, ok_bind]
  cases decrypted with
  | none => exact .inl ⟨_, _, rfl, fun h => absurd h (by decide)⟩
  | some decrypted =>
    have hle := length_eachBlock_decrypt hlib hn input.length cih hcih hdecrypt
    dsimp only
    rcases @pkcs7Unpad_cases block decrypted with ⟨value, k, htail, hunpad⟩ | ⟨-, hunpad⟩
    · rw [hunpad, ok_bind]
      have hvalue := htail.length
      rcases create_total s attrs value (by omega) with ⟨rv, made, hcreate, hmade⟩ | ⟨factory, hfind, hcreate⟩
      · refine .inl ⟨rv, made, hcreate, fun hrv => ?_⟩
        obtain ⟨o, rfl, -⟩ := hmade hrv
        rfl
      · exact .inr ⟨factory, value, hfind, hcreate⟩
    · rw [hunpad, ok_bind]
      exact .inl ⟨_, _, rfl, fun h => absurd h (by decide)⟩

end Values

/-! ## Wrapping and unwrapping -/

/-- An initialization vector. -/
structure Iv where
  octets : Bytes
  length_eq : octets.length = 16

/-- `CKM_AES_CBC_PAD` with an initialization vector. -/
def Iv.mechanism (iv : Iv) : CkMechanism := ⟨ckmAesCbcPad, some iv.octets, iv.octets.length⟩

/-- What wrapping writes, and the length it gives: without memory, with enough of it, and with too little. -/
structure WrapsTo (key : AesKey) (iv : Iv) (wrapped : SecretKey) (out : Bytes) : Prop where
  query : ∀ given, gkmAesMechanismWrap lib iv.mechanism (.aes key) wrapped ⟨none, given⟩ =
    .ok (ckrOk, ⟨none, out.length⟩)
  writes : ∀ memory room, out.length ≤ room →
    gkmAesMechanismWrap lib iv.mechanism (.aes key) wrapped ⟨some memory, room⟩ =
      .ok (ckrOk, ⟨some (out ++ memory.drop out.length), out.length⟩)
  short : ∀ memory room, room < out.length →
    gkmAesMechanismWrap lib iv.mechanism (.aes key) wrapped ⟨some memory, room⟩ =
      .ok (ckrBufferTooSmall, ⟨some memory, out.length⟩)

/-- What was written is unwrapped: whatever the session and the template, what is created is created with the value,
and if the template is not that of another object it is a key with that value; and with the template of a generic key
it is created. -/
structure UnwrapsTo (key : AesKey) (iv : Iv) (out value : Bytes) : Prop where
  same : ∀ s attrs, gkmAesMechanismUnwrap lib s iv.mechanism (.aes key) out attrs =
    gkmSessionCreateObjectForAttributes s (withValue value attrs)
  value_eq : ∀ s attrs made, (∀ factory, gkmModuleFindFactory s.own (withValue value attrs) ≠ some (.other factory)) →
    gkmAesMechanismUnwrap lib s iv.mechanism (.aes key) out attrs = .ok (ckrOk, made) →
      ∃ o, made = some (.secret o) ∧ o.value = value
  creates : ∀ s, ∃ o, gkmAesMechanismUnwrap lib s iv.mechanism (.aes key) out genericTemplate =
    .ok (s.complete o, some (.secret o)) ∧ o.value = value

/-- Unwrapping of any input returns an error or an object, and looks only at the input. -/
def UnwrapTotal (key : AesKey) (iv : Iv) (input : Bytes) : Prop :=
  ∀ s attrs, Returns s attrs (gkmAesMechanismUnwrap lib s iv.mechanism (.aes key) input attrs)

/-- Wrapping and unwrapping with a key and an initialization vector are right for a key that is wrapped and an input
that is unwrapped. -/
structure KeyWrappingRight (key : AesKey) (iv : Iv) (wrapped : SecretKey) (input : Bytes) : Prop where
  wraps : ∃ out, WrapsTo lib key iv wrapped out ∧ UnwrapsTo lib key iv out wrapped.value
  total : UnwrapTotal lib key iv input

section Mechanism

variable {lib} {key : AesKey} {iv : Iv} {wrapped : SecretKey}

theorem setIv_eq {algo : Nat} {cih cih' : lib.Context algo} (h : lib.setiv cih iv.octets = some cih') :
    setIv lib cih iv.mechanism = .ok (some cih') := by
  rw [setIv, Iv.mechanism]
  dsimp only
  rw [memRead_eq_ok.2 ⟨Nat.le_refl _, take_length⟩, ok_bind, h]
  rfl

/-- The cipher that both functions use. -/
theorem exists_cipher (hlib : AesCbc lib) (key : AesKey) (iv : Iv) :
    ∃ cih : lib.Context (algorithmForLength key.value.length), CbcContext lib cih ∧
      (∀ wrapped memory room, gkmAesMechanismWrap lib iv.mechanism (.aes key) wrapped ⟨some memory, room⟩ =
        wrapValue lib cih (gkmAesKeyGetBlockSize key) wrapped ⟨some memory, room⟩) ∧
      ∀ s input attrs, input.length ≠ 0 → input.length % key.value.length = 0 →
        gkmAesMechanismUnwrap lib s iv.mechanism (.aes key) input attrs =
          unwrapValue lib cih key.value.length s input attrs := by
  obtain ⟨ch, ch', cih, hopen, hkey, hiv⟩ := hlib.ready key.value iv.octets key.known iv.length_eq
  have hcipher : gkmAesKeyGetCipher lib key gcryCipherModeCbc = some ch' := by
    rw [gkmAesKeyGetCipher, hopen]
    exact hkey
  have hmechanism : ¬ iv.mechanism.mechanism ≠ ckmAesCbcPad := not_not.2 rfl
  refine ⟨cih, .started (.keyed (.opened hopen) hkey) hiv, fun wrapped memory room => ?_,
    fun s input attrs hpos hinput => ?_⟩
  · rw [gkmAesMechanismWrap, if_neg hmechanism]
    dsimp only
    rw [hcipher]
    dsimp only
    rw [setIv_eq hiv, ok_bind]
  · have hrange : ¬ (input.length = 0 ∨ input.length % gkmAesKeyGetBlockSize key ≠ 0) := by
      rintro (h | h)
      · exact hpos h
      · exact h hinput
    rw [gkmAesMechanismUnwrap, if_neg hmechanism, if_neg hrange, hcipher]
    show (setIv lib ch' iv.mechanism >>= _) = _
    rw [setIv_eq hiv, ok_bind]
    rfl

theorem wrap_query (key : AesKey) (iv : Iv) (wrapped : SecretKey) (given : Nat) :
    gkmAesMechanismWrap lib iv.mechanism (.aes key) wrapped ⟨none, given⟩ =
      .ok (ckrOk, ⟨none, paddedLength key.value.length wrapped.value.length⟩) := by
  have hmechanism : ¬ iv.mechanism.mechanism ≠ ckmAesCbcPad := not_not.2 rfl
  rw [gkmAesMechanismWrap, if_neg hmechanism]
  exact wrapLength_eq key wrapped ⟨none, given⟩

/-- With a key of 16 or of 32 octets, and secure memory for the padded value. -/
theorem wraps_unwraps (hlib : AesCbc lib) (hblock : key.value.length ≠ 24)
    (hroom : paddedLength key.value.length wrapped.value.length ≤ secureMost) :
    ∃ out, WrapsTo lib key iv wrapped out ∧ UnwrapsTo lib key iv out wrapped.value := by
  obtain ⟨cih, hcih, hwrap, hunwrap⟩ := exists_cipher hlib key iv
  obtain ⟨out, padded, hout, hwrites, hdecrypt, hunpad⟩ := wrapValue_writes hlib hblock hroom hcih
  have hlengths := key.length_cases
  have hpos : out.length ≠ 0 := by
    rw [hout, paddedLength, Nat.succ_mul]
    omega
  have hmod : out.length % key.value.length = 0 := hout ▸ paddedLength_mod _ _
  have hsame : ∀ s attrs, gkmAesMechanismUnwrap lib s iv.mechanism (.aes key) out attrs =
      gkmSessionCreateObjectForAttributes s (withValue wrapped.value attrs) := fun s attrs => by
    rw [hunwrap s out attrs hpos hmod]
    exact unwrapValue_written s attrs hpos (hout.trans_le hroom) hdecrypt hunpad
  refine ⟨out, ⟨fun given => ?_, fun memory room hle => ?_, fun memory room hlt => ?_⟩,
    ⟨hsame, fun s attrs made hnot hmade => ?_, fun s => ?_⟩⟩
  · rw [wrap_query, hout]
  · rw [hwrap, hwrites, gkmUtilReturnData]
    exact congrArg Except.ok (if_neg (Nat.not_lt.2 hle))
  · rw [hwrap, hwrites, gkmUtilReturnData]
    exact congrArg Except.ok (if_pos hlt)
  · rcases create_total s attrs wrapped.value wrapped.length_value_le with
      ⟨rv, made', hcreate, hvalue⟩ | ⟨factory, hfind, -⟩
    · rw [hsame, hcreate] at hmade
      cases hmade
      exact hvalue rfl
    · exact absurd hfind (hnot factory)
  · exact ⟨_, (hsame s _).trans (create_generic s wrapped.length_value_le), rfl⟩

/-- Where nothing is written the length was given nevertheless. -/
theorem not_wraps (hlib : AesCbc lib)
    (hnot : ¬ (key.value.length ≠ 24 ∧ paddedLength key.value.length wrapped.value.length ≤ secureMost))
    {out : Bytes} : ¬ WrapsTo lib key iv wrapped out := by
  intro h
  obtain ⟨cih, hcih, hwrap, -⟩ := exists_cipher hlib key iv
  obtain ⟨rv, hrv, hfails⟩ := wrapValue_fails hlib hnot hcih
  have hwrites := h.writes [] out.length (Nat.le_refl _)
  rw [hwrap, hfails] at hwrites
  exact hrv (congrArg Prod.fst (Except.ok.inj hwrites))

/-- A session of a module where nothing fails. -/
def quietSession : SecretKeys.Session where
  own := []
  own_le _ h := absurd h not_mem_nil
  createOther _ _ := .ok (ckrGeneralError, none)
  readOnly := false
  writeProtected := false
  setOther _ _ := none
  addTokenObject _ := none
  storeTokenObject _ := none
  complete _ := ckrOk
  setOther_ne _ _ := nofun
  addTokenObject_ne _ := nofun
  storeTokenObject_ne _ := nofun

/-- Unwrapping is total exactly if there is secure memory for the input, or it is refused. -/
theorem unwrapTotal_iff (hlib : AesCbc lib) (key : AesKey) (iv : Iv) (input : Bytes) :
    UnwrapTotal lib key iv input ↔ input.length ≤ secureMost ∨ input.length % key.value.length ≠ 0 := by
  obtain ⟨cih, hcih, -, hunwrap⟩ := exists_cipher hlib key iv
  constructor
  · intro h
    by_contra hnot
    have hlarge : secureMost < input.length := by
      by_contra hroom
      exact hnot (.inl (Nat.not_lt.1 hroom))
    have hmod : input.length % key.value.length = 0 := by
      by_contra hne
      exact hnot (.inr hne)
    have hfault : gkmAesMechanismUnwrap lib quietSession iv.mechanism (.aes key) input [] = .error .nullPointer := by
      rw [hunwrap quietSession input [] (by omega) hmod, unwrapValue, eggSecureAlloc, if_pos (.inl hlarge)]
    rcases h quietSession [] with ⟨rv, made, hrun, -⟩ | ⟨factory, value, -, hrun⟩
    · exact nomatch hfault.symm.trans hrun
    · exact nomatch hfault.symm.trans hrun
  · intro h s attrs
    by_cases hrange : input.length = 0 ∨ input.length % key.value.length ≠ 0
    · have hmechanism : ¬ iv.mechanism.mechanism ≠ ckmAesCbcPad := not_not.2 rfl
      refine .inl ⟨ckrWrappedKeyLenRange, none, ?_, fun h => absurd h (by decide)⟩
      rw [gkmAesMechanismUnwrap, if_neg hmechanism]
      exact if_pos hrange
    · have hpos : input.length ≠ 0 := fun h => hrange (.inl h)
      have hmod : input.length % key.value.length = 0 := by
        by_contra hne
        exact hrange (.inr hne)
      rw [hunwrap s input attrs hpos hmod]
      exact unwrapValue_total hlib key.known hcih s attrs hpos (h.resolve_right (not_not.2 hmod)) hmod

end Mechanism

/-- Whole blocks of 16 octets are left as they are. -/
def plainCall (u : Unit) (data : Bytes) : Option (Bytes × Unit) :=
  if data.length % 16 = 0 then some (data, u) else none

theorem plainCall_isSome_iff {u : Unit} {data : Bytes} : (plainCall u data).isSome ↔ data.length % 16 = 0 := by
  rw [plainCall]
  split
  · rename_i h
    exact iff_of_true rfl h
  · rename_i h
    exact iff_of_false Bool.false_ne_true h

theorem plainCall_eq {u u' : Unit} {data out : Bytes} (h : plainCall u data = some (out, u')) :
    out = data ∧ plainCall u out = some (data, u') := by
  have hcall := h
  rw [plainCall] at h
  split at h
  · cases h
    exact ⟨rfl, hcall⟩
  · exact nomatch h

theorem length_zeroDigest (_ : Bytes) : (replicate 16 (0 : UInt8)).length = 16 := length_replicate

/-- A library that refuses what is no whole block. -/
def sampleLibrary : CipherLibrary where
  md5 := ⟨true, 16, fun _ => replicate 16 0, length_zeroDigest⟩
  testAlgo _ := true
  blklen _ := 16
  keylen _ := 16
  Context _ := Unit
  cipherOpen _ _ := some ()
  setkey ch _ := some ch
  setiv ch _ := some ch
  encrypt := plainCall
  decrypt := plainCall

theorem aesCbc_sampleLibrary : AesCbc sampleLibrary where
  ready _ _ _ _ := ⟨(), (), (), rfl, rfl, rfl⟩
  encrypts _ _ := plainCall_isSome_iff
  decrypts _ _ := plainCall_isSome_iff
  length_encrypt _ _ h := congrArg List.length (plainCall_eq h).1
  length_decrypt _ _ h := congrArg List.length (plainCall_eq h).1
  inverts _ _ h := (plainCall_eq h).2

/-- The initialization vector of zeros. -/
def sampleIv : Iv := ⟨replicate 16 0, length_replicate⟩

/-- A key of zeros. -/
def sampleKey (n : Nat) (known : algorithmForLength n ≠ 0) : AesKey :=
  ⟨replicate n 0, (congrArg algorithmForLength length_replicate).trans_ne known⟩

end MateKeyring.Gkm.KeyWrapping
