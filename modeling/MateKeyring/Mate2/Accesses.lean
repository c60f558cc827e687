import Mathlib.Data.List.TakeWhile
import MateKeyring.Mate2.Blocks

/-!
# The bytes that a read looks at

The reader of `gkm-mate2-file.c` with each of its accesses to the bytes of a block: the reads of
`egg-buffer.c`, which compare offsets and lengths with the buffer first, and the one place where a length
that the file declares is used as it is, the hash of `validate_buffer`. An access outside of the buffer is
`Fault.outOfBounds`. There is none, whatever the file is (`gkmMate2FileReadFd_inside`), and the reader does
what `Mate2.gkmMate2FileReadFd` does (`gkmMate2FileReadFd_accesses`).
-/

set_option autoImplicit false

namespace MateKeyring.Mate2.Accesses

open Lib Egg List

/-! ## Reads -/

/-- A buffer with the bytes of a block. -/
def blockBuffer (bytes : Bytes) : EggBuffer := { eggBufferInitFull 1024 gRealloc with buf := bytes }

@[simp] theorem buf_blockBuffer (bytes : Bytes) : (blockBuffer bytes).buf = bytes := rfl

/-- The string in memory, up to its null character. -/
def cString (s : Bytes) : CString :=
  ⟨s.takeWhile (· ≠ 0), fun h => by simpa using mem_takeWhile_imp h⟩

theorem cString_val (s : CString) : cString s.val = s := by
  apply Subtype.ext
  rw [cString]
  exact takeWhile_eq_self_iff.2 fun b hb => decide_eq_true (fun hzero => s.2 (hzero ▸ hb))

/-- `egg_buffer_get_uint32`; the failure that it counts is not looked at. -/
def getUint32 (b : EggBuffer) (offset : Nat) : Checked (Option (Nat × Nat)) :=
  (eggBufferGetUint32 b offset).map Prod.fst

/-- `egg_buffer_get_uint64`. -/
def getUint64 (b : EggBuffer) (offset : Nat) : Checked (Option (Nat × Nat)) :=
  (eggBufferGetUint64 b offset).map Prod.fst

/-- `egg_buffer_get_byte_array`. -/
def getByteArray (b : EggBuffer) (offset : Nat) : Checked (Option (Option Bytes × Nat)) :=
  (eggBufferGetByteArray b offset).map Prod.fst

/-- `egg_buffer_get_string`. -/
def getString (b : EggBuffer) (offset : Nat) : Checked (Option (Option CString × Nat)) :=
  (eggBufferGetString b offset).map fun r => r.1.map fun v => (v.1.map cString, v.2)

theorem fst_readResult {α : Type} (b : EggBuffer) (r : Option α) : (readResult b r).1 = r := by
  cases r with
  | none => rfl
  | some v => rfl

section

variable (b : EggBuffer) (offset : Nat)

include b offset

theorem getUint32_eq : getUint32 b offset = .ok (uint32At b.buf offset) := by
  rw [getUint32, eggBufferGetUint32_eq]
  exact congrArg Except.ok (fst_readResult b _)

theorem getUint64_eq : getUint64 b offset = .ok (uint64At b.buf offset) := by
  rw [getUint64, eggBufferGetUint64_eq]
  exact congrArg Except.ok (fst_readResult b _)

theorem getByteArray_eq : getByteArray b offset = .ok (byteArrayAt b.buf offset) := by
  rw [getByteArray, eggBufferGetByteArray_eq]
  exact congrArg Except.ok (fst_readResult b _)

theorem getString_eq : getString b offset = .ok (stringAt b.buf offset) := by
  obtain ⟨b', hget, -⟩ := eggBufferGetString_eq b offset
  rw [getString, hget]
  apply congrArg Except.ok
  cases stringAt b.buf offset with
  | none => rfl
  | some v =>
    obtain ⟨str, next⟩ := v
    cases str with
    | none => rfl
    | some str => exact congrArg (fun s => some (some s, next)) (cString_val str)

end

/-! ## The reader -/

/-- `validate_buffer`. -/
def validateBuffer (g : Gcrypt) (b : EggBuffer) : Checked (Option Nat) := do
  match ← getUint32 b 0 with
  | none => pure none
  | some (length, offset) =>
    match ← getString b length with
    | none => pure none
    | some (salgo, hashOffset) =>
      let algo := (salgo.map g.mdMapName).getD 0
      if algo = 0 then pure none
      else
        match ← getByteArray b hashOffset with
        | none => pure none
        | some (hash, _) =>
          if (hash.getD []).length ≠ g.mdGetAlgoDlen algo then pure none
          else do
            -- the length is the one that the block declares
            let hashed ← b.peek 0 length
            if g.mdHashBuffer algo hashed ≠ hash.getD [] then pure none else pure (some offset)

/-- `decrypt_buffer`. -/
def decryptBuffer (g : Gcrypt) (input : EggBuffer) (login : GkmSecret) :
    Checked (Option Bytes) := do
  match ← getString input 0 with
  | none => pure none
  | some (salgo, offset) =>
    let calgo := (salgo.map g.cipherMapName).getD 0
    if calgo = 0 then pure none
    else
      match ← getString input offset with
      | none => pure none
      | some (salgo, offset) =>
        let halgo := (salgo.map g.mdMapName).getD 0
        if halgo = 0 then pure none
        else
          match ← getUint32 input offset with
          | none => pure none
          | some (iterations, offset) =>
            match ← getByteArray input offset with
            | none => pure none
            | some (salt, offset) =>
              match ← getByteArray input offset with
              | none => pure none
              | some (data, _) =>
                let nBlock := g.cipherGetAlgoBlklen calgo
                if nBlock = 0 ∨ (data.getD []).length % nBlock ≠ 0 then pure none
                else
                  match salt with
                  | none => .error .assertion
                  | some salt =>
                    match createCipher g login calgo halgo salt iterations with
                    | none => pure none
                    | some cipher => pure (g.cipherDecrypt calgo cipher (data.getD []))

/-- The inner loop of `update_entries_from_block`. -/
def readAttributes (b : EggBuffer) : Nat → Nat → Attributes → Checked (Attributes × Option Nat)
  | 0, offset, attributes => .ok (attributes, some offset)
  | n + 1, offset, attributes => do
      match ← getUint64 b offset with
      | none => pure (attributes, none)
      | some (type, offset) =>
        match ← getByteArray b offset with
        | none => pure (attributes, none)
        | some (data, offset) =>
          readAttributes b n offset (attributes.update (UInt64.ofNat type) (data.getD []))

/-- The outer loop of `update_entries_from_block`. -/
def readEntries (identifiers : Identifiers) (sect : UInt32) (b : EggBuffer) :
    Nat → Nat → Entries → Checked (GkmDataResult × Entries)
  | 0, _, entries => .ok (.success, entries)
  | n + 1, offset, entries => do
      match ← getString b offset with
      | none => pure (.failure, entries)
      | some (none, _) => .error .nullPointer
      | some (some str, offset) =>
        if (identifiers.lookup str).getD 0 ≠ sect then pure (.failure, entries)
        else
          let attributes := (entries.lookup str).getD ∅
          match ← getUint32 b offset with
          | none => pure (.failure, entries.insert str attributes)
          | some (nAttrs, offset) =>
            match ← readAttributes b nAttrs offset attributes with
            | (attributes, none) => pure (.failure, entries.insert str attributes)
            | (attributes, some offset) =>
              readEntries identifiers sect b n offset (entries.insert str attributes)

/-- `update_entries_from_block`. -/
def updateEntriesFromBlock (identifiers : Identifiers) (sect : UInt32)
    (entries : Entries) (b : EggBuffer) (offset : Nat) : Checked (GkmDataResult × Entries) := do
  match ← getUint32 b offset with
  | none => pure (.failure, entries)
  | some (nEntries, offset) => readEntries identifiers sect b nEntries offset entries

/-- `update_from_public_block`. -/
def updateFromPublicBlock (g : Gcrypt) (st : Reading) (b : EggBuffer) :
    Checked (GkmDataResult × Reading) := do
  match ← validateBuffer g b with
  | none => pure (.failure, st)
  | some offset => do
      let (res, publics) ← updateEntriesFromBlock st.self.identifiers sectionPublic st.self.publics b offset
      pure (res, { st with self := { st.self with publics } })

/-- `update_from_private_block` once the block is decrypted. -/
def updateFromDecrypted (g : Gcrypt) (st : Reading) (custom : EggBuffer) :
    Checked (GkmDataResult × Reading) := do
  match ← validateBuffer g custom with
  | none => pure (.locked, st)
  | some offset => do
      let (res, privates) ← updateEntriesFromBlock st.self.identifiers sectionPrivate
        (st.self.privates.getD ∅) custom offset
      pure (res, { st with self := { st.self with privates := some privates } })

/-- `update_from_private_block`. -/
def updateFromPrivateBlock (g : Gcrypt) (st : Reading) (b : EggBuffer) (login : Option GkmSecret) :
    Checked (GkmDataResult × Reading) :=
  match login with
  | none =>
    .ok (.unrecognized, { st with self := { st.self with privateSeen := true, privates := none } })
  | some login => do
      match ← decryptBuffer g b login with
      | none => pure (.failure, st.seePrivate)
      | some custom => updateFromDecrypted g st.seePrivate (blockBuffer custom)

/-- The loop of `update_from_index_block`. -/
def readIndex (b : EggBuffer) : Nat → Nat → Reading → Checked (GkmDataResult × Reading)
  | 0, _, st => .ok (.success, st)
  | n + 1, offset, st => do
      match ← getString b offset with
      | none => pure (.failure, st)
      | some (identifier, offset) =>
        match ← getUint32 b offset with
        | none => pure (.failure, st)
        | some (value, offset) =>
          match identifier with
          | none => .error .nullPointer
          | some identifier =>
            readIndex b n offset
              { self := { st.self with
                  identifiers := st.self.identifiers.insert identifier (UInt32.ofNat value) },
                checks := st.checks.erase identifier }

/-- `update_from_index_block`. -/
def updateFromIndexBlock (st : Reading) (b : EggBuffer) : Checked (GkmDataResult × Reading) := do
  match ← getUint32 b 0 with
  | none => pure (.ofBool false, st)
  | some (count, offset) => readIndex b count offset st

/-- The switch of `update_from_any_block`. -/
def updateFromBlock (g : Gcrypt) (login : Option GkmSecret) (block : UInt32) (b : EggBuffer)
    (st : Reading) : Checked (GkmDataResult × Reading) :=
  if block = fileBlockIndex then updateFromIndexBlock st b
  else if block = fileBlockPrivate then updateFromPrivateBlock g st b login
  else if block = fileBlockPublic then updateFromPublicBlock g st b
  else .ok (.unrecognized, st)

/-- `update_from_any_block`. -/
def updateFromAnyBlock (g : Gcrypt) (login : Option GkmSecret) (block : UInt32) (bytes : Bytes)
    (st : Reading) : Checked (GkmDataResult × Reading) := do
  match ← updateFromBlock g login block (blockBuffer bytes) st with
  | (.unrecognized, st) =>
    -- the block is copied with the length of its buffer
    let copy ← (blockBuffer bytes).peek 0 (blockBuffer bytes).len
    pure (.success, { st with self := { st.self with
      unknowns := { type := block, buffer := copy } :: st.self.unknowns } })
  | (res, st) => pure (res, st)

/-- `gkm_mate2_file_read_fd`. -/
def gkmMate2FileReadFd (g : Gcrypt) (self : GkmMate2File) (file : Bytes) (login : Option GkmSecret) :
    Checked (GkmDataResult × GkmMate2File) := do
  let self := { self with privateSeen := false, unknowns := [] }
  match ← parseFileBlocks (updateFromAnyBlock g login) file
    { self, checks := checksOf self.identifiers } with
  | (.success, st) => do
      let self := { st.self with incomplete := false }
      let self ← removeIdentifiers st.checks.keys self
      if self.privates.isNone ∧ self.privateSeen = false then
        pure (.success, { self with privates := some ∅ })
      else pure (.success, self)
  | (res, st) => pure (res, { st.self with incomplete := true })

/-! ## All accesses are inside -/

/-- The string that follows what is hashed is inside of the buffer, and so is what is hashed. -/
theorem validateBuffer_eq (g : Gcrypt) (b : EggBuffer) :
    validateBuffer g b = .ok (Mate2.validateBuffer g b.buf) := by
  rw [validateBuffer, Mate2.validateBuffer, getUint32_eq, ok_bind]
  cases uint32At b.buf 0 with
  | none => rfl
  | some v =>
    obtain ⟨length, offset⟩ := v
    dsimp only
    rw [getString_eq, ok_bind]
    cases hstring : stringAt b.buf length with
    | none => rfl
    | some v =>
      obtain ⟨salgo, hashOffset⟩ := v
      have hinside : length ≤ b.buf.length := by
        by_contra hbeyond
        have hnone : BigEndian.readAt 4 b.buf length = none :=
          BigEndian.readAt_eq_none_iff.2 (by omega)
        rw [stringAt, hnone] at hstring
        cases hstring
      have hpeek : b.peek 0 length = .ok (b.buf.take length) := by
        rw [EggBuffer.peek, if_pos (by rw [Nat.zero_add]; exact hinside), drop_zero]
      dsimp only
      by_cases halgo : (salgo.map g.mdMapName).getD 0 = 0
      · rw [if_pos halgo, if_pos halgo]
        rfl
      · rw [if_neg halgo, if_neg halgo, getByteArray_eq, ok_bind]
        cases byteArrayAt b.buf hashOffset with
        | none => rfl
        | some v =>
          dsimp only
          rw [hpeek, ok_bind]
          split
          · rfl
          · split
            · rfl
            · rfl

theorem decryptBuffer_eq (g : Gcrypt) (b : EggBuffer) (login : GkmSecret) :
    decryptBuffer g b login = Mate2.decryptBuffer g b.buf login := by
  rw [decryptBuffer, Mate2.decryptBuffer, getString_eq, ok_bind]
  cases stringAt b.buf 0 with
  | none => rfl
  | some v =>
    dsimp only
    split
    · rfl
    · rw [getString_eq, ok_bind]
      cases stringAt b.buf v.2 with
      | none => rfl
      | some v =>
        dsimp only
        split
        · rfl
        · rw [getUint32_eq, ok_bind]
          cases uint32At b.buf v.2 with
          | none => rfl
          | some v =>
            dsimp only
            rw [getByteArray_eq, ok_bind]
            cases byteArrayAt b.buf v.2 with
            | none => rfl
            | some w =>
              obtain ⟨salt, offset⟩ := w
              dsimp only
              rw [getByteArray_eq, ok_bind]
              cases byteArrayAt b.buf offset with
              | none => rfl
              | some w =>
                dsimp only
                split
                · rfl
                · cases salt with
                  | none => rfl
                  | some salt =>
                    dsimp only
                    generalize createCipher g login _ _ salt _ = made
                    cases made with
                    | none => rfl
                    | some cipher => rfl

theorem readAttributes_eq (b : EggBuffer) (n offset : Nat) (attributes : Attributes) :
    readAttributes b n offset attributes = .ok (Mate2.readAttributes b.buf n offset attributes) := by
  induction n generalizing offset attributes with
  | zero => rfl
  | succ n ih =>
    rw [readAttributes, Mate2.readAttributes, getUint64_eq, ok_bind]
    cases uint64At b.buf offset with
    | none => rfl
    | some v =>
      dsimp only
      rw [getByteArray_eq, ok_bind]
      cases byteArrayAt b.buf v.2 with
      | none => rfl
      | some w => exact ih w.2 _

theorem readEntries_eq (identifiers : Identifiers) (sect : UInt32) (b : EggBuffer)
    (n offset : Nat) (entries : Entries) :
    readEntries identifiers sect b n offset entries =
      Mate2.readEntries identifiers sect b.buf n offset entries := by
  induction n generalizing offset entries with
  | zero => rfl
  | succ n ih =>
    rw [readEntries, Mate2.readEntries, getString_eq, ok_bind]
    cases stringAt b.buf offset with
    | none => rfl
    | some v =>
      obtain ⟨str, offset⟩ := v
      cases str with
      | none => rfl
      | some str =>
        dsimp only
        split
        · rfl
        · rw [getUint32_eq, ok_bind]
          cases uint32At b.buf offset with
          | none => rfl
          | some v =>
            dsimp only
            rw [readAttributes_eq, ok_bind]
            generalize Mate2.readAttributes b.buf _ _ _ = r
            obtain ⟨attributes, next⟩ := r
            cases next with
            | none => rfl
            | some next => exact ih next _

theorem updateEntriesFromBlock_eq (identifiers : Identifiers) (sect : UInt32)
    (entries : Entries) (b : EggBuffer) (offset : Nat) :
    updateEntriesFromBlock identifiers sect entries b offset =
      Mate2.updateEntriesFromBlock identifiers sect entries b.buf offset := by
  rw [updateEntriesFromBlock, Mate2.updateEntriesFromBlock, getUint32_eq, ok_bind]
  cases uint32At b.buf offset with
  | none => rfl
  | some v => exact readEntries_eq identifiers sect b v.1 v.2 entries

theorem updateFromPublicBlock_eq (g : Gcrypt) (st : Reading) (b : EggBuffer) :
    updateFromPublicBlock g st b = Mate2.updateFromPublicBlock g st b.buf := by
  rw [updateFromPublicBlock, Mate2.updateFromPublicBlock, validateBuffer_eq, ok_bind]
  cases Mate2.validateBuffer g b.buf with
  | none => rfl
  | some offset =>
    dsimp only
    rw [updateEntriesFromBlock_eq]

theorem updateFromPrivateBlock_eq (g : Gcrypt) (st : Reading) (b : EggBuffer) (login : Option GkmSecret) :
    updateFromPrivateBlock g st b login = Mate2.updateFromPrivateBlock g st b.buf login := by
  cases login with
  | none => rfl
  | some login =>
    rw [updateFromPrivateBlock, Mate2.updateFromPrivateBlock, decryptBuffer_eq]
    congr 1
    funext decrypted
    cases decrypted with
    | none => rfl
    | some custom =>
      dsimp only
      rw [updateFromDecrypted, Mate2.updateFromDecrypted, validateBuffer_eq, ok_bind, buf_blockBuffer]
      cases Mate2.validateBuffer g custom with
      | none => rfl
      | some offset =>
        dsimp only
        rw [updateEntriesFromBlock_eq, buf_blockBuffer]

theorem readIndex_eq (b : EggBuffer) (n offset : Nat) (st : Reading) :
    readIndex b n offset st = Mate2.readIndex b.buf n offset st := by
  induction n generalizing offset st with
  | zero => rfl
  | succ n ih =>
    rw [readIndex, Mate2.readIndex, getString_eq, ok_bind]
    cases stringAt b.buf offset with
    | none => rfl
    | some v =>
      obtain ⟨identifier, offset⟩ := v
      dsimp only
      rw [getUint32_eq, ok_bind]
      cases uint32At b.buf offset with
      | none => rfl
      | some w =>
        cases identifier with
        | none => rfl
        | some identifier => exact ih w.2 _

theorem updateFromBlock_eq (g : Gcrypt) (login : Option GkmSecret) (block : UInt32) (b : EggBuffer)
    (st : Reading) : updateFromBlock g login block b st = Mate2.updateFromBlock g login block b.buf st := by
  rw [updateFromBlock, Mate2.updateFromBlock, updateFromPrivateBlock_eq, updateFromPublicBlock_eq]
  split
  · rw [updateFromIndexBlock, Mate2.updateFromIndexBlock, getUint32_eq, ok_bind]
    cases uint32At b.buf 0 with
    | none => rfl
    | some v => exact readIndex_eq b v.1 v.2 st
  · rfl

theorem updateFromAnyBlock_eq (g : Gcrypt) (login : Option GkmSecret) :
    updateFromAnyBlock g login = Mate2.updateFromAnyBlock g login := by
  funext block bytes st
  have hcopy : (blockBuffer bytes).peek 0 (blockBuffer bytes).len = .ok bytes := by
    rw [EggBuffer.peek, if_pos (by rw [Nat.zero_add]), drop_zero]
    exact congrArg Except.ok take_length
  rw [updateFromAnyBlock, Mate2.updateFromAnyBlock, updateFromBlock_eq, buf_blockBuffer]
  congr 1
  funext r
  obtain ⟨res, st⟩ := r
  cases res with
  | success => rfl
  | failure => rfl
  | locked => rfl
  | unrecognized =>
    dsimp only
    rw [hcopy]
    rfl

/-- The reader with its accesses is the reader. -/
theorem gkmMate2FileReadFd_accesses (g : Gcrypt) (self : GkmMate2File) (file : Bytes)
    (login : Option GkmSecret) :
    gkmMate2FileReadFd g self file login = Mate2.gkmMate2FileReadFd g self file login := by
  rw [gkmMate2FileReadFd, updateFromAnyBlock_eq]
  rfl

/-- No access was outside of its buffer. -/
def InBounds {α : Type} (x : Checked α) : Prop := x ≠ .error .outOfBounds

theorem InBounds.ok {α : Type} (a : α) : InBounds (.ok a : Checked α) := fun h => nomatch h

theorem InBounds.bind {α β : Type} {x : Checked α} {f : α → Checked β} (hx : InBounds x)
    (hf : ∀ a, InBounds (f a)) : InBounds (x >>= f) := by
  cases x with
  | error fault => exact fun h => hx (congrArg Except.error (Except.error.inj h))
  | ok a => exact hf a

theorem inBounds_decryptBuffer (g : Gcrypt) (bytes : Bytes) (login : GkmSecret) :
    InBounds (Mate2.decryptBuffer g bytes login) := by
  rw [Mate2.decryptBuffer]
  split
  · exact InBounds.ok _
  · dsimp only
    split
    · exact InBounds.ok _
    · split
      · exact InBounds.ok _
      · split
        · exact InBounds.ok _
        · split
          · exact InBounds.ok _
          · split
            · exact InBounds.ok _
            · split
              · exact InBounds.ok _
              · split
                · exact InBounds.ok _
                · split
                  · exact fun h => by cases h
                  · split
                    · exact InBounds.ok _
                    · exact InBounds.ok _

theorem inBounds_readEntries (identifiers : Identifiers) (sect : UInt32)
    (bytes : Bytes) (n offset : Nat) (entries : Entries) :
    InBounds (Mate2.readEntries identifiers sect bytes n offset entries) := by
  induction n generalizing offset entries with
  | zero => exact InBounds.ok _
  | succ n ih =>
    rw [Mate2.readEntries]
    split
    · exact InBounds.ok _
    · exact fun h => by cases h
    · split
      · exact InBounds.ok _
      · dsimp only
        split
        · exact InBounds.ok _
        · split
          · exact InBounds.ok _
          · exact ih _ _

theorem inBounds_updateEntries (identifiers : Identifiers) (sect : UInt32)
    (entries : Entries) (bytes : Bytes) (offset : Nat) :
    InBounds (Mate2.updateEntriesFromBlock identifiers sect entries bytes offset) := by
  rw [Mate2.updateEntriesFromBlock]
  split
  · exact InBounds.ok _
  · exact inBounds_readEntries identifiers sect bytes _ _ entries

theorem inBounds_readIndex (bytes : Bytes) (n offset : Nat) (st : Reading) :
    InBounds (Mate2.readIndex bytes n offset st) := by
  induction n generalizing offset st with
  | zero => exact InBounds.ok _
  | succ n ih =>
    rw [Mate2.readIndex]
    split
    · exact InBounds.ok _
    · split
      · exact InBounds.ok _
      · split
        · exact fun h => nomatch h
        · exact ih _ _

theorem inBounds_updateFromBlock (g : Gcrypt) (login : Option GkmSecret) (block : UInt32)
    (bytes : Bytes) (st : Reading) : InBounds (Mate2.updateFromBlock g login block bytes st) := by
  rw [Mate2.updateFromBlock]
  split
  · rw [Mate2.updateFromIndexBlock]
    split
    · exact InBounds.ok _
    · exact inBounds_readIndex bytes _ _ st
  · split
    · cases login with
      | none => exact InBounds.ok _
      | some login =>
        rw [Mate2.updateFromPrivateBlock]
        refine (inBounds_decryptBuffer g bytes login).bind fun decrypted => ?_
        cases decrypted with
        | none => exact InBounds.ok _
        | some custom =>
          dsimp only
          rw [Mate2.updateFromDecrypted]
          split
          · exact InBounds.ok _
          · exact (inBounds_updateEntries _ _ _ _ _).bind fun r => InBounds.ok _
    · split
      · rw [Mate2.updateFromPublicBlock]
        split
        · exact InBounds.ok _
        · exact (inBounds_updateEntries _ _ _ _ _).bind fun r => InBounds.ok _
      · exact InBounds.ok _

theorem inBounds_runBlocks {f : UInt32 → Bytes → Reading → Checked (GkmDataResult × Reading)}
    (hf : ∀ block bytes st, InBounds (f block bytes st)) (last : GkmDataResult)
    (blocks : List UnknownBlock) (st : Reading) : InBounds (runBlocks f last blocks st) := by
  induction blocks generalizing st with
  | nil => exact InBounds.ok _
  | cons block blocks ih =>
    rw [runBlocks]
    refine (hf block.type block.buffer st).bind fun r => ?_
    obtain ⟨res, st⟩ := r
    cases res with
    | success => exact ih st
    | failure => exact InBounds.ok _
    | locked => exact InBounds.ok _
    | unrecognized => exact InBounds.ok _

theorem inBounds_removeIdentifiers (keys : List Identifier) (self : GkmMate2File) :
    InBounds (removeIdentifiers keys self) := by
  induction keys generalizing self with
  | nil => exact InBounds.ok _
  | cons key keys ih =>
    rw [removeIdentifiers]
    refine InBounds.bind ?_ ih
    rw [removeEachIdentifier]
    split
    · exact fun h => by cases h
    · dsimp only
      split
      · exact InBounds.ok _
      · exact InBounds.ok _

/-- Nothing outside of a block is looked at, whatever the file is. -/
theorem gkmMate2FileReadFd_inside (g : Gcrypt) (self : GkmMate2File) (file : Bytes)
    (login : Option GkmSecret) : InBounds (gkmMate2FileReadFd g self file login) := by
  rw [gkmMate2FileReadFd_accesses, gkmMate2FileReadFd_eq, parseFileBlocks_eq]
  refine InBounds.bind (inBounds_runBlocks ?_ _ _ _) fun r => ?_
  · intro block bytes st
    rw [Mate2.updateFromAnyBlock]
    refine (inBounds_updateFromBlock g login block bytes st).bind fun r => ?_
    obtain ⟨res, st⟩ := r
    cases res with
    | success => exact InBounds.ok _
    | failure => exact InBounds.ok _
    | locked => exact InBounds.ok _
    | unrecognized => exact InBounds.ok _
  · rw [endRead]
    split
    · rw [finishRead]
      refine (inBounds_removeIdentifiers _ _).bind fun self => ?_
      split
      · exact InBounds.ok _
      · exact InBounds.ok _
    · exact InBounds.ok _

end MateKeyring.Mate2.Accesses
