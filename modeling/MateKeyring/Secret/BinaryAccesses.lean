import MateKeyring.Mate2.Accesses
import MateKeyring.Secret.Binary

/-!
# What the read of a binary keyring looks at

The reader of `gkm-secret-binary.c` with each of its accesses to the bytes of the file and of the decrypted part,
with the `int` that counts in each of its loops, with the memory that is asked for, and with the table of
attributes that is freed before another one is read. An access outside of the bytes, and a number that wraps
around, is `Fault.outOfBounds`. Each part
of it is shown to find what the reader of `Secret` finds, and to have no other fault than those.
-/

set_option autoImplicit false

namespace MateKeyring.Secret.Accesses

open Lib Egg BigEndian
open Mate2 (GkmDataResult)

/-! ## Reads -/

/-- The offset behind a value is a `gsize`. -/
def inSize {α : Type} (r : Checked (Option (α × Nat))) : Checked (Option (α × Nat)) := do
  match ← r with
  | none => pure none
  | some (v, next) => if next < 2 ^ 64 then pure (some (v, next)) else .error .outOfBounds

/-- One read after the other: `if (!first) return FALSE; return second;`. -/
def andRead {α β : Type} (r : Checked (Option (α × Nat))) (f : α → Nat → Checked (Option β)) :
    Checked (Option β) := do
  match ← r with
  | none => pure none
  | some (v, next) => f v next

/-- One more than the largest `int`. -/
def intLimit : Nat := 2 ^ 31

/-- `i++`, of an `int`. -/
def intSucc (i : Nat) : Checked Nat := if i + 1 < intLimit then .ok (i + 1) else .error .outOfBounds

/-- A loop that does not look at the bytes any more, from `i` on. -/
def countItems : Nat → Nat → Checked Unit
  | 0, _ => .ok ()
  | n + 1, i => do
      let i ← intSucc i
      countItems n i

def getUint32 (b : EggBuffer) (offset : Nat) : Checked (Option (Nat × Nat)) :=
  inSize (Mate2.Accesses.getUint32 b offset)

def getString (b : EggBuffer) (offset : Nat) : Checked (Option (Option CString × Nat)) :=
  inSize (Mate2.Accesses.getString b offset)

def getByteArray (b : EggBuffer) (offset : Nat) : Checked (Option (Option Bytes × Nat)) :=
  inSize (Mate2.Accesses.getByteArray b offset)

/-- `buffer_get_bytes`. -/
def bufferGetBytes (b : EggBuffer) (offset n : Nat) : Checked (Option (Bytes × Nat)) :=
  if b.len < n ∨ offset > b.len - n then .ok none
  else inSize do
    let out ← b.peek offset n
    pure (some (out, offset + n))

/-- `buffer_get_time`. -/
def bufferGetTime (b : EggBuffer) (offset : Nat) : Checked (Option (BitVec 64 × Nat)) :=
  andRead (getUint32 b offset) fun a offset =>
    andRead (getUint32 b offset) fun c offset => .ok (some (BitVec.ofNat 64 (a * 2 ^ 32 + c), offset))

/-- `buffer_get_utf8_string`. -/
def bufferGetUtf8String (b : EggBuffer) (offset : Nat) : Checked (Option (Option CString × Nat)) :=
  andRead (getString b offset) fun str offset =>
    if str.all fun s => utf8Validate s.val then .ok (some (str, offset)) else .ok none

/-- One round of the loop of `buffer_get_attributes`. -/
def getAttribute (b : EggBuffer) (hashed : Bool) (offset : Nat) (attributes : Fields) :
    Checked (Option (Fields × Nat)) :=
  andRead (bufferGetUtf8String b offset) fun name offset =>
    andRead (getUint32 b offset) fun type offset =>
      if type = 0 then
        andRead (bufferGetUtf8String b offset) fun str offset =>
          .ok (some (if hashed then gkmSecretFieldsAddCompatHashedString attributes name str
            else gkmSecretFieldsTake attributes name str, offset))
      else if type = 1 then
        andRead (getUint32 b offset) fun val offset =>
          .ok (some (if hashed then gkmSecretFieldsAddCompatHashedUint32 attributes name (UInt32.ofNat val)
            else gkmSecretFieldsAddCompatUint32 attributes name (UInt32.ofNat val), offset))
      else .ok none

/-- The loop of `buffer_get_attributes`, from `i` on. -/
def getAttributesLoop (b : EggBuffer) (hashed : Bool) :
    Nat → Nat → Nat → Fields → Checked (Option (Fields × Nat))
  | 0, _, offset, attributes => .ok (some (attributes, offset))
  | n + 1, i, offset, attributes =>
    andRead (getAttribute b hashed offset attributes) fun attributes offset => do
      let i ← intSucc i
      getAttributesLoop b hashed n i offset attributes

/-- `buffer_get_attributes`. -/
def bufferGetAttributes (b : EggBuffer) (offset : Nat) (hashed : Bool) :
    Checked (Option (Fields × Nat)) :=
  andRead (getUint32 b offset) fun listSize offset => getAttributesLoop b hashed listSize 0 offset ∅

/-- One round of the loop of `decode_acl`. -/
def decodeAccess (b : EggBuffer) (offset : Nat) : Checked (Option (GkmSecretAccess × Nat)) :=
  andRead (getUint32 b offset) fun x offset =>
    andRead (bufferGetUtf8String b offset) fun name offset =>
      andRead (bufferGetUtf8String b offset) fun path offset =>
        andRead (bufferGetUtf8String b offset) fun _ offset =>
          andRead (getUint32 b offset) fun _ offset =>
            .ok (some ({ displayName := name, pathname := path, typesAllowed := UInt32.ofNat x }, offset))

/-- The loop of `decode_acl`, from `i` on. -/
def decodeAclLoop (b : EggBuffer) :
    Nat → Nat → Nat → List GkmSecretAccess → Checked (Option (List GkmSecretAccess × Nat))
  | 0, _, offset, acl => .ok (some (acl.reverse, offset))
  | n + 1, i, offset, acl =>
    andRead (decodeAccess b offset) fun ac offset => do
      let i ← intSucc i
      decodeAclLoop b n i offset (ac :: acl)

/-- `decode_acl`. -/
def decodeAcl (b : EggBuffer) (offset : Nat) : Checked (Option (List GkmSecretAccess × Nat)) :=
  andRead (getUint32 b offset) fun numAcs offset => decodeAclLoop b numAcs 0 offset []

/-- `read_hashed_item_info`, for the items from `i` on. -/
def readHashedItemInfo (b : EggBuffer) : Nat → Nat → Nat → Checked (Option (List ItemInfo × Nat))
  | 0, _, offset => .ok (some ([], offset))
  | n + 1, i, offset =>
    andRead (getUint32 b offset) fun id offset =>
      andRead (getUint32 b offset) fun type offset =>
        andRead (bufferGetAttributes b offset true) fun attributes offset => do
          let i ← intSucc i
          andRead (readHashedItemInfo b n i offset) fun items offset =>
            .ok (some (ItemInfo.hashed id type attributes :: items, offset))

/-- Four reserved words. -/
def skipReserved (b : EggBuffer) (offset : Nat) : Checked (Option (Unit × Nat)) :=
  andRead (getUint32 b offset) fun _ offset =>
    andRead (getUint32 b offset) fun _ offset =>
      andRead (getUint32 b offset) fun _ offset =>
        andRead (getUint32 b offset) fun _ offset => .ok (some ((), offset))

/-- What `read_full_item_info` reads of an item before its attributes. -/
def readItemData (b : EggBuffer) (offset : Nat) (info : ItemInfo) : Checked (Option (ItemInfo × Nat)) :=
  andRead (bufferGetUtf8String b offset) fun displayName offset =>
    andRead (getByteArray b offset) fun secret offset =>
      andRead (bufferGetTime b offset) fun ctime offset =>
        andRead (bufferGetTime b offset) fun mtime offset =>
          andRead (bufferGetUtf8String b offset) fun _ offset =>
            andRead (skipReserved b offset) fun _ offset =>
              .ok (some ({ info with displayName, secret, ctime, mtime }, offset))

/-- `read_full_item_info`, for the items from `i` on. -/
def readFullItemInfo (b : EggBuffer) : List ItemInfo → Nat → Nat → Checked (Option (List ItemInfo))
  | [], _, _ => .ok (some [])
  | info :: items, i, offset =>
    andRead (readItemData b offset info) fun info offset => do
      -- the hashed attributes are freed here, and `free_item_info` comes to what is there then
      match ← bufferGetAttributes b offset false with
      | none => .error .outOfBounds
      | some (attributes, offset) =>
        andRead (decodeAcl b offset) fun acl offset => do
          let i ← intSucc i
          let rest ← readFullItemInfo b items i offset
          pure (rest.map fun items => { info with attributes, acl } :: items)

/-- The part of `gkm_secret_binary_read` that reads the header. -/
def readHeader (b : EggBuffer) (offset : Nat) : Checked (Option (Header × Nat)) :=
  andRead (bufferGetUtf8String b offset) fun displayName offset =>
    andRead (bufferGetTime b offset) fun ctime offset =>
      andRead (bufferGetTime b offset) fun mtime offset =>
        andRead (getUint32 b offset) fun flags offset =>
          andRead (getUint32 b offset) fun lockTimeout offset =>
            andRead (getUint32 b offset) fun hashIterations offset =>
              andRead (bufferGetBytes b offset 8) fun salt offset =>
                andRead (skipReserved b offset) fun _ offset =>
                  andRead (getUint32 b offset) fun numItems offset =>
                    .ok (some ({ displayName, ctime, mtime, flags, lockTimeout := BitVec.ofNat 32 lockTimeout,
                                 hashIterations, salt, numItems }, offset))

/-! ## The read -/

/-- `EGG_BUFFER_EMPTY`, with an allocator. -/
def emptyBuffer (secureRealloc : EggBufferAllocator) : EggBuffer :=
  { buf := [], allocatedLen := 0, failures := 0, allocator := some secureRealloc, attempts := 0 }

/-- The copy of the encrypted part; whether there is memory for it is not looked at. -/
def copyToDecrypt (secureRealloc : EggBufferAllocator) (buffer : EggBuffer) (offset cryptoSize : Nat) :
    Checked Bytes :=
  if (eggBufferReserve (emptyBuffer secureRealloc) cryptoSize).1 = false ∧ 0 < cryptoSize then .error .nullPointer
  else buffer.peek offset cryptoSize

/-- The decrypted part, as `Secret.readEncrypted`. -/
def readEncrypted (g : Gcrypt) (sdata : Option GkmSecretData) (header : Header) (toDecrypt : Bytes)
    (items : List ItemInfo) : Checked (Except GkmDataResult (List ItemInfo)) :=
  match sdata with
  | none => .ok (.ok items)
  | some data => do
      match ← decryptBuffer g toDecrypt data.master header.salt header.hashIterations with
      | none => pure (.error .failure)
      | some toDecrypt =>
        if ← verifyDecryptedBuffer g.md5 toDecrypt then
          match ← readFullItemInfo (eggBufferInitStatic toDecrypt) items 0 16 with
          | none => pure (.error .failure)
          | some items => pure (.ok items)
        else pure (.error .locked)

/-- What `gkm_secret_binary_read` does with the items. -/
def readItems (g : Gcrypt) (secureRealloc : EggBufferAllocator) (st : Loading) (buffer : EggBuffer)
    (header : Header) (offset : Nat) : Checked (GkmDataResult × Loading) := do
  match ← readHashedItemInfo buffer header.numItems 0 offset with
  | none => pure (.failure, st)
  | some (items, offset) =>
    match ← getUint32 buffer offset with
    | none => pure (.failure, st)
    | some (cryptoSize, offset) =>
      if cryptoSize % 16 ≠ 0 then pure (.failure, st)
      else do
        let toDecrypt ← copyToDecrypt secureRealloc buffer offset cryptoSize
        match ← readEncrypted g st.sdata header toDecrypt items with
        | .error res => pure (res, st)
        | .ok items => do
            countItems header.numItems 0
            pure (.success, st.update header items)

/-- `gkm_secret_binary_read`. -/
def gkmSecretBinaryRead (g : Gcrypt) (secureRealloc : EggBufferAllocator) (st : Loading) (data : Bytes) :
    Checked (GkmDataResult × Loading) :=
  let buffer := eggBufferInitStatic data
  if buffer.len < 15 then .ok (.unrecognized, st)
  else do
    let magic ← buffer.peek 0 15
    if magic ≠ keyringFileHeader then pure (.unrecognized, st)
    else do
      let version ← buffer.peek 15 4
      if version ≠ [0, 0, 0, 0] then pure (.unrecognized, st)
      else
        match ← readHeader buffer 19 with
        | none => pure (.failure, st)
        | some (header, offset) => do
            -- the number of items to allocate wraps around, and there is no memory for none
            cAssert (header.numItems + 1 ≠ 2 ^ 32)
            let r ← readItems g secureRealloc st buffer header offset
            -- each item is freed, whether it was read or not
            countItems header.numItems 0
            pure r

/-! ## All reads are inside -/

variable {α β : Type} {b : EggBuffer} {offset k m : Nat}

/-- The read gives this, and what is behind it is further on by so much and not behind the end. -/
structure ReadsAs (b : EggBuffer) (offset k : Nat) (r : Checked (Option (α × Nat))) (p : Option (α × Nat)) :
    Prop where
  eq : r = .ok p
  after : ∀ v next, p = some (v, next) → offset + k ≤ next ∧ next ≤ b.buf.length

theorem ReadsAs.none : ReadsAs (α := α) b offset k (.ok .none) .none :=
  ⟨rfl, fun _ _ h => nomatch h⟩

theorem ReadsAs.pure {v : α} (h : offset ≤ b.buf.length) :
    ReadsAs b offset 0 (.ok (some (v, offset))) (some (v, offset)) :=
  ⟨rfl, fun _ _ h' => by cases h'; exact ⟨Nat.le_refl _, h⟩⟩

theorem andRead_some (v : α) (next : Nat) (f : α → Nat → Checked (Option β)) :
    andRead (.ok (some (v, next))) f = f v next := rfl

/-- One read after the other is further on by both; what they find depends on what the first one finds. -/
theorem ReadsAs.step {r : Checked (Option (α × Nat))} {p : Option (α × Nat)}
    {f : α → Nat → Checked (Option (β × Nat))} {q : Option (β × Nat)} (hr : ReadsAs b offset k r p)
    (hnone : p = .none → q = .none)
    (hsome : ∀ v next, p = some (v, next) → next ≤ b.buf.length → ReadsAs b next m (f v next) q) :
    ReadsAs b offset (m + k) (andRead r f) q := by
  obtain ⟨rfl, hafter⟩ := hr
  cases p with
  | none =>
    rw [hnone rfl]
    exact .none
  | some x =>
    obtain ⟨hle, hlen⟩ := hafter x.1 x.2 rfl
    obtain ⟨heq, hafter'⟩ := hsome x.1 x.2 rfl hlen
    refine ⟨heq, fun v next h => ?_⟩
    obtain ⟨hle', hlen'⟩ := hafter' v next h
    exact ⟨by omega, hlen'⟩

theorem ReadsAs.ite {c : Prop} [Decidable c] {r r' : Checked (Option (α × Nat))} {p p' : Option (α × Nat)}
    (h : ReadsAs b offset k r p) (h' : ReadsAs b offset k r' p') :
    ReadsAs b offset k (if c then r else r') (if c then p else p') := by
  by_cases hc : c
  · rw [if_pos hc, if_pos hc]
    exact h
  · rw [if_neg hc, if_neg hc]
    exact h'

/-- A read that is not behind the end has its offset in a `gsize`. -/
theorem readsAs_inSize {r : Checked (Option (α × Nat))} {p : Option (α × Nat)} (hb : b.buf.length < 2 ^ 64)
    (hr : r = .ok p) (hafter : ∀ v next, p = some (v, next) → offset + k ≤ next ∧ next ≤ b.buf.length) :
    ReadsAs b offset k (inSize r) p := by
  refine ⟨?_, hafter⟩
  subst hr
  cases p with
  | none => rfl
  | some x =>
    have hnext : x.2 < 2 ^ 64 := lt_of_le_of_lt (hafter x.1 x.2 rfl).2 hb
    show (if x.2 < 2 ^ 64 then _ else _) = _
    rw [if_pos hnext]
    rfl

variable (hb : b.buf.length < 2 ^ 64)

include hb

theorem readsAs_uint32 (offset : Nat) : ReadsAs b offset 4 (getUint32 b offset) (uint32At b.buf offset) := by
  refine readsAs_inSize hb (Mate2.Accesses.getUint32_eq b offset) fun v next h => ?_
  rw [uint32At] at h
  obtain ⟨x, hx, heq⟩ := Option.map_eq_some_iff.1 h
  cases heq
  exact ⟨Nat.le_refl _, (readAt_bounds hx).1⟩

theorem readsAs_string (offset : Nat) : ReadsAs b offset 4 (getString b offset) (stringAt b.buf offset) := by
  refine readsAs_inSize hb (Mate2.Accesses.getString_eq b offset) fun v next h => ?_
  rw [stringAt] at h
  cases hlen : readAt 4 b.buf offset with
  | none =>
    rw [hlen] at h
    cases h
  | some len =>
    have hle := (readAt_bounds hlen).1
    rw [hlen] at h
    dsimp only at h
    split at h
    · cases h
      exact ⟨Nat.le_refl _, hle⟩
    · split at h
      · cases h
      · cases hs : sliceAt b.buf (offset + 4) len with
        | none =>
          rw [hs] at h
          cases h
        | some s =>
          rw [hs] at h
          dsimp only at h
          split at h
          · cases h
          · cases h
            exact ⟨Nat.le_add_right _ _, (sliceAt_eq_some_iff.1 hs).1⟩

theorem readsAs_byteArray (offset : Nat) :
    ReadsAs b offset 4 (getByteArray b offset) (byteArrayAt b.buf offset) := by
  refine readsAs_inSize hb (Mate2.Accesses.getByteArray_eq b offset) fun v next h => ?_
  rw [byteArrayAt] at h
  cases hlen : readAt 4 b.buf offset with
  | none =>
    rw [hlen] at h
    cases h
  | some len =>
    have hle := (readAt_bounds hlen).1
    rw [hlen] at h
    dsimp only at h
    split at h
    · cases h
      exact ⟨Nat.le_refl _, hle⟩
    · split at h
      · cases h
      · obtain ⟨s, hs, heq⟩ := Option.map_eq_some_iff.1 h
        cases heq
        exact ⟨Nat.le_add_right _ _, (sliceAt_eq_some_iff.1 hs).1⟩

theorem readsAs_bytes (offset n : Nat) :
    ReadsAs b offset n (bufferGetBytes b offset n) (Secret.bufferGetBytes b.buf offset n) := by
  rw [bufferGetBytes, Secret.bufferGetBytes, EggBuffer.len]
  by_cases h : b.buf.length < n ∨ offset > b.buf.length - n
  · rw [if_pos h, if_pos h]
    exact .none
  · rw [if_neg h, if_neg h]
    have hin : offset + n ≤ b.buf.length := by omega
    apply readsAs_inSize hb
    · rw [EggBuffer.peek, EggBuffer.len, if_pos hin]
      rfl
    · intro v next heq
      cases heq
      exact ⟨Nat.le_refl _, hin⟩

theorem readsAs_time (offset : Nat) :
    ReadsAs b offset 8 (bufferGetTime b offset) (Secret.bufferGetTime b.buf offset) := by
  rw [Secret.bufferGetTime]
  refine (readsAs_uint32 hb offset).step (fun h => by rw [h]) fun a next h _ => ?_
  rw [h]
  dsimp only
  refine (readsAs_uint32 hb next).step (fun h => by rw [h]) fun c next h hle => ?_
  rw [h]
  exact .pure hle

theorem readsAs_utf8String (offset : Nat) :
    ReadsAs b offset 4 (bufferGetUtf8String b offset) (Secret.bufferGetUtf8String b.buf offset) := by
  rw [Secret.bufferGetUtf8String]
  refine (readsAs_string hb offset).step (fun h => by rw [h]) fun str next h hle => ?_
  rw [h]
  exact .ite (.pure hle) .none

/-- One round of the loop of `buffer_get_attributes`, of the bytes. -/
def attributeAt (buffer : Bytes) (hashed : Bool) (offset : Nat) (attributes : Fields) : Option (Fields × Nat) :=
  Secret.getAttributesLoop buffer hashed 1 offset attributes

omit hb in
theorem getAttributesLoop_succ (buffer : Bytes) (hashed : Bool) (n offset : Nat) (attributes : Fields) :
    Secret.getAttributesLoop buffer hashed (n + 1) offset attributes =
      (attributeAt buffer hashed offset attributes).bind fun r =>
        Secret.getAttributesLoop buffer hashed n r.2 r.1 := by
  rw [attributeAt, Secret.getAttributesLoop, Secret.getAttributesLoop]
  rcases Secret.bufferGetUtf8String buffer offset with _ | ⟨name, next⟩
  · rfl
  dsimp only
  rcases uint32At buffer next with _ | ⟨type, next⟩
  · rfl
  dsimp only
  split
  · rcases Secret.bufferGetUtf8String buffer next with _ | ⟨str, next⟩
    · rfl
    · rfl
  · split
    · rcases uint32At buffer next with _ | ⟨val, next⟩
      · rfl
      · rfl
    · rfl

theorem readsAs_attribute (hashed : Bool) (offset : Nat) (attributes : Fields) :
    ReadsAs b offset 12 (getAttribute b hashed offset attributes) (attributeAt b.buf hashed offset attributes) := by
  rw [attributeAt, Secret.getAttributesLoop]
  refine (readsAs_utf8String hb offset).step (fun h => by rw [h]) fun name next h _ => ?_
  rw [h]
  dsimp only
  refine (readsAs_uint32 hb next).step (fun h => by rw [h]) fun type next h _ => ?_
  rw [h]
  dsimp only
  refine .ite ?_ (.ite ?_ .none)
  · refine (readsAs_utf8String hb next).step (fun h => by rw [h]) fun str next h hle => ?_
    rw [h]
    exact .pure hle
  · refine (readsAs_uint32 hb next).step (fun h => by rw [h]) fun val next h hle => ?_
    rw [h]
    exact .pure hle

theorem readsAs_skipReserved (offset : Nat) :
    ReadsAs b offset 16 (skipReserved b offset) ((Secret.skipReserved b.buf offset).map fun next => ((), next)) := by
  rw [Secret.skipReserved]
  refine (readsAs_uint32 hb offset).step (fun h => by rw [h]; rfl) fun _ next h _ => ?_
  rw [h]
  dsimp only
  refine (readsAs_uint32 hb next).step (fun h => by rw [h]; rfl) fun _ next h _ => ?_
  rw [h]
  dsimp only
  refine (readsAs_uint32 hb next).step (fun h => by rw [h]; rfl) fun _ next h _ => ?_
  rw [h]
  dsimp only
  refine (readsAs_uint32 hb next).step (fun h => by rw [h]; rfl) fun _ next h hle => ?_
  rw [h]
  exact .pure hle

theorem readsAs_itemData (offset : Nat) (info : ItemInfo) :
    ReadsAs b offset 44 (readItemData b offset info) (Secret.readItemData b.buf offset info) := by
  rw [Secret.readItemData]
  refine (readsAs_utf8String hb offset).step (fun h => by rw [h]) fun displayName next h _ => ?_
  rw [h]
  dsimp only
  refine (readsAs_byteArray hb next).step (fun h => by rw [h]) fun secret next h _ => ?_
  rw [h]
  dsimp only
  refine (readsAs_time hb next).step (fun h => by rw [h]) fun ctime next h _ => ?_
  rw [h]
  dsimp only
  refine (readsAs_time hb next).step (fun h => by rw [h]) fun mtime next h _ => ?_
  rw [h]
  dsimp only
  refine (readsAs_utf8String hb next).step (fun h => by rw [h]) fun _ next h _ => ?_
  rw [h]
  dsimp only
  refine (readsAs_skipReserved hb next).step (fun h => ?_) fun _ next h hle => ?_
  · rw [Option.map_eq_none_iff.1 h]
    rfl
  · obtain ⟨_, hskip, heq⟩ := Option.map_eq_some_iff.1 h
    cases heq
    rw [hskip]
    exact .pure hle

theorem readsAs_header (offset : Nat) :
    ReadsAs b offset 60 (readHeader b offset) (Secret.readHeader b.buf offset) := by
  rw [Secret.readHeader]
  refine (readsAs_utf8String hb offset).step (fun h => by rw [h]) fun displayName next h _ => ?_
  rw [h]
  dsimp only
  refine (readsAs_time hb next).step (fun h => by rw [h]) fun ctime next h _ => ?_
  rw [h]
  dsimp only
  refine (readsAs_time hb next).step (fun h => by rw [h]) fun mtime next h _ => ?_
  rw [h]
  dsimp only
  refine (readsAs_uint32 hb next).step (fun h => by rw [h]) fun flags next h _ => ?_
  rw [h]
  dsimp only
  refine (readsAs_uint32 hb next).step (fun h => by rw [h]) fun lockTimeout next h _ => ?_
  rw [h]
  dsimp only
  refine (readsAs_uint32 hb next).step (fun h => by rw [h]) fun hashIterations next h _ => ?_
  rw [h]
  dsimp only
  refine (readsAs_bytes hb next 8).step (fun h => by rw [h]) fun salt next h _ => ?_
  rw [h]
  dsimp only
  refine (readsAs_skipReserved hb next).step (fun h => ?_) fun _ next h _ => ?_
  · rw [Option.map_eq_none_iff.1 h]
  · obtain ⟨_, hskip, heq⟩ := Option.map_eq_some_iff.1 h
    cases heq
    rw [hskip]
    dsimp only
    refine (readsAs_uint32 hb next).step (fun h => by rw [h]; rfl) fun numItems next h hle => ?_
    rw [h]
    exact .pure hle

/-- One round of the loop of `decode_acl`, of the bytes. -/
def accessAt (buffer : Bytes) (offset : Nat) : Option (GkmSecretAccess × Nat) :=
  (uint32At buffer offset).bind fun x =>
    (Secret.bufferGetUtf8String buffer x.2).bind fun name =>
      (Secret.bufferGetUtf8String buffer name.2).bind fun path =>
        (Secret.bufferGetUtf8String buffer path.2).bind fun reserved =>
          (uint32At buffer reserved.2).map fun y =>
            ({ displayName := name.1, pathname := path.1, typesAllowed := UInt32.ofNat x.1 }, y.2)

omit hb in
theorem decodeAclLoop_succ (buffer : Bytes) (n offset : Nat) (acl : List GkmSecretAccess) :
    Secret.decodeAclLoop buffer (n + 1) offset acl =
      (accessAt buffer offset).bind fun r => Secret.decodeAclLoop buffer n r.2 (r.1 :: acl) := by
  rw [Secret.decodeAclLoop, accessAt]
  rcases uint32At buffer offset with _ | ⟨x, next⟩
  · rfl
  rw [Option.bind_some]
  dsimp only
  rcases Secret.bufferGetUtf8String buffer next with _ | ⟨name, next⟩
  · rfl
  rw [Option.bind_some]
  dsimp only
  rcases Secret.bufferGetUtf8String buffer next with _ | ⟨path, next⟩
  · rfl
  rw [Option.bind_some]
  dsimp only
  rcases Secret.bufferGetUtf8String buffer next with _ | ⟨reserved, next⟩
  · rfl
  rw [Option.bind_some]
  dsimp only
  rcases uint32At buffer next with _ | ⟨y, next⟩
  · rfl
  · rfl

theorem readsAs_access (offset : Nat) :
    ReadsAs b offset 20 (decodeAccess b offset) (accessAt b.buf offset) := by
  rw [accessAt]
  refine (readsAs_uint32 hb offset).step (fun h => by rw [h]; rfl) fun x next h _ => ?_
  rw [h, Option.bind_some]
  refine (readsAs_utf8String hb next).step (fun h => by rw [h]; rfl) fun name next h _ => ?_
  rw [h, Option.bind_some]
  refine (readsAs_utf8String hb next).step (fun h => by rw [h]; rfl) fun path next h _ => ?_
  rw [h, Option.bind_some]
  refine (readsAs_utf8String hb next).step (fun h => by rw [h]; rfl) fun _ next h _ => ?_
  rw [h, Option.bind_some]
  refine (readsAs_uint32 hb next).step (fun h => by rw [h]; rfl) fun _ next h hle => ?_
  rw [h]
  exact .pure hle

/-! ## Counting with an `int` -/

omit hb in
theorem intLimit_pos : 0 < intLimit := Nat.two_pow_pos 31

omit hb in
theorem intSucc_ok {i : Nat} (h : i + 1 < intLimit) : intSucc i = .ok (i + 1) := if_pos h

omit hb in
/-- A loop comes to its end if its number is an `int`. -/
theorem countItems_ok {n i : Nat} (h : n + i < intLimit) : countItems n i = .ok () := by
  induction n generalizing i with
  | zero => rfl
  | succ n ih =>
    rw [countItems, intSucc_ok (by omega)]
    exact ih (by omega)

omit hb in
theorem lt_of_countItems {n i : Nat} (hi : i < intLimit) (h : countItems n i = .ok ()) : n + i < intLimit := by
  induction n generalizing i with
  | zero => rwa [Nat.zero_add]
  | succ n ih =>
    rw [countItems] at h
    by_cases hlt : i + 1 < intLimit
    · rw [intSucc_ok hlt] at h
      have hend := ih hlt h
      omega
    · rw [intSucc, if_neg hlt] at h
      exact nomatch h

omit hb in
theorem ReadsAs.mono {r : Checked (Option (α × Nat))} {p : Option (α × Nat)} (h : ReadsAs b offset k r p)
    (hm : m ≤ k) : ReadsAs b offset m r p :=
  ⟨h.eq, fun v next hp => ⟨by have := (h.after v next hp).1; omega, (h.after v next hp).2⟩⟩

section

variable (hsmall : b.buf.length < intLimit)

include hsmall

/-- A round takes some bytes, so that a buffer of the size of an `int` has no more rounds than an `int` counts. -/
theorem readsAs_attributesLoop (hashed : Bool) (n : Nat) {i offset : Nat}
    (hi : i ≤ offset) (hle : offset ≤ b.buf.length) (attributes : Fields) :
    ReadsAs b offset 0 (getAttributesLoop b hashed n i offset attributes)
      (Secret.getAttributesLoop b.buf hashed n offset attributes) := by
  induction n generalizing i offset attributes with
  | zero => exact .pure hle
  | succ n ih =>
    rw [getAttributesLoop_succ]
    refine ((readsAs_attribute hb hashed offset attributes).step (m := 0) (fun h => by rw [h]; rfl) ?_).mono
      (Nat.zero_le _)
    intro attributes' next h hnext
    obtain ⟨hafter, -⟩ := (readsAs_attribute hb hashed offset attributes).after _ _ h
    rw [h, Option.bind_some, intSucc_ok (by omega)]
    exact ih (by omega) hnext attributes'

theorem readsAs_attributes (offset : Nat) (hashed : Bool) :
    ReadsAs b offset 4 (bufferGetAttributes b offset hashed) (Secret.bufferGetAttributes b.buf offset hashed) := by
  rw [Secret.bufferGetAttributes]
  refine (readsAs_uint32 hb offset).step (fun h => by rw [h]) fun listSize next h hle => ?_
  rw [h]
  exact readsAs_attributesLoop hb hsmall hashed listSize (Nat.zero_le _) hle ∅

theorem readsAs_aclLoop (n : Nat) {i offset : Nat} (hi : i ≤ offset)
    (hle : offset ≤ b.buf.length) (acl : List GkmSecretAccess) :
    ReadsAs b offset 0 (decodeAclLoop b n i offset acl) (Secret.decodeAclLoop b.buf n offset acl) := by
  induction n generalizing i offset acl with
  | zero => exact .pure hle
  | succ n ih =>
    rw [decodeAclLoop_succ]
    refine ((readsAs_access hb offset).step (m := 0) (fun h => by rw [h]; rfl) ?_).mono (Nat.zero_le _)
    intro ac next h hnext
    obtain ⟨hafter, -⟩ := (readsAs_access hb offset).after _ _ h
    rw [h, Option.bind_some, intSucc_ok (by omega)]
    exact ih (by omega) hnext (ac :: acl)

theorem readsAs_acl (offset : Nat) :
    ReadsAs b offset 4 (decodeAcl b offset) (Secret.decodeAcl b.buf offset) := by
  rw [Secret.decodeAcl]
  refine (readsAs_uint32 hb offset).step (fun h => by rw [h]) fun numAcs next h hle => ?_
  rw [h]
  exact readsAs_aclLoop hb hsmall numAcs (Nat.zero_le _) hle []

end

/-- The loop over attributes, in a buffer of any size: its number is an `int`, or there are not as many. -/
theorem attributesLoop_eq (hashed : Bool) {n i offset : Nat} (hi : i < intLimit) (attributes : Fields)
    (h : n + i < intLimit ∨ Secret.getAttributesLoop b.buf hashed (intLimit - i) offset attributes = none) :
    getAttributesLoop b hashed n i offset attributes =
      .ok (Secret.getAttributesLoop b.buf hashed n offset attributes) := by
  induction n generalizing i offset attributes with
  | zero => rfl
  | succ n ih =>
    have hround := (readsAs_attribute hb hashed offset attributes).eq
    have hlimit : intLimit - i = intLimit - (i + 1) + 1 := by omega
    rw [hlimit, getAttributesLoop_succ] at h
    rw [getAttributesLoop, getAttributesLoop_succ, hround]
    cases hat : attributeAt b.buf hashed offset attributes with
    | none => rfl
    | some r =>
      rw [hat, Option.bind_some] at h
      have hlt : i + 1 < intLimit := by
        rcases h with h | h
        · omega
        · -- there is one more round than the `int` counts
          by_contra hge
          have hzero : intLimit - (i + 1) = 0 := by omega
          rw [hzero] at h
          exact nomatch h
      show (do
        let i ← intSucc i
        getAttributesLoop b hashed n i r.2 r.1) = _
      rw [intSucc_ok hlt]
      exact ih hlt r.1 (h.imp_left fun h => by omega)

theorem of_attributesLoop (hashed : Bool) {n i offset : Nat} (hi : i < intLimit) {attributes : Fields}
    {r : Option (Fields × Nat)} (h : getAttributesLoop b hashed n i offset attributes = .ok r) :
    n + i < intLimit ∨ Secret.getAttributesLoop b.buf hashed (intLimit - i) offset attributes = none := by
  induction n generalizing i offset attributes with
  | zero => exact .inl (by omega)
  | succ n ih =>
    have hround := (readsAs_attribute hb hashed offset attributes).eq
    have hlimit : intLimit - i = intLimit - (i + 1) + 1 := by omega
    rw [getAttributesLoop, hround] at h
    rw [hlimit, getAttributesLoop_succ]
    cases hat : attributeAt b.buf hashed offset attributes with
    | none => exact .inr rfl
    | some v =>
      rw [hat] at h
      change (do
        let i ← intSucc i
        getAttributesLoop b hashed n i v.2 v.1) = _ at h
      by_cases hlt : i + 1 < intLimit
      · rw [intSucc_ok hlt] at h
        rw [Option.bind_some]
        exact (ih hlt h).imp_left fun h => by omega
      · rw [intSucc, if_neg hlt] at h
        exact nomatch h

/-! ## The hashed items -/

omit hb

/-- The attributes at an offset are not more than an `int` counts. -/
def AttributesCounted (buffer : Bytes) (offset : Nat) : Prop :=
  ∀ listSize next, uint32At buffer offset = some (listSize, next) →
    listSize < intLimit ∨ Secret.getAttributesLoop buffer true intLimit next ∅ = none

/-- The hashed attributes of the items that are read are not more than an `int` counts. -/
def HashedCounted (buffer : Bytes) : Nat → Nat → Prop
  | 0, _ => True
  | n + 1, offset =>
    ∀ id next type next', uint32At buffer offset = some (id, next) → uint32At buffer next = some (type, next') →
      AttributesCounted buffer next' ∧
        ∀ attributes next'', Secret.bufferGetAttributes buffer next' true = some (attributes, next'') →
          HashedCounted buffer n next''

include hb

theorem bufferGetAttributes_eq {offset : Nat} (h : AttributesCounted b.buf offset) :
    bufferGetAttributes b offset true = .ok (Secret.bufferGetAttributes b.buf offset true) := by
  rw [bufferGetAttributes, Secret.bufferGetAttributes, (readsAs_uint32 hb offset).eq]
  cases hsize : uint32At b.buf offset with
  | none => rfl
  | some r => exact attributesLoop_eq hb true intLimit_pos ∅ (h r.1 r.2 hsize)

theorem counted_of_attributes {offset : Nat} {r : Option (Fields × Nat)}
    (h : bufferGetAttributes b offset true = .ok r) : AttributesCounted b.buf offset := by
  intro listSize next hsize
  rw [bufferGetAttributes, (readsAs_uint32 hb offset).eq, hsize] at h
  exact of_attributesLoop hb true intLimit_pos h

theorem readHashed_eq {n i offset : Nat} (hn : n + i < intLimit) (h : HashedCounted b.buf n offset) :
    readHashedItemInfo b n i offset = .ok (Secret.readHashedItemInfo b.buf n offset) := by
  induction n generalizing i offset with
  | zero => rfl
  | succ n ih =>
    rw [readHashedItemInfo, Secret.readHashedItemInfo, (readsAs_uint32 hb offset).eq]
    cases hid : uint32At b.buf offset with
    | none => rfl
    | some id =>
      show andRead (getUint32 b id.2) _ = _
      dsimp only
      rw [(readsAs_uint32 hb id.2).eq]
      cases htype : uint32At b.buf id.2 with
      | none => rfl
      | some type =>
        obtain ⟨hcounted, hmore⟩ := h id.1 id.2 type.1 type.2 hid htype
        show andRead (bufferGetAttributes b type.2 true) _ = _
        dsimp only
        rw [bufferGetAttributes_eq hb hcounted]
        cases hattrs : Secret.bufferGetAttributes b.buf type.2 true with
        | none => rfl
        | some attributes =>
          show (do
            let i ← intSucc i
            andRead (readHashedItemInfo b n i attributes.2) _) = _
          rw [intSucc_ok (by omega), ok_bind, ih (by omega) (hmore attributes.1 attributes.2 hattrs)]
          dsimp only
          cases Secret.readHashedItemInfo b.buf n attributes.2 <;> rfl

theorem counted_of_readHashed {n i offset : Nat} (hn : n + i < intLimit) {r : Option (List ItemInfo × Nat)}
    (h : readHashedItemInfo b n i offset = .ok r) : HashedCounted b.buf n offset := by
  induction n generalizing i offset r with
  | zero => trivial
  | succ n ih =>
    intro id next type next' hid htype
    rw [readHashedItemInfo, (readsAs_uint32 hb offset).eq, hid] at h
    change andRead (getUint32 b next) _ = _ at h
    rw [(readsAs_uint32 hb next).eq, htype] at h
    change andRead (bufferGetAttributes b next' true) _ = _ at h
    have hcounted : AttributesCounted b.buf next' := by
      cases hattrs : bufferGetAttributes b next' true with
      | error fault =>
        rw [hattrs] at h
        exact nomatch h
      | ok attributes => exact counted_of_attributes hb hattrs
    refine ⟨hcounted, fun attributes next'' hattrs => ?_⟩
    rw [bufferGetAttributes_eq hb hcounted, hattrs] at h
    change (do
      let i ← intSucc i
      andRead (readHashedItemInfo b n i next'') _) = _ at h
    rw [intSucc_ok (by omega), ok_bind] at h
    cases hrest : readHashedItemInfo b n (i + 1) next'' with
    | error fault =>
      rw [hrest] at h
      exact nomatch h
    | ok rest => exact ih (by omega) hrest

/-! ## The full items -/

/-- The reader of the full items has no fault but that of the freed table. -/
theorem readFull_eq (hsmall : b.buf.length < intLimit) (items : List ItemInfo) {i offset : Nat} (hi : i ≤ offset) :
    readFullItemInfo b items i offset = Secret.readFullItemInfo b.buf items offset := by
  induction items generalizing i offset with
  | nil => rfl
  | cons info items ih =>
    have hread := readsAs_itemData hb offset info
    rw [readFullItemInfo, Secret.readFullItemInfo, hread.eq]
    cases hitem : Secret.readItemData b.buf offset info with
    | none => rfl
    | some item =>
      obtain ⟨item, next⟩ := item
      have hitemAfter := hread.after item next hitem
      have hattrsRead := readsAs_attributes hb hsmall next false
      rw [andRead_some, hattrsRead.eq, ok_bind]
      dsimp only
      cases hattrs : Secret.bufferGetAttributes b.buf next false with
      | none => rfl
      | some attributes =>
        obtain ⟨attributes, next'⟩ := attributes
        have hattrsAfter := hattrsRead.after attributes next' hattrs
        have haclRead := readsAs_acl hb hsmall next'
        dsimp only
        rw [haclRead.eq]
        cases hacl : Secret.decodeAcl b.buf next' with
        | none => rfl
        | some acl =>
          obtain ⟨acl, next''⟩ := acl
          have haclAfter := haclRead.after acl next'' hacl
          rw [andRead_some, intSucc_ok (by omega), ok_bind, ih (by omega)]

omit hb

/-- The attributes of each item that is read in full can be read. -/
def AttributesWhole (buffer : Bytes) : List ItemInfo → Nat → Prop
  | [], _ => True
  | info :: items, offset =>
    ∀ item next, Secret.readItemData buffer offset info = some (item, next) →
      ∃ attributes next', Secret.bufferGetAttributes buffer next false = some (attributes, next') ∧
        ∀ acl next'', Secret.decodeAcl buffer next' = some (acl, next'') → AttributesWhole buffer items next''

/-- No table is used when it is freed, just if the attributes of each item can be read. -/
theorem readFull_ok_iff (buffer : Bytes) (items : List ItemInfo) (offset : Nat) :
    (∃ r, Secret.readFullItemInfo buffer items offset = .ok r) ↔ AttributesWhole buffer items offset := by
  induction items generalizing offset with
  | nil => exact iff_of_true ⟨_, rfl⟩ trivial
  | cons info items ih =>
    rw [Secret.readFullItemInfo, AttributesWhole]
    cases hitem : Secret.readItemData buffer offset info with
    | none => exact iff_of_true ⟨_, rfl⟩ fun item next h => nomatch h
    | some item =>
      dsimp only
      cases hattrs : Secret.bufferGetAttributes buffer item.2 false with
      | none =>
        refine iff_of_false (fun ⟨r, h⟩ => nomatch h) fun h => ?_
        obtain ⟨attributes, next', heq, -⟩ := h item.1 item.2 rfl
        exact nomatch hattrs.symm.trans heq
      | some attributes =>
        have hcongr : (∀ item' next, some item = some (item', next) →
            ∃ attributes next', Secret.bufferGetAttributes buffer next false = some (attributes, next') ∧
              ∀ acl next'', Secret.decodeAcl buffer next' = some (acl, next'') →
                AttributesWhole buffer items next'') ↔
            ∀ acl next'', Secret.decodeAcl buffer attributes.2 = some (acl, next'') →
              AttributesWhole buffer items next'' := by
          constructor
          · intro h
            obtain ⟨attributes', next', heq, hacl⟩ := h item.1 item.2 rfl
            cases hattrs.symm.trans heq
            exact hacl
          · rintro h item' next ⟨⟩
            exact ⟨attributes.1, attributes.2, hattrs, h⟩
        rw [hcongr]
        dsimp only
        cases hacl : Secret.decodeAcl buffer attributes.2 with
        | none => exact iff_of_true ⟨_, rfl⟩ fun acl next h => nomatch h
        | some acl =>
          dsimp only
          rw [show (∀ acl' next'', some acl = some (acl', next'') → AttributesWhole buffer items next'') ↔
            AttributesWhole buffer items acl.2 from
            ⟨fun h => h acl.1 acl.2 rfl, fun h acl' next'' heq => by cases heq; exact h⟩, ← ih acl.2]
          constructor
          · rintro ⟨r, h⟩
            obtain ⟨rest, hrest, -⟩ := bind_eq_ok.1 h
            exact ⟨rest, hrest⟩
          · rintro ⟨rest, hrest⟩
            rw [hrest]
            exact ⟨_, rfl⟩

end MateKeyring.Secret.Accesses
