import MateKeyring.Egg.Reader
import MateKeyring.Lib.CText

/-!
# What is added to a buffer is got from it

The `egg_buffer_add_*` and `egg_buffer_get_*` functions as one codec. Each item that is added successfully appends
its wire form, and the getter of its kind finds the item at a wire form and goes on behind it, so that a sequence of
items is read back by induction. The one item that does not come back is a string vector with as many strings as the
`uint32_t` of their number cannot hold with one more for the null at the end (`stringv_long`). No getter looks or
stores outside, whatever the buffer holds.
-/

set_option autoImplicit false

namespace MateKeyring.Egg.Codec

open Lib BigEndian List

variable {bs : Bytes} {strv : List CString} {next : Nat} {β : Type}

/-- The allocator of results: whether the `n`-th request, for `size` bytes, is given memory. None is given for no
bytes. -/
structure ResultAllocator where
  grants : Nat → Nat → Bool
  null : ∀ n, grants n 0 = false

/-- The buffer that is read, and the requests that were made for results. -/
structure Source where
  buffer : EggBuffer
  attempts : Nat

/-! ## Getters with an allocator -/

/-- `egg_buffer_get_string` with the request for the copy. -/
def eggBufferGetString (alloc : ResultAllocator) (s : Source) (offset : Nat) :
    Checked (Option (Option Bytes × Nat) × Source) := do
  match ← Egg.eggBufferGetString s.buffer offset with
  | (none, buffer) => pure (none, { s with buffer })
  | (some (none, next), buffer) => pure (some (none, next), { s with buffer })
  | (some (some str, next), buffer) =>
    if alloc.grants s.attempts (str.length + 1) = false then pure (none, ⟨buffer, s.attempts + 1⟩)
    else pure (some (some str, next), ⟨buffer, s.attempts + 1⟩)

/-- `(*strv_ret)[i] = str`. -/
def storeAt (vector : List (Option Bytes)) (i : Nat) (str : Option Bytes) :
    Checked (List (Option Bytes)) :=
  if i < vector.length then .ok (vector.set i str) else .error .outOfBounds

/-- The loop of `egg_buffer_get_stringv`, with the number of strings still to come. -/
def getStringsInto (alloc : ResultAllocator) :
    Nat → Nat → Source → Nat → List (Option Bytes) →
      Checked (Option (List (Option Bytes) × Nat) × Source)
  | 0, _, s, offset, vector => .ok (some (vector, offset), s)
  | n + 1, i, s, offset, vector => do
    match ← eggBufferGetString alloc s offset with
    -- the strings before are freed
    | (none, s) => pure (none, s)
    | (some (str, offset), s) => do
      let vector ← storeAt vector i str
      getStringsInto alloc n (i + 1) s offset vector

/-- `egg_buffer_get_stringv`: the vector with the null at its end. -/
def eggBufferGetStringv (alloc : ResultAllocator) (s : Source) (offset : Nat) :
    Checked (Option (List (Option Bytes) × Nat) × Source) := do
  match ← eggBufferGetUint32 s.buffer offset with
  | (none, buffer) => pure (none, { s with buffer })
  | (some (n, offset), buffer) =>
    -- `n + 1` is a `uint32_t`, and a pointer has eight bytes
    let entries := (n + 1) % 2 ^ 32
    if alloc.grants s.attempts (entries * 8) = false then pure (none, ⟨buffer, s.attempts + 1⟩)
    else getStringsInto alloc n 0 ⟨buffer, s.attempts + 1⟩ offset (replicate entries none)

/-! ## Items -/

/-- What can be added, with the type that the adding function takes. -/
inductive Item where
  | byte (val : UInt8)
  | uint16 (val : UInt16)
  | uint32 (val : UInt32)
  | uint64 (val : UInt64)
  | byteArray (val : Option Bytes)
  | string (str : Option CString)
  | stringv (strv : List CString)

/-- The getters. -/
inductive Kind where
  | byte
  | uint16
  | uint32
  | uint64
  | byteArray
  | string
  | stringv

/-- What a getter finds. -/
inductive Value where
  | byte (val : UInt8)
  | number (val : Nat)
  | octets (val : Option Bytes)
  | vector (strv : List (Option Bytes))

namespace Item

/-- The getter for an item. -/
def kind : Item → Kind
  | byte _ => .byte
  | uint16 _ => .uint16
  | uint32 _ => .uint32
  | uint64 _ => .uint64
  | byteArray _ => .byteArray
  | string _ => .string
  | stringv _ => .stringv

/-- What is to be found for an item. -/
def value : Item → Value
  | byte val => .byte val
  | uint16 val => .number val.toNat
  | uint32 val => .number val.toNat
  | uint64 val => .number val.toNat
  | byteArray val => .octets val
  | string str => .octets (str.map Subtype.val)
  | stringv strv => .vector (strv.map (fun str => some str.val) ++ [none])

/-- The adding function of an item. -/
def add : Item → EggBuffer → Bool × EggBuffer
  | byte val, b => eggBufferAddByte b val
  | uint16 val, b => eggBufferAddUint16 b val.toNat
  | uint32 val, b => eggBufferAddUint32 b val.toNat
  | uint64 val, b => eggBufferAddUint64 b val.toNat
  | byteArray val, b => eggBufferAddByteArray b val
  | string str, b => eggBufferAddString b (str.map Subtype.val)
  | stringv strv, b => eggBufferAddStringv b (strv.map Subtype.val)

/-- The wire form of an item. -/
def wire : Item → Bytes
  | byte val => [val]
  | uint16 val => encode 2 val.toNat
  | uint32 val => encode 4 val.toNat
  | uint64 val => encode 8 val.toNat
  | byteArray val => byteArrayBytes val
  | string str => byteArrayBytes (str.map Subtype.val)
  | stringv strv => stringvBytes strv

/-- The lengths of arrays and strings are below `0x7fffffff`. -/
def Sized : Item → Prop
  | byteArray val => ∀ data, val = some data → data.length < 0x7fffffff
  | string str => ∀ s, str = some s → s.val.length < 0x7fffffff
  | stringv strv => ∀ s ∈ strv, s.val.length < 0x7fffffff
  | _ => True

end Item

/-- Add the items one after the other, as long as that succeeds. -/
def addAll : List Item → EggBuffer → Bool × EggBuffer
  | [], b => (true, b)
  | item :: items, b => andThen (item.add b) (addAll items)

/-- A getter of `egg-buffer.c` with what it finds. -/
def getWith {β : Type} (f : EggBuffer → Nat → Checked (Option (β × Nat) × EggBuffer)) (wrap : β → Value)
    (s : Source) (offset : Nat) : Checked (Option (Value × Nat) × Source) := do
  let (r, buffer) ← f s.buffer offset
  pure (r.map fun x => (wrap x.1, x.2), { s with buffer })

/-- The getter of a kind. -/
def getItem (alloc : ResultAllocator) : Kind → Source → Nat → Checked (Option (Value × Nat) × Source)
  | .byte, s, offset => getWith eggBufferGetByte .byte s offset
  | .uint16, s, offset => getWith eggBufferGetUint16 .number s offset
  | .uint32, s, offset => getWith eggBufferGetUint32 .number s offset
  | .uint64, s, offset => getWith eggBufferGetUint64 .number s offset
  | .byteArray, s, offset => getWith eggBufferGetByteArray .octets s offset
  | .string, s, offset => do
    let (r, s) ← eggBufferGetString alloc s offset
    pure (r.map fun x => (.octets x.1, x.2), s)
  | .stringv, s, offset => do
    let (r, s) ← eggBufferGetStringv alloc s offset
    pure (r.map fun x => (.vector x.1, x.2), s)

/-- Get an item of each kind, one after the other. -/
def getAll (alloc : ResultAllocator) : List Kind → Source → Nat → Checked (Option (List Value × Nat) × Source)
  | [], s, offset => .ok (some ([], offset), s)
  | kind :: kinds, s, offset => do
    match ← getItem alloc kind s offset with
    | (none, s) => pure (none, s)
    | (some (val, offset), s) => do
      let (r, s) ← getAll alloc kinds s offset
      pure (r.map fun x => (val :: x.1, x.2), s)

variable {alloc : ResultAllocator} {s : Source} {offset : Nat} {b b' : EggBuffer}

/-! ## Adding -/

theorem andThen_true {r : Bool × EggBuffer} {f : EggBuffer → Bool × EggBuffer} (h : andThen r f = (true, b')) :
    r.1 = true ∧ f r.2 = (true, b') := by
  rw [andThen] at h
  split at h
  · rename_i hfirst
    exact ⟨hfirst, h⟩
  · cases h

theorem Writes.buf_eq {r : Bool × EggBuffer} {out : Bytes} (h : Writes b r out) (hr : r = (true, b')) :
    b'.buf = b.buf ++ out := by
  subst hr
  exact (h.ok rfl).1

/-- A string that was added is not too long. -/
theorem addString_ok {str : Bytes} (h : eggBufferAddString b (some str) = (true, b')) :
    str.length < 0x7fffffff ∧ b'.buf = b.buf ++ byteArrayBytes (some str) := by
  by_cases hlen : str.length < 0x7fffffff
  · exact ⟨hlen, Writes.buf_eq (eggBufferAddString_writes b str hlen) h⟩
  · rw [eggBufferAddString, if_pos (by omega)] at h
    cases h

theorem addStrings_ok (h : addStrings (strv.map Subtype.val) b = (true, b')) :
    (∀ str ∈ strv, str.val.length < 0x7fffffff) ∧
      b'.buf = b.buf ++ strv.flatMap fun str => byteArrayBytes (some str.val) := by
  induction strv generalizing b with
  | nil =>
    obtain rfl : b = b' := congrArg Prod.snd h
    exact ⟨fun _ hmem => absurd hmem not_mem_nil, (append_nil _).symm⟩
  | cons str strv ih =>
    rw [map_cons, addStrings] at h
    obtain ⟨hfirst, hrest⟩ := andThen_true h
    obtain ⟨hlen, hbuf⟩ := addString_ok (Prod.ext hfirst rfl)
    obtain ⟨hlens, hbufs⟩ := ih hrest
    refine ⟨?_, ?_⟩
    · intro x hx
      rcases mem_cons.1 hx with rfl | hx
      · exact hlen
      · exact hlens x hx
    · rw [hbufs, hbuf, flatMap_cons, append_assoc]

/-- What is added appends its wire form. -/
theorem add_ok {item : Item} (h : item.add b = (true, b')) : item.Sized ∧ b'.buf = b.buf ++ item.wire := by
  cases item with
  | byte val => exact ⟨trivial, Writes.buf_eq (eggBufferAddByte_writes b val) h⟩
  | uint16 val => exact ⟨trivial, Writes.buf_eq (eggBufferAddUint16_writes b _) h⟩
  | uint32 val => exact ⟨trivial, Writes.buf_eq (eggBufferAddUint32_writes b _) h⟩
  | uint64 val => exact ⟨trivial, Writes.buf_eq (eggBufferAddUint64_writes b _) h⟩
  | byteArray val =>
    refine ⟨?_, Writes.buf_eq (eggBufferAddByteArray_writes b val) h⟩
    rintro data rfl
    exact eggBufferAddByteArray_ok_length (congrArg Prod.fst h)
  | string str =>
    cases str with
    | none => exact ⟨fun _ hnone => (by cases hnone), Writes.buf_eq (eggBufferAddUint32_writes b _) h⟩
    | some str =>
      obtain ⟨hlen, hbuf⟩ := addString_ok h
      refine ⟨?_, hbuf⟩
      intro x hx
      cases hx
      exact hlen
  | stringv strv =>
    obtain ⟨hfirst, hrest⟩ := andThen_true h
    have hcount := Writes.buf_eq (eggBufferAddUint32_writes b _) (Prod.ext hfirst rfl)
    obtain ⟨hlens, hbufs⟩ := addStrings_ok hrest
    refine ⟨hlens, ?_⟩
    rw [hbufs, hcount, length_map, append_assoc]
    rfl

theorem addAll_ok {items : List Item} (h : addAll items b = (true, b')) :
    (∀ item ∈ items, item.Sized) ∧ b'.buf = b.buf ++ items.flatMap Item.wire := by
  induction items generalizing b with
  | nil =>
    obtain rfl : b = b' := congrArg Prod.snd h
    exact ⟨fun _ hmem => absurd hmem not_mem_nil, (append_nil _).symm⟩
  | cons item items ih =>
    rw [addAll] at h
    obtain ⟨hfirst, hrest⟩ := andThen_true h
    obtain ⟨hsized, hbuf⟩ := add_ok (Prod.ext hfirst rfl)
    obtain ⟨hsizeds, hbufs⟩ := ih hrest
    refine ⟨?_, ?_⟩
    · intro x hx
      rcases mem_cons.1 hx with rfl | hx
      · exact hsized
      · exact hsizeds x hx
    · rw [hbufs, hbuf, flatMap_cons, append_assoc]

/-! ## Getting anything -/

/-- The read comes to an end without looking or storing outside, the bytes stay as they are, and what is found ends
inside of them. -/
def Ends {β : Type} (buf : Bytes) (r : Checked (Option (β × Nat) × Source)) : Prop :=
  ∃ x s, r = .ok (x, s) ∧ s.buffer.buf = buf ∧ ∀ val next, x = some (val, next) → next ≤ buf.length

theorem readResult_buf (b : EggBuffer) (r : Option β) : (readResult b r).2.buf = b.buf := by
  cases r with
  | none => rfl
  | some _ => rfl

/-- A getter that is described by a function of the bytes. -/
theorem ends_getWith {f : EggBuffer → Nat → Checked (Option (β × Nat) × EggBuffer)} {wrap : β → Value}
    {found : Bytes → Nat → Option (β × Nat)}
    (heq : ∀ b offset, f b offset = .ok (readResult b (found b.buf offset)))
    (hle : ∀ bs offset val next, found bs offset = some (val, next) → next ≤ bs.length) :
    Ends s.buffer.buf (getWith f wrap s offset) := by
  rw [getWith, heq, ok_bind]
  refine ⟨_, _, rfl, readResult_buf _ _, ?_⟩
  intro val next hsome
  have hbound := hle s.buffer.buf offset
  cases hfound : found s.buffer.buf offset with
  | none =>
    rw [hfound] at hsome
    cases hsome
  | some r =>
    rw [hfound] at hsome hbound
    cases hsome
    exact hbound r.1 r.2 rfl

theorem readAt_next_le {k : Nat} {val next : Nat}
    (h : (readAt k bs offset).map (fun v => (v, offset + k)) = some (val, next)) : next ≤ bs.length := by
  obtain ⟨v, hv, heq⟩ := Option.map_eq_some_iff.1 h
  cases heq
  exact (readAt_bounds hv).1

theorem byteAt_next_le {val : UInt8} (h : byteAt bs offset = some (val, next)) :
    next ≤ bs.length := by
  obtain ⟨v, hv, heq⟩ := Option.map_eq_some_iff.1 h
  cases heq
  obtain ⟨hlt, -⟩ := List.getElem?_eq_some_iff.1 hv
  exact hlt

theorem byteArrayAt_next_le {val : Option Bytes} (h : byteArrayAt bs offset = some (val, next)) :
    next ≤ bs.length := by
  rw [byteArrayAt] at h
  cases hread : readAt 4 bs offset with
  | none =>
    rw [hread] at h
    cases h
  | some len =>
    rw [hread] at h
    dsimp only at h
    have hheader := (readAt_bounds hread).1
    split at h
    · cases h
      exact hheader
    · split at h
      · cases h
      · obtain ⟨v, hv, heq⟩ := Option.map_eq_some_iff.1 h
        cases heq
        exact (sliceAt_eq_some_iff.1 hv).1

theorem stringAt_next_le {val : Option CString} (h : stringAt bs offset = some (val, next)) :
    next ≤ bs.length := by
  rw [stringAt] at h
  cases hread : readAt 4 bs offset with
  | none =>
    rw [hread] at h
    cases h
  | some len =>
    rw [hread] at h
    dsimp only at h
    have hheader := (readAt_bounds hread).1
    split at h
    · cases h
      exact hheader
    · split at h
      · cases h
      · cases hslice : sliceAt bs (offset + 4) len with
        | none =>
          rw [hslice] at h
          cases h
        | some v =>
          rw [hslice] at h
          dsimp only at h
          split at h
          · cases h
          · cases h
            exact (sliceAt_eq_some_iff.1 hslice).1

/-- Reading a string changes no byte. -/
theorem getString_buf {x : Option (Option Bytes × Nat)} (h : Egg.eggBufferGetString b offset = .ok (x, b')) :
    b'.buf = b.buf := by
  rw [Egg.eggBufferGetString, eggBufferGetUint32_eq, ok_bind] at h
  cases hnum : uint32At b.buf offset with
  | none =>
    rw [hnum] at h
    cases h
    rfl
  | some r =>
    rw [hnum, readResult_some] at h
    dsimp only at h
    split at h
    · cases h
      rfl
    · split at h
      · cases h
        rfl
      · split at h
        · cases h
          rfl
        · obtain ⟨val, -, h⟩ := bind_eq_ok.1 h
          split at h
          · cases h
            rfl
          · cases h
            rfl

theorem ends_getString (alloc : ResultAllocator) (s : Source) (offset : Nat) :
    Ends s.buffer.buf (eggBufferGetString alloc s offset) := by
  obtain ⟨b', h, -⟩ := eggBufferGetString_eq s.buffer offset
  have hbuf := getString_buf h
  rw [eggBufferGetString, h, ok_bind]
  cases hfound : stringAt s.buffer.buf offset with
  | none => exact ⟨_, _, rfl, hbuf, fun _ _ hsome => by cases hsome⟩
  | some r =>
    obtain ⟨str, next⟩ := r
    have hle := stringAt_next_le hfound
    cases str with
    | none =>
      refine ⟨_, _, rfl, hbuf, fun _ _ hsome => ?_⟩
      cases hsome
      exact hle
    | some str =>
      dsimp only [Option.map_some]
      split
      · exact ⟨_, _, rfl, hbuf, fun _ _ hsome => by cases hsome⟩
      · refine ⟨_, _, rfl, hbuf, fun _ _ hsome => ?_⟩
        cases hsome
        exact hle

/-- The strings are stored inside the vector, which keeps its length. -/
theorem ends_getStringsInto {n i : Nat} {vector : List (Option Bytes)} (hroom : i + n ≤ vector.length)
    (hoffset : offset ≤ s.buffer.buf.length) :
    Ends s.buffer.buf (getStringsInto alloc n i s offset vector) ∧
      ∀ strv next s', getStringsInto alloc n i s offset vector = .ok (some (strv, next), s') →
        strv.length = vector.length := by
  induction n generalizing i s offset vector with
  | zero =>
    refine ⟨⟨_, _, rfl, rfl, fun _ _ hsome => ?_⟩, fun strv next s' hrun => ?_⟩
    · cases hsome
      exact hoffset
    · cases hrun
      rfl
  | succ n ih =>
    obtain ⟨x, s', hrun, hbuf, hle⟩ := ends_getString alloc s offset
    rw [getStringsInto, hrun, ok_bind]
    cases x with
    | none =>
      refine ⟨⟨_, _, rfl, hbuf, fun _ _ hsome => by cases hsome⟩, fun strv next s'' hrun => ?_⟩
      cases hrun
    | some r =>
      obtain ⟨str, next⟩ := r
      have hstore : storeAt vector i str = .ok (vector.set i str) := if_pos (by omega)
      have hrest := @ih s' next (i + 1) (vector.set i str) (by rw [length_set]; omega)
        (by rw [hbuf]; exact hle str next rfl)
      rw [hbuf, length_set] at hrest
      dsimp only
      rw [hstore, ok_bind]
      exact hrest

theorem ends_getStringv (alloc : ResultAllocator) (s : Source) (offset : Nat) :
    Ends s.buffer.buf (eggBufferGetStringv alloc s offset) := by
  rw [eggBufferGetStringv, eggBufferGetUint32_eq, ok_bind]
  cases hnum : uint32At s.buffer.buf offset with
  | none => exact ⟨_, _, rfl, rfl, fun _ _ hsome => by cases hsome⟩
  | some r =>
    obtain ⟨n, next⟩ := r
    have hnext := readAt_next_le hnum
    have hlt : n < 2 ^ 32 := by
      obtain ⟨v, hv, heq⟩ := Option.map_eq_some_iff.1 hnum
      cases heq
      exact (readAt_bounds hv).2
    rw [readResult_some]
    dsimp only
    split
    · exact ⟨_, _, rfl, rfl, fun _ _ hsome => by cases hsome⟩
    · rename_i hgrants
      -- a vector that was given memory has a place for the null, so that the number did not go around
      have hentries : (n + 1) % 2 ^ 32 = n + 1 := by
        apply Nat.mod_eq_of_lt
        by_contra hwrap
        have hzero : (n + 1) % 2 ^ 32 * 8 = 0 := by omega
        rw [hzero, alloc.null] at hgrants
        exact hgrants rfl
      rw [hentries]
      refine (@ends_getStringsInto alloc ⟨s.buffer, s.attempts + 1⟩ next n 0 (replicate (n + 1) none) ?_
        hnext).1
      rw [length_replicate]
      omega

/-- A getter that finds a value in its own form. -/
theorem Ends.map {buf : Bytes} {r : Checked (Option (β × Nat) × Source)} (h : Ends buf r)
    (wrap : β → Value) :
    Ends buf (do
      let (r, s) ← r
      pure (r.map fun x => (wrap x.1, x.2), s)) := by
  obtain ⟨x, s, rfl, hbuf, hle⟩ := h
  refine ⟨_, _, rfl, hbuf, fun val next hsome => ?_⟩
  obtain ⟨y, hy, heq⟩ := Option.map_eq_some_iff.1 hsome
  cases heq
  exact hle y.1 y.2 hy

/-- No getter looks outside, and none goes on behind the bytes. -/
theorem ends_getItem (alloc : ResultAllocator) (kind : Kind) (s : Source) (offset : Nat) :
    Ends s.buffer.buf (getItem alloc kind s offset) := by
  cases kind with
  | byte => exact ends_getWith eggBufferGetByte_eq fun _ _ _ _ => byteAt_next_le
  | uint16 => exact ends_getWith eggBufferGetUint16_eq fun _ _ _ _ => readAt_next_le
  | uint32 => exact ends_getWith eggBufferGetUint32_eq fun _ _ _ _ => readAt_next_le
  | uint64 => exact ends_getWith eggBufferGetUint64_eq fun _ _ _ _ => readAt_next_le
  | byteArray => exact ends_getWith eggBufferGetByteArray_eq fun _ _ _ _ => byteArrayAt_next_le
  | string => exact (ends_getString alloc s offset).map .octets
  | stringv => exact (ends_getStringv alloc s offset).map .vector

/-! ## Getting what was added -/

/-- The allocator gives memory whenever it is asked for some. -/
def ResultAllocator.Plenty (alloc : ResultAllocator) : Prop := ∀ i n, 0 < n → alloc.grants i n = true

theorem getString_of_hasAt {str : CString} (halloc : alloc.Plenty)
    (hat : HasAt s.buffer.buf offset (byteArrayBytes (some str.val)))
    (hlen : str.val.length < 0x7fffffff) :
    eggBufferGetString alloc s offset =
      .ok (some (some str.val, offset + (byteArrayBytes (some str.val)).length), ⟨s.buffer, s.attempts + 1⟩) := by
  have hfound := stringAt_of_hasAt hat hlen
  obtain ⟨b', h, hsame⟩ := eggBufferGetString_eq s.buffer offset
  have hb : b' = s.buffer := hsame (by rw [hfound]; exact Option.some_ne_none _)
  rw [hfound, hb] at h
  rw [eggBufferGetString, h, ok_bind]
  dsimp only [Option.map_some]
  rw [halloc _ _ (Nat.succ_pos _)]
  rfl

/-- The strings that are there go into the vector behind those that are in it. -/
theorem getStringsInto_of_hasAt {strv : List CString} {done : List (Option Bytes)} (halloc : alloc.Plenty)
    (hat : HasAt s.buffer.buf offset (strv.flatMap fun str => byteArrayBytes (some str.val)))
    (hlen : ∀ str ∈ strv, str.val.length < 0x7fffffff) :
    ∃ s', getStringsInto alloc strv.length done.length s offset (done ++ replicate (strv.length + 1) none) =
        .ok (some (done ++ (strv.map (fun str => some str.val) ++ [none]),
          offset + (strv.flatMap fun str => byteArrayBytes (some str.val)).length), s') ∧
      s'.buffer = s.buffer := by
  induction strv generalizing s offset done with
  | nil => exact ⟨s, rfl, rfl⟩
  | cons str strv ih =>
    rw [flatMap_cons] at hat
    have hfirst := getString_of_hasAt halloc hat.left (hlen str mem_cons_self)
    have hstore : storeAt (done ++ replicate (strv.length + 1 + 1) none) done.length (some str.val) =
        .ok (done ++ [some str.val] ++ replicate (strv.length + 1) none) := by
      rw [storeAt, if_pos, replicate_succ, set_append_right _ _ (Nat.le_refl _), Nat.sub_self,
        set_cons_zero, append_assoc, singleton_append]
      rw [length_append, length_replicate]
      omega
    obtain ⟨s', hrest, hbuf⟩ := @ih ⟨s.buffer, s.attempts + 1⟩ _ (done ++ [some str.val]) hat.right
      (forall_mem_cons.1 hlen).2
    refine ⟨s', ?_, hbuf⟩
    rw [length_append, length_singleton] at hrest
    rw [length_cons, getStringsInto, hfirst, ok_bind]
    dsimp only
    rw [hstore, ok_bind, hrest, map_cons, flatMap_cons, length_append, Nat.add_assoc,
      append_assoc, singleton_append, cons_append]

/-- A vector comes back if its number and one more are a `uint32_t`. -/
theorem getStringv_of_hasAt (halloc : alloc.Plenty)
    (hat : HasAt s.buffer.buf offset (stringvBytes strv))
    (hlen : ∀ str ∈ strv, str.val.length < 0x7fffffff) (hcount : strv.length < 2 ^ 32 - 1) :
    ∃ s', eggBufferGetStringv alloc s offset =
        .ok (some (strv.map (fun str => some str.val) ++ [none], offset + (stringvBytes strv).length), s') ∧
      s'.buffer = s.buffer := by
  have hnum := uint32At_of_hasAt hat.left (by omega)
  have hentries : (strv.length + 1) % 2 ^ 32 = strv.length + 1 := Nat.mod_eq_of_lt (by omega)
  have hrest := hat.right
  rw [length_encode] at hrest
  obtain ⟨s', hrun, hbuf⟩ := @getStringsInto_of_hasAt alloc ⟨s.buffer, s.attempts + 1⟩ _ strv [] halloc hrest hlen
  refine ⟨s', ?_, hbuf⟩
  rw [eggBufferGetStringv, eggBufferGetUint32_eq, hnum, readResult_some, ok_bind]
  dsimp only
  rw [hentries, halloc _ _ (by omega), if_neg (by decide)]
  have hlength : offset + (stringvBytes strv).length =
      offset + 4 + (strv.flatMap fun str => byteArrayBytes (some str.val)).length := by
    rw [stringvBytes, length_append, length_encode, Nat.add_assoc]
  rw [hlength]
  exact hrun

/-- A vector with more strings does not. -/
theorem stringv_long {strv' : List (Option Bytes)} {s' : Source}
    (hat : HasAt s.buffer.buf offset (stringvBytes strv)) (hcount : ¬ strv.length < 2 ^ 32 - 1)
    (hrun : eggBufferGetStringv alloc s offset = .ok (some (strv', next), s')) :
    strv' ≠ strv.map (fun str => some str.val) ++ [none] := by
  have hfield : HasAt s.buffer.buf offset (encode 4 (strv.length % 256 ^ 4)) := by
    rw [encode_mod (Nat.le_refl 4)]
    exact hat.left
  have hlt : strv.length % 256 ^ 4 < 2 ^ 32 := Nat.mod_lt _ (by decide)
  have hnum := uint32At_of_hasAt hfield hlt
  have hnext := readAt_next_le hnum
  generalize hn : strv.length % 256 ^ 4 = n at hlt hnum
  rw [eggBufferGetStringv, eggBufferGetUint32_eq, hnum, readResult_some, ok_bind] at hrun
  dsimp only at hrun
  split at hrun
  · cases hrun
  · rename_i hgrants
    have hentries : (n + 1) % 2 ^ 32 = n + 1 := by
      apply Nat.mod_eq_of_lt
      by_contra hwrap
      have hzero : (n + 1) % 2 ^ 32 * 8 = 0 := by omega
      rw [hzero, alloc.null] at hgrants
      exact hgrants rfl
    have hbound : n + 1 < 2 ^ 32 := by
      rw [← hentries]
      exact Nat.mod_lt _ (by decide)
    rw [hentries] at hrun
    have hlength := (@ends_getStringsInto alloc ⟨s.buffer, s.attempts + 1⟩ (offset + 4) n 0
      (replicate (n + 1) none) (by rw [length_replicate]; omega) hnext).2 _ _ _ hrun
    rintro rfl
    rw [length_append, length_map, length_replicate, length_singleton] at hlength
    omega

/-- The condition on an item. -/
def Item.Fits : Item → Prop
  | .stringv strv => strv.length < 2 ^ 32 - 1
  | _ => True

/-- An item that is there is found exactly if it fits. -/
theorem getItem_iff {item : Item} (halloc : alloc.Plenty) (hat : HasAt s.buffer.buf offset item.wire)
    (hsized : item.Sized) :
    (item.Fits → ∃ s', getItem alloc item.kind s offset =
        .ok (some (item.value, offset + item.wire.length), s') ∧ s'.buffer = s.buffer) ∧
      (¬ item.Fits → ∀ val next s', getItem alloc item.kind s offset = .ok (some (val, next), s') →
        val ≠ item.value) := by
  -- all but the vector fit, and a getter that counts no failure leaves the buffer as it is
  have hwith : ∀ {β : Type} {f : EggBuffer → Nat → Checked (Option (β × Nat) × EggBuffer)} {wrap : β → Value}
      {found : Bytes → Nat → Option (β × Nat)} {x : β} {next : Nat},
      (∀ b offset, f b offset = .ok (readResult b (found b.buf offset))) →
        found s.buffer.buf offset = some (x, next) →
          ∃ s', getWith f wrap s offset = .ok (some (wrap x, next), s') ∧ s'.buffer = s.buffer := by
    intro β f wrap found x next heq hfound
    refine ⟨s, ?_, rfl⟩
    rw [getWith, heq, hfound, readResult_some, ok_bind]
    rfl
  cases item with
  | byte val => exact ⟨fun _ => hwith eggBufferGetByte_eq (byteAt_of_hasAt hat), fun h => absurd trivial h⟩
  | uint16 val =>
    refine ⟨fun _ => hwith eggBufferGetUint16_eq ?_, fun h => absurd trivial h⟩
    exact uint16At_of_hasAt hat val.toNat_lt
  | uint32 val =>
    refine ⟨fun _ => hwith eggBufferGetUint32_eq ?_, fun h => absurd trivial h⟩
    exact uint32At_of_hasAt hat val.toNat_lt
  | uint64 val =>
    refine ⟨fun _ => hwith eggBufferGetUint64_eq ?_, fun h => absurd trivial h⟩
    exact uint64At_of_hasAt hat val.toNat_lt
  | byteArray val =>
    refine ⟨fun _ => hwith eggBufferGetByteArray_eq ?_, fun h => absurd trivial h⟩
    exact byteArrayAt_of_hasAt hat hsized
  | string str =>
    refine ⟨fun _ => ?_, fun h => absurd trivial h⟩
    cases str with
    | none =>
      have hread : readAt 4 s.buffer.buf offset = some 0xffffffff := hat.readAt (by decide)
      have hfound : stringAt s.buffer.buf offset = some (none, offset + 4) := by
        rw [stringAt, hread]
        rfl
      obtain ⟨b', h, hsame⟩ := eggBufferGetString_eq s.buffer offset
      have hb : b' = s.buffer := hsame (by rw [hfound]; exact Option.some_ne_none _)
      rw [hfound, hb] at h
      refine ⟨s, ?_, rfl⟩
      rw [Item.kind, getItem, eggBufferGetString, h, ok_bind]
      rfl
    | some str =>
      have hrun := getString_of_hasAt halloc hat (hsized str rfl)
      refine ⟨⟨s.buffer, s.attempts + 1⟩, ?_, rfl⟩
      rw [Item.kind, getItem, hrun, ok_bind]
      rfl
  | stringv strv =>
    refine ⟨fun hfits => ?_, fun hlong val next s' hrun heq => ?_⟩
    · obtain ⟨s', hrun, hbuf⟩ := getStringv_of_hasAt halloc hat hsized hfits
      refine ⟨s', ?_, hbuf⟩
      rw [Item.kind, getItem, hrun, ok_bind]
      rfl
    · rw [Item.kind, getItem] at hrun
      obtain ⟨⟨r, s''⟩, hget, hrun⟩ := bind_eq_ok.1 hrun
      cases r with
      | none => cases hrun
      | some r =>
        cases hrun
        exact stringv_long hat hlong hget (Value.vector.inj heq)

/-- The items that are there are found, up to the end of the last, exactly if they fit. -/
theorem getAll_iff {items : List Item} (halloc : alloc.Plenty)
    (hat : HasAt s.buffer.buf offset (items.flatMap Item.wire)) (hsized : ∀ item ∈ items, item.Sized) :
    (∃ s', getAll alloc (items.map Item.kind) s offset =
        .ok (some (items.map Item.value, offset + (items.flatMap Item.wire).length), s')) ↔
      ∀ item ∈ items, item.Fits := by
  induction items generalizing s offset with
  | nil => exact iff_of_true ⟨s, rfl⟩ fun _ hmem => absurd hmem not_mem_nil
  | cons item items ih =>
    rw [flatMap_cons] at hat
    obtain ⟨hfits, hmisfit⟩ := getItem_iff halloc hat.left (hsized item mem_cons_self)
    rw [forall_mem_cons]
    by_cases hitem : item.Fits
    · obtain ⟨s', hrun, hbuf⟩ := hfits hitem
      have hrest := hat.right
      rw [← hbuf] at hrest
      rw [and_iff_right hitem, ← ih hrest (forall_mem_cons.1 hsized).2]
      simp only [map_cons, getAll, hrun, ok_bind, flatMap_cons, length_append, ← Nat.add_assoc]
      constructor
      · rintro ⟨s'', h⟩
        obtain ⟨⟨r, s₃⟩, hget, h⟩ := bind_eq_ok.1 h
        cases r with
        | none => cases h
        | some r =>
          obtain ⟨vals, next⟩ := r
          cases h
          exact ⟨s₃, hget⟩
      · rintro ⟨s'', h⟩
        refine ⟨s'', ?_⟩
        rw [h]
        rfl
    · refine iff_of_false ?_ fun h => hitem h.1
      rintro ⟨s', h⟩
      rw [map_cons, getAll] at h
      obtain ⟨⟨r, s''⟩, hget, h⟩ := bind_eq_ok.1 h
      cases r with
      | none => cases h
      | some r =>
        obtain ⟨val, next⟩ := r
        obtain ⟨⟨r', s₃⟩, -, h⟩ := bind_eq_ok.1 h
        cases r' with
        | none => cases h
        | some r' =>
          have hvals : val :: r'.1 = item.value :: items.map Item.value :=
            congrArg Prod.fst (Option.some.inj (congrArg Prod.fst (Except.ok.inj h)))
          exact hmisfit hitem val next s'' hget (List.cons.inj hvals).1

/-- The getters return what was added, up to the end of the buffer, exactly if no vector has as many strings as
`2 ^ 32 - 1`; and whatever a buffer holds, no getter looks or stores outside or goes on behind it. -/
theorem buffer_codec_iff (b b' : EggBuffer) (items : List Item) (alloc : ResultAllocator) (halloc : alloc.Plenty)
    (hadd : addAll items b = (true, b')) :
    ((∃ s', getAll alloc (items.map Item.kind) ⟨b', 0⟩ b.len = .ok (some (items.map Item.value, b'.len), s')) ↔
        ∀ item ∈ items, item.Fits) ∧
      ∀ kind s offset, Ends s.buffer.buf (getItem alloc kind s offset) := by
  refine ⟨?_, ends_getItem alloc⟩
  obtain ⟨hsized, hbuf⟩ := addAll_ok hadd
  have hat : HasAt b'.buf b.len (items.flatMap Item.wire) :=
    ⟨b.buf, [], by rw [append_nil]; exact hbuf, rfl⟩
  have hend : b'.len = b.len + (items.flatMap Item.wire).length := by
    rw [EggBuffer.len, hbuf, length_append]
    rfl
  rw [hend]
  exact @getAll_iff alloc ⟨b', 0⟩ b.len items halloc hat hsized

/-- An allocator that gives what it is asked for. -/
def sampleAllocator : ResultAllocator where
  grants _ n := n != 0
  null := fun _ => rfl

theorem sampleAllocator_plenty : sampleAllocator.Plenty := fun _ _ hpos => bne_iff_ne.2 (Nat.ne_of_gt hpos)

/-- A new buffer that grows. -/
def sampleBuffer : EggBuffer := eggBufferInitFull 0 fun _ _ => true

/-- A number, a string that is not there, and a vector of one string. -/
def sampleItems : List Item := [.uint16 7, .string none, .stringv [⟨ascii "PATH=/", by decide⟩]]

theorem buffer_codec_sample :
    sampleAllocator.Plenty ∧ (addAll sampleItems sampleBuffer).1 = true ∧
      ∃ s', getAll sampleAllocator (sampleItems.map Item.kind) ⟨(addAll sampleItems sampleBuffer).2, 0⟩
          sampleBuffer.len =
        .ok (some (sampleItems.map Item.value, (addAll sampleItems sampleBuffer).2.len), s') := by
  have hadd : (addAll sampleItems sampleBuffer).1 = true := by decide
  refine ⟨sampleAllocator_plenty, hadd, ?_⟩
  refine (buffer_codec_iff sampleBuffer _ sampleItems sampleAllocator sampleAllocator_plenty (Prod.ext hadd rfl)).1.2 ?_
  intro item hitem
  simp only [sampleItems, mem_cons, not_mem_nil, or_false] at hitem
  rcases hitem with rfl | rfl | rfl
  · trivial
  · trivial
  · exact (by decide : (1 : Nat) < 2 ^ 32 - 1)

/-- A buffer that grows takes any vector of empty strings. -/
theorem addAll_empties (n : Nat) : (addAll [.stringv (replicate n ⟨[], not_mem_nil⟩)] sampleBuffer).1 = true := by
  have hplenty : sampleBuffer.Plenty := ⟨fun _ _ => true, rfl, fun _ _ => rfl⟩
  have hstrings : ∀ (n : Nat) (b : EggBuffer), b.Plenty → Granted (addStrings (replicate n []) b) := by
    intro n
    induction n with
    | zero => exact fun b hb => ⟨rfl, hb⟩
    | succ n ih =>
      intro b hb
      rw [replicate_succ, addStrings]
      have hstring : Granted (eggBufferAddString b (some [])) :=
        (eggBufferAddUint32_granted hb 0).andThen fun _ hb' => eggBufferAppend_granted hb' []
      exact hstring.andThen ih
  have hvector : Granted (eggBufferAddStringv sampleBuffer (replicate n [])) :=
    (eggBufferAddUint32_granted hplenty _).andThen fun b hb => hstrings n b hb
  have hadd : addAll [.stringv (replicate n ⟨[], not_mem_nil⟩)] sampleBuffer =
      andThen (eggBufferAddStringv sampleBuffer (replicate n [])) (fun b => (true, b)) := by
    rw [addAll, Item.add, map_replicate]
    rfl
  rw [hadd, andThen, if_pos hvector.1]

/-- A vector with as many strings as the number of them and one more cannot be is not read back. -/
theorem stringv_lost (n : Nat) (hn : 2 ^ 32 - 1 ≤ n) :
    (addAll [.stringv (replicate n ⟨[], not_mem_nil⟩)] sampleBuffer).1 = true ∧
      ¬ ∃ s', getAll sampleAllocator [.stringv]
          ⟨(addAll [.stringv (replicate n ⟨[], not_mem_nil⟩)] sampleBuffer).2, 0⟩
          sampleBuffer.len =
        .ok (some ([(Item.stringv (replicate n ⟨[], not_mem_nil⟩)).value],
          (addAll [.stringv (replicate n ⟨[], not_mem_nil⟩)] sampleBuffer).2.len), s') := by
  have hadd := addAll_empties n
  refine ⟨hadd, ?_⟩
  generalize hbuffer : (addAll [.stringv (replicate n ⟨[], not_mem_nil⟩)] sampleBuffer) = r at hadd ⊢
  obtain ⟨hsized, hbuf⟩ := addAll_ok (hbuffer.trans (Prod.ext hadd rfl : r = (true, r.2)))
  have hat : HasAt r.2.buf sampleBuffer.len
      ([Item.stringv (replicate n ⟨[], not_mem_nil⟩)].flatMap Item.wire) :=
    ⟨sampleBuffer.buf, [], by rw [append_nil]; exact hbuf, rfl⟩
  have hend : r.2.len = sampleBuffer.len +
      ([Item.stringv (replicate n ⟨[], not_mem_nil⟩)].flatMap Item.wire).length := by
    rw [EggBuffer.len, hbuf, length_append]
    rfl
  rw [hend]
  intro hfound
  have hfits := (@getAll_iff sampleAllocator ⟨r.2, 0⟩ _ _ sampleAllocator_plenty hat hsized).1 hfound _
    mem_cons_self
  have hlt : (replicate n (⟨[], not_mem_nil⟩ : CString)).length < 2 ^ 32 - 1 := hfits
  rw [length_replicate] at hlt
  omega

/-- The number of `2 ^ 32 - 1` strings and one more is zero, so that no memory is asked for and the vector is not
read back. -/
theorem long_vector_lost :
    (addAll [.stringv (replicate (2 ^ 32 - 1) ⟨[], not_mem_nil⟩)] sampleBuffer).1 = true ∧
      ¬ ∃ s', getAll sampleAllocator [.stringv]
          ⟨(addAll [.stringv (replicate (2 ^ 32 - 1) ⟨[], not_mem_nil⟩)] sampleBuffer).2, 0⟩
          sampleBuffer.len =
        .ok (some ([(Item.stringv (replicate (2 ^ 32 - 1) ⟨[], not_mem_nil⟩)).value],
          (addAll [.stringv (replicate (2 ^ 32 - 1) ⟨[], not_mem_nil⟩)] sampleBuffer).2.len), s') :=
  stringv_lost (2 ^ 32 - 1) (Nat.le_refl _)

end MateKeyring.Egg.Codec
