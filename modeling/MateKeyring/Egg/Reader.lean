import MateKeyring.Lib.Prog
import MateKeyring.Egg.Buffer

/-!
# Walking through a packet

A reader walks through a request with an offset (`Cursor`), as the callers of `egg-buffer.c` do;
reading past what is there stops it, which is `return FALSE` in the sources. `Reads r a out` says that
the reader `r` finds `a` in every request that has the bytes `out` at the offset, and goes on behind
them. It composes (`Reads.bind`), so a packet is read back part by part.
-/

set_option autoImplicit false

namespace MateKeyring.Egg

open Lib BigEndian

variable {α : Type}

/-! ## Walking through a request -/

/-- A request and the place that is read next. -/
structure Cursor where
  req : EggBuffer
  offset : Nat

/-- A reader of a request; stopping is `return FALSE`. -/
abbrev Reader := Prog Fault Cursor Unit

/-- Read with one of the `egg_buffer_get_*` functions. -/
def get {α : Type} (f : Getter α) :
    Reader α := fun c => do
  match ← f c.req c.offset with
  | (none, req) => pure (.error (), { c with req := req })
  | (some (a, offset), req) => pure (.ok a, ⟨req, offset⟩)

/-- `egg_buffer_get_stringv`, from the `n`-th string before the end on. -/
def getStrings : Nat → Reader (List (Option Bytes))
  | 0 => pure []
  | n + 1 => do
      let str ← get eggBufferGetString
      let strs ← getStrings n
      pure (str :: strs)

/-- `egg_buffer_get_stringv`, when the allocator gives memory for the copies. A count of `0xffffffff`
asks it for no memory at all, which it does not give. -/
def eggBufferGetStringv : Reader (List (Option Bytes)) := do
  let n ← get eggBufferGetUint32
  if (n + 1) % 2 ^ 32 = 0 then Prog.stop () else getStrings n

/-! ## Readers that do not fault -/

/-- The reader does not fault, wherever it stands in a request. -/
def Total {α : Type} (r : Reader α) : Prop := ∀ c, ∃ x, r c = .ok x

theorem total_pure (a : α) : Total (pure a : Reader α) := fun _ => ⟨_, rfl⟩

theorem total_stop : Total (Prog.stop () : Reader α) := fun _ => ⟨_, rfl⟩

theorem Total.bind {α β : Type} {r : Reader α} {f : α → Reader β} (hr : Total r)
    (hf : ∀ a, Total (f a)) : Total (r >>= f) := by
  intro c
  obtain ⟨⟨x, c'⟩, hx⟩ := hr c
  cases x with
  | error u => exact ⟨_, Prog.bind_of_stop hx f⟩
  | ok a =>
    obtain ⟨y, hy⟩ := hf a c'
    exact ⟨y, (Prog.bind_of_ok hx f).trans hy⟩

theorem total_get {f : Getter α}
    (h : ∀ req off, ∃ x, f req off = .ok x) : Total (get f) := by
  intro c
  obtain ⟨⟨x, req⟩, hx⟩ := h c.req c.offset
  cases x <;> exact ⟨_, by simp [get, hx]; rfl⟩

theorem total_uint32 : Total (get eggBufferGetUint32) :=
  total_get fun req off => ⟨_, eggBufferGetUint32_eq req off⟩

theorem total_string : Total (get eggBufferGetString) := by
  apply total_get
  intro req off
  obtain ⟨req', h, -⟩ := eggBufferGetString_eq req off
  exact ⟨_, h⟩

theorem total_byte : Total (get eggBufferGetByte) :=
  total_get fun req off => ⟨_, eggBufferGetByte_eq req off⟩

theorem total_uint16 : Total (get eggBufferGetUint16) :=
  total_get fun req off => ⟨_, eggBufferGetUint16_eq req off⟩

theorem total_byteArray : Total (get eggBufferGetByteArray) :=
  total_get fun req off => ⟨_, eggBufferGetByteArray_eq req off⟩

theorem total_read (f : Cursor → α) : Total (Prog.read f : Reader α) := fun _ => ⟨_, rfl⟩

theorem total_strings (n : Nat) : Total (getStrings n) := by
  induction n with
  | zero => exact total_pure []
  | succ n ih => exact total_string.bind fun _ => ih.bind fun _ => total_pure _

theorem total_stringv : Total eggBufferGetStringv := by
  apply total_uint32.bind
  intro n
  split
  · exact total_stop
  · exact total_strings n

/-! ## What a reader can find -/

/-- Whatever the reader finds has this property. -/
def Finds {α : Type} (r : Reader α) (P : α → Prop) : Prop :=
  ∀ c a c', r c = .ok (.ok a, c') → P a

theorem finds_pure {P : α → Prop} {a : α} (h : P a) : Finds (pure a : Reader α) P := by
  intro c b c' hb
  cases hb
  exact h

theorem finds_stop {P : α → Prop} : Finds (Prog.stop () : Reader α) P := by
  intro c a c' h
  cases h

theorem Finds.bind {α β : Type} {r : Reader α} {f : α → Reader β} {P : α → Prop} {Q : β → Prop}
    (hr : Finds r P) (hf : ∀ a, P a → Finds (f a) Q) : Finds (r >>= f) Q := by
  intro c b c'' h
  obtain ⟨a, c', ha, hb⟩ := Prog.bind_eq_ok.1 h
  exact hf a (hr c a c' ha) c' b c'' hb

/-- Nothing is said about what is found. -/
theorem finds_any (r : Reader α) : Finds r fun _ => True := fun _ _ _ _ => trivial

/-! ## What the readers find -/

/-- In every request that has the bytes `out` at the offset, the reader finds `a` and goes on after
them. -/
def Reads {α : Type} (r : Reader α) (a : α) (out : Bytes) : Prop :=
  ∀ req off, HasAt req.buf off out → r ⟨req, off⟩ = .ok (.ok a, ⟨req, off + out.length⟩)

theorem Reads.bind {α β : Type} {r : Reader α} {f : α → Reader β} {a : α} {b : β}
    {x y : Bytes} (h : Reads r a x) (hf : Reads (f a) b y) : Reads (r >>= f) b (x ++ y) := by
  intro req off hat
  rw [Prog.bind_of_ok (h req off hat.left), hf req _ hat.right, List.length_append, Nat.add_assoc]

theorem Reads.map {α β : Type} {r : Reader α} {a : α} {x : Bytes} (h : Reads r a x)
    (g : α → β) : Reads (r >>= fun a => pure (g a)) (g a) x := by
  intro req off hat
  rw [Prog.bind_of_ok (h req off hat)]
  rfl

/-- A reader that finds its value at the place the buffer says. -/
theorem Reads.get {f : Getter α}
    {a : α} {out : Bytes}
    (h : ∀ req off, HasAt req.buf off out →
      f req off = .ok (some (a, off + out.length), req)) : Reads (Egg.get f) a out := by
  intro req off hat
  simp [Egg.get, h req off hat]

theorem reads_uint32 {v : Nat} (hv : v < 2 ^ 32) :
    Reads (get eggBufferGetUint32) v (encode 4 v) := by
  apply Reads.get
  intro req off hat
  rw [eggBufferGetUint32_eq, uint32At_of_hasAt hat hv, readResult_some, length_encode]

theorem reads_uint16 {v : Nat} (hv : v < 2 ^ 16) :
    Reads (get eggBufferGetUint16) v (encode 2 v) := by
  apply Reads.get
  intro req off hat
  rw [eggBufferGetUint16_eq, uint16At_of_hasAt hat hv, readResult_some, length_encode]

theorem reads_byteArray {data : Bytes} (hlen : data.length < 0x7fffffff) :
    Reads (get eggBufferGetByteArray) (some data) (byteArrayBytes (some data)) := by
  apply Reads.get
  intro req off hat
  rw [eggBufferGetByteArray_eq, byteArrayAt_of_hasAt hat (by simpa using hlen), readResult_some]

theorem reads_string (str : CString) (hlen : str.val.length < 0x7fffffff) :
    Reads (get eggBufferGetString) (some str.val) (byteArrayBytes (some str.val)) := by
  intro req off hat
  have hat' := stringAt_of_hasAt hat hlen
  obtain ⟨req', h, hsame⟩ := eggBufferGetString_eq req off
  rw [hsame (by simp [hat']), hat'] at h
  simp [get, h]

/-- The wire form of a list of strings. -/
def stringvBytes (strv : List CString) : Bytes :=
  encode 4 strv.length ++ strv.flatMap fun str => byteArrayBytes (some str.val)

theorem reads_strings (strv : List CString) (hlen : ∀ str ∈ strv, str.val.length < 0x7fffffff) :
    Reads (getStrings strv.length) (strv.map fun str => some str.val)
      (strv.flatMap fun str => byteArrayBytes (some str.val)) := by
  induction strv with
  | nil =>
    intro req off hat
    simp [getStrings]
  | cons str strv ih =>
    have hrest := ih fun s hs => hlen s (List.mem_cons_of_mem _ hs)
    exact (reads_string str (hlen str List.mem_cons_self)).bind
      (hrest.map fun strs => some str.val :: strs)

theorem reads_stringv (strv : List CString) (hn : strv.length < 0xffffffff)
    (hlen : ∀ str ∈ strv, str.val.length < 0x7fffffff) :
    Reads eggBufferGetStringv (strv.map fun str => some str.val) (stringvBytes strv) := by
  apply (reads_uint32 (by omega)).bind
  rw [if_neg (by omega)]
  exact reads_strings strv hlen

end MateKeyring.Egg
