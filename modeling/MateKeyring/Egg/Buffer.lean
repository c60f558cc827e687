import MateKeyring.Lib.BigEndian

/-!
# The growable byte buffer of `egg-buffer.c`

An `EggBuffer` keeps the bytes in use, the size of the memory behind them, a failure counter and
an allocator. The allocator is `realloc` seen from outside: it is asked for a size and either
gives memory or does not, and the answer may differ from one attempt to the next, so that every
pattern of allocation failures is an allocator.

Every write first reserves memory; when the reservation fails the failure counter goes up and
nothing is written. `Wrote b b' out` says what a sequence of writes did: the counter never goes
down, and if it did not go up then exactly `out` was appended. It composes (`Wrote.trans`), so a
message is described by concatenating the descriptions of its parts.

Every read checks its bounds, then looks at the memory. Looking outside the bytes in use is a
`Fault`; the equations `eggBufferGetByte_eq`, `eggBufferGetUint32_eq` and their like say that no
read faults, and give its value as a read of the byte list at an offset.
-/

set_option autoImplicit false

namespace MateKeyring

open Lib BigEndian List

variable {bs : Bytes} {out : Bytes} {x y : Bytes} {off v : Nat}

/-- What a C program must not do: evaluate a false assertion, access memory outside the object
it points into, follow a null pointer, or stay in a loop. -/
inductive Fault where
  | assertion
  | outOfBounds
  | nullPointer
  | endless
  deriving DecidableEq, Repr

/-- What a call of the source ends in: a value, or a fault. -/
abbrev Checked := Except Fault

/-- An assertion of the source. -/
def cAssert (p : Prop) [Decidable p] : Checked Unit :=
  if p then .ok () else .error .assertion

@[simp] theorem cAssert_of_true {p : Prop} [Decidable p] (h : p) : cAssert p = .ok () := by
  simp [cAssert, h]

theorem of_cAssert {p : Prop} [Decidable p] {u : Unit} (h : cAssert p = .ok u) : p := by
  rw [cAssert] at h
  by_cases hp : p
  · exact hp
  · rw [if_neg hp] at h
    cases h

/-- The fault of a computation, if it faults. -/
def faultOf {α : Type} : Checked α → Option Fault
  | .ok _ => none
  | .error f => some f

theorem eq_error_of_faultOf {α : Type} {x : Checked α} {f : Fault} (h : faultOf x = some f) :
    x = .error f := by
  cases x with
  | ok a => exact absurd h (by simp [faultOf])
  | error e =>
    cases h
    rfl

/-- The result of a computation, if it does not fault. -/
def resultOf {α : Type} : Checked α → Option α
  | .ok a => some a
  | .error _ => none

theorem exists_of_resultOf {α β : Type} {x : Checked α} {f : α → β} {b : β}
    (h : (resultOf x).map f = some b) : ∃ a, x = .ok a ∧ f a = b := by
  cases x with
  | ok a => exact ⟨a, rfl, Option.some.inj h⟩
  | error e => simp [resultOf] at h

@[simp] theorem ok_bind {ε α β : Type} (a : α) (f : α → Except ε β) :
    (Except.ok a >>= f) = f a := rfl

@[simp] theorem error_bind {ε α β : Type} (e : ε) (f : α → Except ε β) :
    ((Except.error e : Except ε α) >>= f) = Except.error e := rfl

@[simp] theorem pure_eq_ok {ε α : Type} (a : α) : (pure a : Except ε α) = Except.ok a := rfl

theorem bind_eq_ok {ε α β : Type} {x : Except ε α} {f : α → Except ε β} {b : β} :
    x >>= f = .ok b ↔ ∃ a, x = .ok a ∧ f a = .ok b := by
  cases x <;> simp

namespace Egg

/-- `EggBufferAllocator`: whether the `n`-th request, for `size` bytes, is given memory. -/
abbrev EggBufferAllocator := Nat → Nat → Bool

/-- `EggBuffer`. `buf` holds the `len` bytes in use; a buffer without allocator is memory owned
elsewhere and cannot grow. -/
structure EggBuffer where
  buf : Bytes
  allocatedLen : Nat
  failures : Nat
  allocator : Option EggBufferAllocator
  attempts : Nat

/-- A getter of the source: the value at a position with the position behind it, and the buffer, whose
failures it counts. -/
abbrev Getter (α : Type) := EggBuffer → Nat → Checked (Option (α × Nat) × EggBuffer)

namespace EggBuffer

/-- `buffer->len`. -/
def len (b : EggBuffer) : Nat := b.buf.length

/-- `buffer->failures++`. -/
def fail (b : EggBuffer) : EggBuffer := { b with failures := b.failures + 1 }

@[simp] theorem fail_buf (b : EggBuffer) : b.fail.buf = b.buf := rfl
@[simp] theorem fail_failures (b : EggBuffer) : b.fail.failures = b.failures + 1 := rfl

end EggBuffer

/-- `egg_buffer_has_error`. -/
def eggBufferHasError (b : EggBuffer) : Bool := b.failures != 0

/-- `egg_buffer_init_full`, when the first request is given memory. -/
def eggBufferInitFull (reserve : Nat) (allocator : EggBufferAllocator) : EggBuffer :=
  { buf := [], allocatedLen := if reserve = 0 then 64 else reserve, failures := 0,
    allocator := some allocator, attempts := 1 }

/-- `egg_buffer_init_static`: memory owned elsewhere. -/
def eggBufferInitStatic (data : Bytes) : EggBuffer :=
  { buf := data, allocatedLen := data.length, failures := 0, allocator := none, attempts := 0 }

/-- `egg_buffer_reset`. -/
def eggBufferReset (b : EggBuffer) : EggBuffer := { b with buf := [], failures := 0 }

/-- The new size `egg_buffer_reserve` asks for. -/
def newlen (allocatedLen len : Nat) : Nat :=
  if len > allocatedLen * 2 then allocatedLen * 2 + len else allocatedLen * 2

/-- `egg_buffer_reserve`. -/
def eggBufferReserve (b : EggBuffer) (len : Nat) : Bool × EggBuffer :=
  if len < b.allocatedLen then (true, b)
  else
    match b.allocator with
    | none => (false, b.fail)
    | some alloc =>
      if alloc b.attempts (newlen b.allocatedLen len) then
        (true, { b with allocatedLen := newlen b.allocatedLen len, attempts := b.attempts + 1 })
      else (false, { b with failures := b.failures + 1, attempts := b.attempts + 1 })

/-- A second write, made only when the first succeeded: `if (!first) return 0; return second;`. -/
def andThen (r : Bool × EggBuffer) (f : EggBuffer → Bool × EggBuffer) : Bool × EggBuffer :=
  if r.1 then f r.2 else (false, r.2)

/-- `egg_buffer_append`. -/
def eggBufferAppend (b : EggBuffer) (val : Bytes) : Bool × EggBuffer :=
  andThen (eggBufferReserve b (b.len + val.length)) fun b' =>
    (true, { b' with buf := b'.buf ++ val })

/-- `egg_buffer_add_empty`, where `content` is what the memory behind the bytes in use holds. -/
def eggBufferAddEmpty (b : EggBuffer) (content : Bytes) : Bool × EggBuffer :=
  eggBufferAppend b content

/-- `egg_buffer_add_byte`. -/
def eggBufferAddByte (b : EggBuffer) (val : UInt8) : Bool × EggBuffer :=
  eggBufferAppend b [val]

/-- `egg_buffer_encode_uint32`. -/
def eggBufferEncodeUint32 (val : Nat) : Bytes :=
  [UInt8.ofNat (val / 2 ^ 24 % 256), UInt8.ofNat (val / 2 ^ 16 % 256),
    UInt8.ofNat (val / 2 ^ 8 % 256), UInt8.ofNat (val % 256)]

/-- `egg_buffer_decode_uint32`. -/
def eggBufferDecodeUint32 (ptr : Bytes) : Nat :=
  (ptr.getD 0 0).toNat * 2 ^ 24 + (ptr.getD 1 0).toNat * 2 ^ 16 + (ptr.getD 2 0).toNat * 2 ^ 8 +
    (ptr.getD 3 0).toNat

/-- `egg_buffer_encode_uint16`. -/
def eggBufferEncodeUint16 (val : Nat) : Bytes :=
  [UInt8.ofNat (val / 2 ^ 8 % 256), UInt8.ofNat (val % 256)]

/-- `egg_buffer_decode_uint16`. -/
def eggBufferDecodeUint16 (ptr : Bytes) : Nat :=
  (ptr.getD 0 0).toNat * 2 ^ 8 + (ptr.getD 1 0).toNat

/-- `egg_buffer_add_uint16`; the argument is converted to 16 bits. -/
def eggBufferAddUint16 (b : EggBuffer) (val : Nat) : Bool × EggBuffer :=
  eggBufferAppend b (eggBufferEncodeUint16 val)

/-- `egg_buffer_add_uint32`; the argument is converted to 32 bits. -/
def eggBufferAddUint32 (b : EggBuffer) (val : Nat) : Bool × EggBuffer :=
  eggBufferAppend b (eggBufferEncodeUint32 val)

/-- `egg_buffer_add_uint64`. -/
def eggBufferAddUint64 (b : EggBuffer) (val : Nat) : Bool × EggBuffer :=
  andThen (eggBufferAddUint32 b (val / 2 ^ 32)) fun b' => eggBufferAddUint32 b' (val % 2 ^ 32)

/-- `egg_buffer_add_byte_array`; `none` is a null pointer. -/
def eggBufferAddByteArray (b : EggBuffer) (val : Option Bytes) : Bool × EggBuffer :=
  match val with
  | none => eggBufferAddUint32 b 0xffffffff
  | some data =>
    if 0x7fffffff ≤ data.length then (false, b.fail)
    else andThen (eggBufferAddUint32 b data.length) fun b' => eggBufferAppend b' data

/-- `egg_buffer_add_string`; a string of `0x7fffffff` bytes or more is refused without counting
a failure. -/
def eggBufferAddString (b : EggBuffer) (str : Option Bytes) : Bool × EggBuffer :=
  match str with
  | none => eggBufferAddUint32 b 0xffffffff
  | some data =>
    if 0x7fffffff ≤ data.length then (false, b)
    else andThen (eggBufferAddUint32 b data.length) fun b' => eggBufferAppend b' data

/-- Add the strings of a null-terminated array one after the other. -/
def addStrings : List Bytes → EggBuffer → Bool × EggBuffer
  | [], b => (true, b)
  | str :: strv, b => andThen (eggBufferAddString b (some str)) (addStrings strv)

/-- `egg_buffer_add_stringv`. -/
def eggBufferAddStringv (b : EggBuffer) (strv : List Bytes) : Bool × EggBuffer :=
  andThen (eggBufferAddUint32 b strv.length) (addStrings strv)

/-- `egg_buffer_add_byte_array_empty`, where `content` is what is put into the memory it gives. -/
def eggBufferAddByteArrayEmpty (b : EggBuffer) (content : Bytes) : Bool × EggBuffer :=
  eggBufferAddByteArray b (some content)

/-- `egg_buffer_set_uint32`. -/
def eggBufferSetUint32 (b : EggBuffer) (offset val : Nat) : Bool × EggBuffer :=
  if b.len < 4 ∨ offset > b.len - 4 then (false, b.fail)
  else
    (true, { b with
      buf := b.buf.take offset ++ (eggBufferEncodeUint32 val ++ b.buf.drop (offset + 4)) })

/-! ## What writes do -/

/-- `b'` comes from `b` by writes that describe the bytes `out`. -/
structure Wrote (b b' : EggBuffer) (out : Bytes) : Prop where
  mono : b.failures ≤ b'.failures
  buf_eq : b'.failures = b.failures → b'.buf = b.buf ++ out

theorem Wrote.refl (b : EggBuffer) : Wrote b b [] := ⟨Nat.le_refl _, fun _ => by simp⟩

theorem Wrote.trans {b b' b'' : EggBuffer} (h : Wrote b b' x) (h' : Wrote b' b'' y) : Wrote b b'' (x ++ y) := by
  refine ⟨Nat.le_trans h.mono h'.mono, fun hf => ?_⟩
  have h1 : b'.failures = b.failures := by
    have := h.mono
    have := h'.mono
    omega
  rw [h'.buf_eq (by omega), h.buf_eq h1, append_assoc]

theorem Wrote.of_lt {b b' : EggBuffer} (h : b.failures < b'.failures) (out : Bytes) :
    Wrote b b' out :=
  ⟨Nat.le_of_lt h, fun hf => absurd hf (by omega)⟩

/-- Writes that left no error in a buffer without errors appended their description. -/
theorem Wrote.buf_of_noError {b b' : EggBuffer} (h : Wrote b b' out) (hb' : eggBufferHasError b' = false) :
    b'.buf = b.buf ++ out := by
  have h0 : b'.failures = 0 := by simpa [eggBufferHasError] using hb'
  have := h.mono
  exact h.buf_eq (by omega)

/-- Reserving memory changes no byte; when it succeeds the memory holds what was asked for and no
failure is counted, and when it fails a failure is counted. -/
theorem eggBufferReserve_cases (b : EggBuffer) (n : Nat) :
    (∃ b', eggBufferReserve b n = (true, b') ∧ b'.buf = b.buf ∧ b'.failures = b.failures ∧
        n ≤ b'.allocatedLen ∧ b.allocatedLen ≤ b'.allocatedLen) ∨
      (∃ b', eggBufferReserve b n = (false, b') ∧ b'.buf = b.buf ∧
        b'.failures = b.failures + 1 ∧ b'.allocatedLen = b.allocatedLen) := by
  unfold eggBufferReserve
  by_cases hlt : n < b.allocatedLen
  · exact .inl ⟨b, by simp [hlt], rfl, rfl, Nat.le_of_lt hlt, Nat.le_refl _⟩
  · simp only [hlt, if_false]
    cases b.allocator with
    | none => exact .inr ⟨b.fail, rfl, rfl, rfl, rfl⟩
    | some alloc =>
      have hnew : n ≤ newlen b.allocatedLen n ∧ b.allocatedLen ≤ newlen b.allocatedLen n := by
        unfold newlen
        split <;> omega
      dsimp only
      split
      · exact .inl ⟨_, rfl, rfl, rfl, hnew.1, hnew.2⟩
      · exact .inr ⟨_, rfl, rfl, rfl, rfl⟩

theorem eggBufferAppend_cases (b : EggBuffer) (val : Bytes) :
    (∃ b', eggBufferAppend b val = (true, b') ∧ b'.buf = b.buf ++ val ∧
        b'.failures = b.failures ∧ b.allocatedLen ≤ b'.allocatedLen ∧
        b.len + val.length ≤ b'.allocatedLen) ∨
      (∃ b', eggBufferAppend b val = (false, b') ∧ b'.buf = b.buf ∧
        b'.failures = b.failures + 1 ∧ b'.allocatedLen = b.allocatedLen) := by
  rcases eggBufferReserve_cases b (b.len + val.length) with
    ⟨b', h, hbuf, hf, hle, hmono⟩ | ⟨b', h, hbuf, hf, hal⟩
  · exact .inl ⟨{ b' with buf := b'.buf ++ val }, by simp [eggBufferAppend, andThen, h],
      by simp [hbuf], hf, hmono, hle⟩
  · exact .inr ⟨b', by simp [eggBufferAppend, andThen, h], hbuf, hf, hal⟩

/-- A write that reports success appended `out` and counted no failure; one that reports failure
counted a failure. -/
structure Writes (b : EggBuffer) (r : Bool × EggBuffer) (out : Bytes) : Prop where
  ok : r.1 = true → r.2.buf = b.buf ++ out ∧ r.2.failures = b.failures
  failed : r.1 = false → b.failures < r.2.failures

variable {b : EggBuffer} {r : Bool × EggBuffer}

theorem Writes.wrote (h : Writes b r out) : Wrote b r.2 out := by
  cases hr : r.1 with
  | true => exact ⟨Nat.le_of_eq (h.ok hr).2.symm, fun _ => (h.ok hr).1⟩
  | false => exact Wrote.of_lt (h.failed hr) out

theorem eggBufferAppend_writes (b : EggBuffer) (val : Bytes) :
    Writes b (eggBufferAppend b val) val := by
  rcases eggBufferAppend_cases b val with ⟨b', h, hbuf, hf, -, -⟩ | ⟨b', h, -, hf, -⟩
  · rw [h]
    exact ⟨fun _ => ⟨hbuf, hf⟩, fun hc => by simp at hc⟩
  · rw [h]
    exact ⟨fun hc => by simp at hc, fun _ => by simp [hf]⟩

theorem eggBufferAddByte_writes (b : EggBuffer) (v : UInt8) : Writes b (eggBufferAddByte b v) [v] :=
  eggBufferAppend_writes b [v]

theorem eggBufferEncodeUint32_eq (v : Nat) : eggBufferEncodeUint32 v = encode 4 v := by
  simp [eggBufferEncodeUint32, encode]

theorem eggBufferAddUint32_writes (b : EggBuffer) (v : Nat) :
    Writes b (eggBufferAddUint32 b v) (encode 4 v) := by
  rw [← eggBufferEncodeUint32_eq]
  exact eggBufferAppend_writes b _

theorem eggBufferEncodeUint16_eq (v : Nat) : eggBufferEncodeUint16 v = encode 2 v := by
  simp [eggBufferEncodeUint16, encode]

theorem eggBufferAddUint16_writes (b : EggBuffer) (v : Nat) :
    Writes b (eggBufferAddUint16 b v) (encode 2 v) := by
  rw [← eggBufferEncodeUint16_eq]
  exact eggBufferAppend_writes b _

theorem Writes.andThen (h : Writes b r x) (f : EggBuffer → Bool × EggBuffer) (hf : ∀ b', Writes b' (f b') y) :
    Writes b (Egg.andThen r f) (x ++ y) := by
  unfold Egg.andThen
  cases hr : r.1 with
  | false => exact ⟨fun hc => by simp at hc, fun _ => h.failed hr⟩
  | true =>
    obtain ⟨hbuf, hfail⟩ := h.ok hr
    simp only [if_true]
    refine ⟨fun hok => ?_, fun hbad => ?_⟩
    · obtain ⟨h1, h2⟩ := (hf r.2).ok hok
      exact ⟨by rw [h1, hbuf, append_assoc], by rw [h2, hfail]⟩
    · have := (hf r.2).failed hbad
      omega

theorem encode_eight (v : Nat) : encode 4 (v / 2 ^ 32) ++ encode 4 (v % 2 ^ 32) = encode 8 v := by
  simp only [encode, cons_append, nil_append, List.cons.injEq, and_true]
  refine ⟨?_, ?_, ?_, ?_, ?_, ?_, ?_, ?_⟩ <;> congr 1 <;> omega

theorem eggBufferAddUint64_writes (b : EggBuffer) (v : Nat) :
    Writes b (eggBufferAddUint64 b v) (encode 8 v) := by
  rw [← encode_eight]
  exact (eggBufferAddUint32_writes b _).andThen _ fun b' => eggBufferAddUint32_writes b' _

/-- The wire form of a byte array: its length and its bytes, or `0xffffffff` for a null one. -/
def byteArrayBytes : Option Bytes → Bytes
  | none => encode 4 0xffffffff
  | some data => encode 4 data.length ++ data

theorem eggBufferAddByteArray_writes (b : EggBuffer) (val : Option Bytes) :
    Writes b (eggBufferAddByteArray b val) (byteArrayBytes val) := by
  cases val with
  | none => exact eggBufferAddUint32_writes b _
  | some data =>
    simp only [eggBufferAddByteArray, byteArrayBytes]
    split
    · exact ⟨fun hc => by simp at hc, fun _ => by simp⟩
    · exact (eggBufferAddUint32_writes b _).andThen _ fun b' => eggBufferAppend_writes b' _

theorem eggBufferAddByteArray_ok_length {data : Bytes}
    (h : (eggBufferAddByteArray b (some data)).1 = true) : data.length < 0x7fffffff := by
  simp only [eggBufferAddByteArray] at h
  by_contra hle
  rw [if_pos (by omega)] at h
  simp at h

theorem eggBufferAddString_writes (b : EggBuffer) (data : Bytes) (hlen : data.length < 0x7fffffff) :
    Writes b (eggBufferAddString b (some data)) (byteArrayBytes (some data)) := by
  simp only [eggBufferAddString, byteArrayBytes]
  rw [if_neg (by omega)]
  exact (eggBufferAddUint32_writes b _).andThen _ fun b' => eggBufferAppend_writes b' _

theorem addStrings_writes (strv : List Bytes) (hlen : ∀ str ∈ strv, str.length < 0x7fffffff)
    (b : EggBuffer) :
    Writes b (addStrings strv b) (strv.flatMap fun str => byteArrayBytes (some str)) := by
  induction strv generalizing b with
  | nil => exact ⟨fun _ => by simp [addStrings], fun h => by simp [addStrings] at h⟩
  | cons str strv ih =>
    exact (eggBufferAddString_writes b str (hlen str mem_cons_self)).andThen _
      (ih (forall_mem_cons.1 hlen).2)

theorem eggBufferAddStringv_writes (b : EggBuffer) (strv : List Bytes)
    (hlen : ∀ str ∈ strv, str.length < 0x7fffffff) :
    Writes b (eggBufferAddStringv b strv)
      (encode 4 strv.length ++ strv.flatMap fun str => byteArrayBytes (some str)) :=
  (eggBufferAddUint32_writes b _).andThen _ (addStrings_writes strv hlen)

/-! ## Writes that are given memory -/

/-- A buffer that grows whenever it has to. -/
def EggBuffer.Plenty (b : EggBuffer) : Prop :=
  ∃ alloc : EggBufferAllocator, b.allocator = some alloc ∧ ∀ i n, alloc i n = true

/-- A write that succeeds, and leaves a buffer that grows. -/
def Granted (r : Bool × EggBuffer) : Prop := r.1 = true ∧ r.2.Plenty

theorem eggBufferReserve_granted (h : b.Plenty) (n : Nat) : Granted (eggBufferReserve b n) := by
  obtain ⟨alloc, ha, hall⟩ := h
  unfold eggBufferReserve
  split
  · exact ⟨rfl, alloc, ha, hall⟩
  · rw [ha]
    dsimp only
    rw [if_pos (hall _ _)]
    exact ⟨rfl, alloc, rfl, hall⟩

theorem Granted.andThen {f : EggBuffer → Bool × EggBuffer} (h : Granted r)
    (hf : ∀ b, b.Plenty → Granted (f b)) : Granted (Egg.andThen r f) := by
  rw [Egg.andThen, if_pos h.1]
  exact hf r.2 h.2

theorem eggBufferAppend_granted (h : b.Plenty) (val : Bytes) : Granted (eggBufferAppend b val) := by
  apply (eggBufferReserve_granted h _).andThen
  intro b' hb'
  exact ⟨rfl, hb'⟩

theorem eggBufferAddByte_granted (h : b.Plenty) (v : UInt8) : Granted (eggBufferAddByte b v) :=
  eggBufferAppend_granted h [v]

theorem eggBufferAddUint32_granted (h : b.Plenty) (v : Nat) : Granted (eggBufferAddUint32 b v) :=
  eggBufferAppend_granted h _

theorem eggBufferAddUint16_granted (h : b.Plenty) (v : Nat) : Granted (eggBufferAddUint16 b v) :=
  eggBufferAppend_granted h _

theorem eggBufferAddUint64_granted (h : b.Plenty) (v : Nat) : Granted (eggBufferAddUint64 b v) :=
  (eggBufferAddUint32_granted h _).andThen fun _ hb => eggBufferAddUint32_granted hb _

theorem eggBufferAddByteArray_granted (h : b.Plenty) {val : Option Bytes}
    (hlen : ∀ d, val = some d → d.length < 0x7fffffff) :
    Granted (eggBufferAddByteArray b val) := by
  cases val with
  | none => exact eggBufferAddUint32_granted h _
  | some data =>
    have hlt := hlen data rfl
    rw [eggBufferAddByteArray, if_neg (by omega)]
    exact (eggBufferAddUint32_granted h _).andThen fun _ hb => eggBufferAppend_granted hb _

/-- A successful sequence of writes: `out` was appended, no failure was counted, and the buffer
still grows. -/
structure Appended (b b' : EggBuffer) (out : Bytes) : Prop where
  plenty : b'.Plenty
  buf_eq : b'.buf = b.buf ++ out
  failures : b'.failures = b.failures

theorem Appended.trans {b b' b'' : EggBuffer} (h : Appended b b' x) (h' : Appended b' b'' y) :
    Appended b b'' (x ++ y) :=
  ⟨h'.plenty, by rw [h'.buf_eq, h.buf_eq, append_assoc], by rw [h'.failures, h.failures]⟩

theorem Granted.appended (h : Granted r) (hw : Writes b r out) : Appended b r.2 out :=
  ⟨h.2, (hw.ok h.1).1, (hw.ok h.1).2⟩

theorem appended_addByte (h : b.Plenty) (v : UInt8) : Appended b (eggBufferAddByte b v).2 [v] :=
  (eggBufferAddByte_granted h v).appended (eggBufferAddByte_writes b v)

theorem appended_addUint32 (h : b.Plenty) (v : Nat) :
    Appended b (eggBufferAddUint32 b v).2 (encode 4 v) :=
  (eggBufferAddUint32_granted h v).appended (eggBufferAddUint32_writes b v)

theorem appended_addByteArray {b : EggBuffer} (h : b.Plenty) {val : Option Bytes}
    (hlen : ∀ d, val = some d → d.length < 0x7fffffff) :
    Appended b (eggBufferAddByteArray b val).2 (byteArrayBytes val) :=
  (eggBufferAddByteArray_granted h hlen).appended (eggBufferAddByteArray_writes b val)

theorem appended_addString (h : b.Plenty) {str : Bytes} (hlen : str.length < 0x7fffffff) :
    Appended b (eggBufferAddString b (some str)).2 (byteArrayBytes (some str)) := by
  refine Granted.appended ?_ (eggBufferAddString_writes b str hlen)
  rw [eggBufferAddString, if_neg (by omega)]
  exact (eggBufferAddUint32_granted h _).andThen fun _ hb => eggBufferAppend_granted hb _

/-! ## Reads -/

/-- The bytes `buf[offset .. offset + n)`. -/
def EggBuffer.peek (b : EggBuffer) (offset n : Nat) : Checked Bytes :=
  if offset + n ≤ b.len then .ok ((b.buf.drop offset).take n) else .error .outOfBounds

/-- `egg_buffer_get_byte`: the byte and the next offset. -/
def eggBufferGetByte (b : EggBuffer) (offset : Nat) : Checked (Option (UInt8 × Nat) × EggBuffer) :=
  if b.len < 1 ∨ offset > b.len - 1 then .ok (none, b.fail)
  else do
    let ptr ← b.peek offset 1
    pure (some (ptr.getD 0 0, offset + 1), b)

/-- `egg_buffer_get_uint32`. -/
def eggBufferGetUint32 (b : EggBuffer) (offset : Nat) : Checked (Option (Nat × Nat) × EggBuffer) :=
  if b.len < 4 ∨ offset > b.len - 4 then .ok (none, b.fail)
  else do
    let ptr ← b.peek offset 4
    pure (some (eggBufferDecodeUint32 ptr, offset + 4), b)

/-- `egg_buffer_get_uint16`. -/
def eggBufferGetUint16 (b : EggBuffer) (offset : Nat) : Checked (Option (Nat × Nat) × EggBuffer) :=
  if b.len < 2 ∨ offset > b.len - 2 then .ok (none, b.fail)
  else do
    let ptr ← b.peek offset 2
    pure (some (eggBufferDecodeUint16 ptr, offset + 2), b)

/-- `egg_buffer_get_uint64`. -/
def eggBufferGetUint64 (b : EggBuffer) (offset : Nat) :
    Checked (Option (Nat × Nat) × EggBuffer) := do
  match ← eggBufferGetUint32 b offset with
  | (none, b) => pure (none, b)
  | (some (a, offset), b) =>
    match ← eggBufferGetUint32 b offset with
    | (none, b) => pure (none, b)
    | (some (c, offset), b) => pure (some (a * 2 ^ 32 + c, offset), b)

/-- `egg_buffer_get_byte_array`: a null pointer or the bytes, and the next offset. -/
def eggBufferGetByteArray (b : EggBuffer) (offset : Nat) :
    Checked (Option (Option Bytes × Nat) × EggBuffer) := do
  match ← eggBufferGetUint32 b offset with
  | (none, b) => pure (none, b)
  | (some (len, offset), b) =>
    if len = 0xffffffff then pure (some (none, offset), b)
    else if 0x7fffffff ≤ len then pure (none, b.fail)
    else if b.len < len ∨ offset > b.len - len then pure (none, b.fail)
    else do
      let val ← b.peek offset len
      pure (some (some val, offset + len), b)

/-- `egg_buffer_get_string`, when the allocator gives memory for the copy: a null pointer or the
characters, and the next offset. No failure is counted for what is not a string. -/
def eggBufferGetString (b : EggBuffer) (offset : Nat) :
    Checked (Option (Option Bytes × Nat) × EggBuffer) := do
  match ← eggBufferGetUint32 b offset with
  | (none, b) => pure (none, b)
  | (some (len, offset), b) =>
    if len = 0xffffffff then pure (some (none, offset), b)
    else if 0x7fffffff ≤ len then pure (none, b)
    else if b.len < len ∨ offset > b.len - len then pure (none, b)
    else do
      let val ← b.peek offset len
      if 0 ∈ val then pure (none, b)
      else pure (some (some val, offset + len), b)

/-- The outcome of a read whose value is `r`: an absent value counts a failure. -/
def readResult {α : Type*} (b : EggBuffer) (r : Option α) : Option α × EggBuffer :=
  match r with
  | none => (none, b.fail)
  | some v => (some v, b)

@[simp] theorem readResult_none {α : Type*} (b : EggBuffer) :
    readResult b (none : Option α) = (none, b.fail) := rfl

@[simp] theorem readResult_some {α : Type*} (b : EggBuffer) (v : α) :
    readResult b (some v) = (some v, b) := rfl

/-- Value of a byte read. -/
def byteAt (bs : Bytes) (offset : Nat) : Option (UInt8 × Nat) :=
  (bs[offset]?).map fun v => (v, offset + 1)

/-- Value of a 32-bit read. -/
def uint32At (bs : Bytes) (offset : Nat) : Option (Nat × Nat) :=
  (readAt 4 bs offset).map fun v => (v, offset + 4)

/-- Value of a 16-bit read. -/
def uint16At (bs : Bytes) (offset : Nat) : Option (Nat × Nat) :=
  (readAt 2 bs offset).map fun v => (v, offset + 2)

/-- Value of a 64-bit read. -/
def uint64At (bs : Bytes) (offset : Nat) : Option (Nat × Nat) :=
  (readAt 8 bs offset).map fun v => (v, offset + 8)

/-- Value of a byte-array read. -/
def byteArrayAt (bs : Bytes) (offset : Nat) : Option (Option Bytes × Nat) :=
  match readAt 4 bs offset with
  | none => none
  | some len =>
    if len = 0xffffffff then some (none, offset + 4)
    else if 0x7fffffff ≤ len then none
    else (sliceAt bs (offset + 4) len).map fun v => (some v, offset + 4 + len)

/-- A C string: bytes without a null character. -/
abbrev CString := { s : Bytes // (0 : UInt8) ∉ s }

/-- Value of a string read. -/
def stringAt (bs : Bytes) (offset : Nat) : Option (Option CString × Nat) :=
  match readAt 4 bs offset with
  | none => none
  | some len =>
    if len = 0xffffffff then some (none, offset + 4)
    else if 0x7fffffff ≤ len then none
    else
      match sliceAt bs (offset + 4) len with
      | none => none
      | some v => if h : (0 : UInt8) ∈ v then none else some (some ⟨v, h⟩, offset + 4 + len)

theorem eggBufferDecodeUint32_eq {ptr : Bytes} (h : ptr.length = 4) :
    eggBufferDecodeUint32 ptr = decode ptr := by
  match ptr, h with
  | [a, b, c, d], _ => simp [eggBufferDecodeUint32, decode]; omega

theorem eggBufferDecodeUint16_eq {ptr : Bytes} (h : ptr.length = 2) :
    eggBufferDecodeUint16 ptr = decode ptr := by
  match ptr, h with
  | [a, b], _ => simp [eggBufferDecodeUint16, decode]

theorem decode_encodeUint32 {v : Nat} (h : v < 2 ^ 32) :
    eggBufferDecodeUint32 (eggBufferEncodeUint32 v) = v := by
  have hlen : (eggBufferEncodeUint32 v).length = 4 := rfl
  rw [eggBufferDecodeUint32_eq hlen, eggBufferEncodeUint32_eq]
  exact decode_encode_of_lt (by simpa using h)

theorem EggBuffer.peek_eq {offset n : Nat} (h : sliceAt b.buf offset n = some out) :
    b.peek offset n = .ok out := by
  obtain ⟨hle, rfl⟩ := sliceAt_eq_some_iff.1 h
  simp [EggBuffer.peek, EggBuffer.len, hle]

theorem eggBufferGetByte_eq (b : EggBuffer) (offset : Nat) :
    eggBufferGetByte b offset = .ok (readResult b (byteAt b.buf offset)) := by
  unfold eggBufferGetByte byteAt
  by_cases h : offset < b.buf.length
  · rw [if_neg (by simp only [EggBuffer.len]; omega)]
    have hs : sliceAt b.buf offset 1 = some [b.buf[offset]] := by
      rw [sliceAt_eq_some_iff]
      refine ⟨by omega, ?_⟩
      rw [drop_eq_getElem_cons h, take_succ_cons, take_zero]
    simp [EggBuffer.peek_eq hs, h]
  · rw [if_pos (by simp only [EggBuffer.len]; omega)]
    simp [h]

theorem eggBufferGetUint32_eq (b : EggBuffer) (offset : Nat) :
    eggBufferGetUint32 b offset = .ok (readResult b (uint32At b.buf offset)) := by
  unfold eggBufferGetUint32 uint32At readAt
  cases hs : sliceAt b.buf offset 4 with
  | none =>
    have := sliceAt_eq_none_iff.1 hs
    rw [if_pos (by simp only [EggBuffer.len]; omega)]
    simp
  | some out =>
    have hle := (sliceAt_eq_some_iff.1 hs).1
    rw [if_neg (by simp only [EggBuffer.len]; omega)]
    simp [EggBuffer.peek_eq hs, eggBufferDecodeUint32_eq (length_of_sliceAt hs)]

theorem eggBufferGetUint16_eq (b : EggBuffer) (offset : Nat) :
    eggBufferGetUint16 b offset = .ok (readResult b (uint16At b.buf offset)) := by
  unfold eggBufferGetUint16 uint16At readAt
  cases hs : sliceAt b.buf offset 2 with
  | none =>
    have := sliceAt_eq_none_iff.1 hs
    rw [if_pos (by simp only [EggBuffer.len]; omega)]
    simp
  | some out =>
    have hle := (sliceAt_eq_some_iff.1 hs).1
    rw [if_neg (by simp only [EggBuffer.len]; omega)]
    simp [EggBuffer.peek_eq hs, eggBufferDecodeUint16_eq (length_of_sliceAt hs)]

theorem eggBufferGetUint64_eq (b : EggBuffer) (offset : Nat) :
    eggBufferGetUint64 b offset = .ok (readResult b (uint64At b.buf offset)) := by
  unfold eggBufferGetUint64
  rw [eggBufferGetUint32_eq, uint32At, uint64At]
  cases hr : readAt 4 b.buf offset with
  | none =>
    have hlt := readAt_eq_none_iff.1 hr
    have h8 : readAt 8 b.buf offset = none := readAt_eq_none_iff.2 (by omega)
    simp [h8]
  | some a =>
    simp only [Option.map_some, readResult_some, ok_bind, eggBufferGetUint32_eq, uint32At]
    cases hr' : readAt 4 b.buf (offset + 4) with
    | none =>
      have hlt := readAt_eq_none_iff.1 hr'
      have h8 : readAt 8 b.buf offset = none := readAt_eq_none_iff.2 (by omega)
      simp [h8]
    | some c =>
      have h8 : readAt 8 b.buf offset = some (a * 256 ^ 4 + c) := readAt_add hr hr'
      simp [h8]

theorem eggBufferGetByteArray_eq (b : EggBuffer) (offset : Nat) :
    eggBufferGetByteArray b offset = .ok (readResult b (byteArrayAt b.buf offset)) := by
  unfold eggBufferGetByteArray byteArrayAt
  rw [eggBufferGetUint32_eq, uint32At]
  cases hr : readAt 4 b.buf offset with
  | none => simp
  | some len =>
    simp only [Option.map_some, readResult_some, ok_bind]
    split
    · simp
    · split
      · simp
      · cases hs : sliceAt b.buf (offset + 4) len with
        | none =>
          have := sliceAt_eq_none_iff.1 hs
          rw [if_pos (by simp only [EggBuffer.len]; omega)]
          simp
        | some out =>
          have hle := (sliceAt_eq_some_iff.1 hs).1
          rw [if_neg (by simp only [EggBuffer.len]; omega)]
          simp [EggBuffer.peek_eq hs]

theorem eggBufferGetString_eq (b : EggBuffer) (offset : Nat) :
    ∃ b', eggBufferGetString b offset =
        .ok ((stringAt b.buf offset).map fun r => (r.1.map Subtype.val, r.2), b') ∧
      (stringAt b.buf offset ≠ none → b' = b) := by
  unfold eggBufferGetString stringAt
  rw [eggBufferGetUint32_eq, uint32At]
  cases hr : readAt 4 b.buf offset with
  | none => exact ⟨b.fail, rfl, by simp⟩
  | some len =>
    refine ⟨b, ?_, fun _ => rfl⟩
    simp only [Option.map_some, readResult_some, ok_bind]
    split
    · simp
    · split
      · simp
      · cases hs : sliceAt b.buf (offset + 4) len with
        | none =>
          have hlt := sliceAt_eq_none_iff.1 hs
          rw [if_pos (by simp only [EggBuffer.len]; omega)]
          simp
        | some out =>
          have hle := (sliceAt_eq_some_iff.1 hs).1
          rw [if_neg (by simp only [EggBuffer.len]; omega)]
          by_cases hzero : (0 : UInt8) ∈ out
          · simp [EggBuffer.peek_eq hs, hzero]
          · simp [EggBuffer.peek_eq hs, hzero]

/-! ## Reading what is there -/

theorem byteAt_of_hasAt {bs out : Bytes} {off : Nat} {v : UInt8}
    (h : HasAt bs off (v :: out)) : byteAt bs off = some (v, off + 1) := by
  simp [byteAt, h.head]

theorem uint32At_of_hasAt (h : HasAt bs off (encode 4 v)) (hv : v < 2 ^ 32) :
    uint32At bs off = some (v, off + 4) := by
  simp [uint32At, h.readAt (by omega)]

theorem uint16At_of_hasAt (h : HasAt bs off (encode 2 v)) (hv : v < 2 ^ 16) :
    uint16At bs off = some (v, off + 2) := by
  simp [uint16At, h.readAt (by omega)]

theorem uint64At_of_hasAt (h : HasAt bs off (encode 8 v)) (hv : v < 2 ^ 64) :
    uint64At bs off = some (v, off + 8) := by
  simp [uint64At, h.readAt (by omega)]

theorem byteArrayAt_of_hasAt {off : Nat} {data : Option Bytes}
    (h : HasAt bs off (byteArrayBytes data)) (hlen : ∀ d, data = some d → d.length < 0x7fffffff) :
    byteArrayAt bs off = some (data, off + (byteArrayBytes data).length) := by
  cases data with
  | none =>
    have hr : readAt 4 bs off = some 0xffffffff := h.readAt (by omega)
    simp [byteArrayAt, hr, byteArrayBytes]
  | some d =>
    have hd := hlen d rfl
    have hr : readAt 4 bs off = some d.length := h.left.readAt (by omega)
    have hs := h.right.sliceAt
    rw [length_encode] at hs
    have h1 : ¬ d.length = 0xffffffff := by omega
    have h2 : ¬ 0x7fffffff ≤ d.length := by omega
    simp only [byteArrayAt, hr, if_neg h1, if_neg h2, hs, Option.map_some, byteArrayBytes,
      length_append, length_encode, Nat.add_assoc]

theorem stringAt_of_hasAt {off : Nat} {str : CString}
    (h : HasAt bs off (byteArrayBytes (some str.val))) (hlen : str.val.length < 0x7fffffff) :
    stringAt bs off = some (some str, off + (byteArrayBytes (some str.val)).length) := by
  have hr : readAt 4 bs off = some str.val.length := h.left.readAt (by omega)
  have hs := h.right.sliceAt
  rw [length_encode] at hs
  have h1 : ¬ str.val.length = 0xffffffff := by omega
  have h2 : ¬ 0x7fffffff ≤ str.val.length := by omega
  simp only [stringAt, hr, if_neg h1, if_neg h2, hs, dif_neg str.property, byteArrayBytes,
    length_append, length_encode, Nat.add_assoc]

end Egg

end MateKeyring
