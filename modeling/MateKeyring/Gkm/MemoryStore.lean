import Mathlib.Data.List.AList
import MateKeyring.Gkm.Transaction

/-!
# Attributes kept in memory

The stores of `gkm-store.c` and `gkm-memory-store.c`: a store has a schema for each attribute type it
keeps, and a memory store has for each object the attributes that were written to it. A write takes
the attribute that was there before out of the table and registers a callback that puts it back when
the transaction fails. The notifications of the writes do not reach the store.
-/

set_option autoImplicit false

namespace MateKeyring.Gkm

open Lib Egg List
open Rpc (CkRv ckrOk ckrAttributeTypeInvalid CkAttribute)

/-! ## Attributes -/

/-- The bytes of an attribute. -/
def attributeValue (attr : CkAttribute) : Bytes := attr.pValue.getD []

/-- The memory of an attribute is as long as the attribute says. -/
def Holds (attr : CkAttribute) : Prop := (attributeValue attr).length = attr.ulValueLen

instance (attr : CkAttribute) : Decidable (Holds attr) := inferInstanceAs (Decidable (_ = _))

/-- `memcmp` over the first `n` bytes, for equality. -/
def memcmpEq (a b : Bytes) (n : Nat) : Checked Bool :=
  if a.length < n ∨ b.length < n then .error .outOfBounds else .ok (a.take n == b.take n)

/-- `gkm_attribute_equal`, for attributes that are not at one place and have no memory in common. -/
def gkmAttributeEqual (a b : CkAttribute) : Checked Bool :=
  if a.type ≠ b.type then .ok false
  else if a.ulValueLen ≠ b.ulValueLen then .ok false
  else
    match a.pValue, b.pValue with
    | none, none => .ok true
    | some v, some w => if a.ulValueLen = 0 then .ok true else memcmpEq v w a.ulValueLen
    | _, _ => if a.ulValueLen = 0 then .ok true else .error .assertion

/-- `g_memdup`; its size is a `guint`, and a size of zero gives a null pointer. -/
def gMemdup (mem : Option Bytes) (byteSize : Nat) : Checked (Option Bytes) :=
  match mem with
  | none => .ok none
  | some m =>
    if byteSize % 2 ^ 32 = 0 then .ok none
    else if m.length < byteSize % 2 ^ 32 then .error .outOfBounds
    else .ok (some (m.take (byteSize % 2 ^ 32)))

/-- `attribute_dup`. -/
def attributeDup (attr : CkAttribute) : Checked CkAttribute := do
  let pValue ← gMemdup attr.pValue attr.ulValueLen
  pure { attr with pValue }

theorem gkmAttributeEqual_eq {a b : CkAttribute} (ha : Holds a) (hb : Holds b) :
    gkmAttributeEqual a b = .ok (decide (a.type = b.type ∧ attributeValue a = attributeValue b)) := by
  unfold gkmAttributeEqual
  by_cases ht : a.type = b.type
  · rw [if_neg (not_not_intro ht)]
    by_cases hl : a.ulValueLen = b.ulValueLen
    · rw [if_neg (not_not_intro hl)]
      unfold Holds attributeValue at ha hb
      cases hva : a.pValue with
      | none =>
        rw [hva] at ha
        have hlen : a.ulValueLen = 0 := ha.symm
        cases hvb : b.pValue with
        | none => simp [ht, attributeValue, hva, hvb]
        | some w =>
          rw [hvb, ← hl, hlen] at hb
          have hw : w = [] := length_eq_zero_iff.1 hb
          simp [hlen, ht, attributeValue, hva, hvb, hw]
      | some v =>
        rw [hva] at ha
        cases hvb : b.pValue with
        | none =>
          rw [hvb, ← hl] at hb
          have hlen : a.ulValueLen = 0 := hb.symm
          have hv : v = [] := length_eq_zero_iff.1 (ha.trans hlen)
          simp [hlen, ht, attributeValue, hva, hvb, hv]
        | some w =>
          rw [hvb, ← hl] at hb
          have hv : v.length = a.ulValueLen := ha
          have hw : w.length = a.ulValueLen := hb
          by_cases hlen : a.ulValueLen = 0
          · have hv0 : v = [] := length_eq_zero_iff.1 (hv.trans hlen)
            have hw0 : w = [] := length_eq_zero_iff.1 (hw.trans hlen)
            simp [hlen, ht, attributeValue, hva, hvb, hv0, hw0]
          · have htv : v.take a.ulValueLen = v := take_of_length_le hv.le
            have htw : w.take a.ulValueLen = w := take_of_length_le hw.le
            simp [hlen, memcmpEq, ht, attributeValue, hva, hvb, hv, hw, htv, htw,
              Bool.beq_eq_decide_eq]
    · rw [if_pos hl]
      have hne : attributeValue a ≠ attributeValue b := fun h => hl (by rw [← ha, ← hb, h])
      simp [hne]
  · rw [if_pos ht]
    simp [ht]

/-- An attribute shorter than four gigabytes is copied. -/
theorem attributeDup_eq {attr : CkAttribute} (h : Holds attr) (hlen : attr.ulValueLen < 2 ^ 32) :
    ∃ copy, attributeDup attr = .ok copy ∧ copy.type = attr.type ∧ Holds copy ∧
      attributeValue copy = attributeValue attr := by
  unfold attributeDup gMemdup
  rw [Nat.mod_eq_of_lt hlen]
  unfold Holds attributeValue at h
  cases hv : attr.pValue with
  | none =>
    rw [hv] at h
    exact ⟨_, rfl, rfl, h, by simp [attributeValue, hv]⟩
  | some v =>
    rw [hv] at h
    have hvlen : v.length = attr.ulValueLen := h
    by_cases h0 : attr.ulValueLen = 0
    · have hv0 : v = [] := length_eq_zero_iff.1 (hvlen.trans h0)
      refine ⟨{ attr with pValue := none }, by simp [h0], rfl, h0.symm, ?_⟩
      simp [attributeValue, hv, hv0]
    · have htake : v.take attr.ulValueLen = v := take_of_length_le hvlen.le
      refine ⟨{ attr with pValue := some v }, by simp [h0, hvlen, htake], rfl, hvlen, ?_⟩
      simp [attributeValue, hv]

/-! ## The store -/

/-- A schema of `gkm_store_register_schema`: what is used of it when an attribute is written. -/
structure Schema (ω : Type) where
  isInternal : Bool
  validator : Option (ω → CkAttribute → CkRv)

/-- `GkmMemoryStore`. The key of an attribute in its table is its type. -/
structure GkmMemoryStore (ω : Type) where
  schemas : Nat → Option (Schema ω)
  entries : AList fun _ : ω => AList fun _ : Nat => CkAttribute

variable {ω : Type} [DecidableEq ω]

/-- The attribute of an object in the tables. -/
def GkmMemoryStore.find? (self : GkmMemoryStore ω) (object : ω) (type : Nat) : Option CkAttribute :=
  (self.entries.lookup object).bind (·.lookup type)

/-- What an attribute of the table of an object is replaced by, or that it is removed. -/
def GkmMemoryStore.put (self : GkmMemoryStore ω) (object : ω) (type : Nat)
    (attr : Option CkAttribute) : GkmMemoryStore ω :=
  let attributes := (self.entries.lookup object).getD ∅
  let attributes :=
    match attr with
    | some attr => attributes.insert type attr
    | none => attributes.erase type
  { self with entries := self.entries.insert object attributes }

/-- `Revert`: the table of the object stays the same one, so it is named by the object. -/
structure Revert (ω : Type) where
  object : ω
  type : Nat
  attr : Option CkAttribute

/-- `complete_set`. -/
def completeSet (failed : Bool) (revert : Revert ω) (self : GkmMemoryStore ω) : GkmMemoryStore ω :=
  if failed then self.put revert.object revert.type revert.attr else self

/-- The table of an object, made when there is none yet. -/
def GkmMemoryStore.ensure (self : GkmMemoryStore ω) (object : ω) : GkmMemoryStore ω :=
  match self.entries.lookup object with
  | some _ => self
  | none => { self with entries := self.entries.insert object ∅ }

variable {κ : Type}

/-- `gkm_memory_store_real_write_value`; `record` is how the transaction keeps the callback. -/
def gkmMemoryStoreRealWriteValue (record : Revert ω → κ) (self : GkmMemoryStore ω)
    (transaction : GkmTransaction κ) (object : ω) (attr : CkAttribute) :
    Checked (GkmMemoryStore ω × GkmTransaction κ) := do
  if transaction.failed then pure (self, transaction)
  else
    let self := self.ensure object
    let write (old : Option CkAttribute) := do
      let copy ← attributeDup attr
      pure (self.put object attr.type (some copy),
        gkmTransactionAdd transaction (record ⟨object, attr.type, old⟩))
    match self.find? object attr.type with
    | none => write none
    | some a =>
      if ← gkmAttributeEqual a attr then pure (self, transaction)
      else write (some a)

/-- `gkm_store_write_value`. -/
def gkmStoreWriteValue (record : Revert ω → κ) (self : GkmMemoryStore ω)
    (transaction : GkmTransaction κ) (object : ω) (attr : CkAttribute) :
    Checked (GkmMemoryStore ω × GkmTransaction κ) :=
  if transaction.failed then .ok (self, transaction)
  else
    match self.schemas attr.type with
    | none => .ok (self, gkmTransactionFail transaction ckrAttributeTypeInvalid)
    | some _ => gkmMemoryStoreRealWriteValue record self transaction object attr

/-- The checks of `gkm_store_set_attribute`. -/
def setAttributeRv (self : GkmMemoryStore ω) (object : ω) (attr : CkAttribute) : CkRv :=
  match self.schemas attr.type with
  | none => ckrAttributeTypeInvalid
  | some schema =>
    if schema.isInternal then ckrAttributeTypeInvalid
    else
      match schema.validator with
      | none => ckrOk
      | some validator => validator object attr

/-- `gkm_store_set_attribute`. -/
def gkmStoreSetAttribute (record : Revert ω → κ) (self : GkmMemoryStore ω)
    (transaction : GkmTransaction κ) (object : ω) (attr : CkAttribute) :
    Checked (GkmMemoryStore ω × GkmTransaction κ) :=
  if transaction.failed then .ok (self, transaction)
  else if setAttributeRv self object attr ≠ ckrOk then
    .ok (self, gkmTransactionFail transaction (setAttributeRv self object attr))
  else gkmMemoryStoreRealWriteValue record self transaction object attr

end MateKeyring.Gkm
