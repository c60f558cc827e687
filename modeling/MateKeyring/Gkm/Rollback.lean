import MateKeyring.Gkm.MemoryStore
import MateKeyring.Secret.Collection

/-!
# Rollback of what is kept in memory

Secrets (`gkm-secret-data.c`) and attributes (`gkm-memory-store.c`) written within one transaction.
When the transaction fails, undoing the writes latest first leads back to the tables before it; when
it succeeds, every key has the last value written to it. The second holds as long as the copies that
the memory store makes are whole (`memory_transaction`).
-/

set_option autoImplicit false

namespace MateKeyring.Gkm

open Lib Egg Secret List
open Rpc (CkRv ckrOk ckrAttributeTypeInvalid CkAttribute)

/-! ## Secrets in a transaction -/

/-- `set_secret_args`. -/
structure SetSecretArgs where
  identifier : CString
  oldSecret : Option GkmSecret

/-- `complete_set_secret`. -/
def completeSetSecret (failed : Bool) (args : SetSecretArgs) (self : GkmSecretData) :
    GkmSecretData :=
  if failed then
    match args.oldSecret with
    | none => gkmSecretDataRemoveSecret self args.identifier
    | some old => gkmSecretDataSetSecret self args.identifier old
  else self

variable {κ : Type}

/-- `begin_set_secret`: the old secret is stolen from the table before the new one is put there. -/
def beginSetSecret (record : SetSecretArgs → κ) (self : GkmSecretData)
    (transaction : GkmTransaction κ) (identifier : CString) (secret : GkmSecret) :
    GkmSecretData × GkmTransaction κ :=
  let args := { identifier, oldSecret := gkmSecretDataGetSecret self identifier }
  (gkmSecretDataSetSecret (gkmSecretDataRemoveSecret self identifier) identifier secret,
    gkmTransactionAdd transaction (record args))

/-- `gkm_secret_data_set_transacted`. -/
def gkmSecretDataSetTransacted (record : SetSecretArgs → κ) (self : GkmSecretData)
    (transaction : GkmTransaction κ) (identifier : CString) (secret : GkmSecret) :
    GkmSecretData × GkmTransaction κ :=
  if transaction.failed then (self, transaction)
  else beginSetSecret record self transaction identifier secret

/-! ## Writes of one transaction -/

/-- What the writes of a transaction change. -/
structure Memory (ω : Type) where
  data : GkmSecretData
  store : GkmMemoryStore ω

/-- The callbacks that the writes register. -/
inductive MemoryComplete (ω : Type) where
  | setSecret (args : SetSecretArgs)
  | set (revert : Revert ω)

/-- One call of a transaction. -/
inductive Write (ω : Type) where
  | setTransacted (identifier : CString) (secret : GkmSecret)
  | writeValue (object : ω) (attr : CkAttribute)
  | setAttribute (object : ω) (attr : CkAttribute)
  | fail (result : CkRv)

variable {ω : Type} [DecidableEq ω]

/-- `complete_invoke` for these callbacks. -/
def MemoryComplete.invoke (failed : Bool) (complete : MemoryComplete ω) (m : Memory ω) : Memory ω :=
  match complete with
  | .setSecret args => { m with data := completeSetSecret failed args m.data }
  | .set revert => { m with store := completeSet failed revert m.store }

/-- Memory and transaction after one call. -/
def Write.run (op : Write ω) (s : Memory ω × GkmTransaction (MemoryComplete ω)) :
    Checked (Memory ω × GkmTransaction (MemoryComplete ω)) :=
  match op with
  | .setTransacted identifier secret =>
    let (data, transaction) := gkmSecretDataSetTransacted .setSecret s.1.data s.2 identifier secret
    .ok ({ s.1 with data }, transaction)
  | .writeValue object attr => do
      let (store, transaction) ← gkmStoreWriteValue .set s.1.store s.2 object attr
      pure ({ s.1 with store }, transaction)
  | .setAttribute object attr => do
      let (store, transaction) ← gkmStoreSetAttribute .set s.1.store s.2 object attr
      pure ({ s.1 with store }, transaction)
  | .fail result => .ok (s.1, gkmTransactionFail s.2 result)

/-- Memory and transaction after a sequence of calls. -/
def runWrites : List (Write ω) → Memory ω × GkmTransaction (MemoryComplete ω) →
    Checked (Memory ω × GkmTransaction (MemoryComplete ω))
  | [], s => .ok s
  | op :: ops, s => do runWrites ops (← op.run s)

/-- Memory after the transaction is completed. -/
def completeMemory (s : Memory ω × GkmTransaction (MemoryComplete ω)) : Memory ω :=
  (gkmTransactionComplete MemoryComplete.invoke s.2 s.1).2

/-! ## What is looked up -/

/-- Every secret and every attribute that is looked up is the same. -/
structure SameTables (m m' : Memory ω) : Prop where
  secrets : ∀ identifier, gkmSecretDataGetSecret m.data identifier =
    gkmSecretDataGetSecret m'.data identifier
  master : m.data.master = m'.data.master
  attributes : ∀ object type, m.store.find? object type = m'.store.find? object type

variable {m : Memory ω}

theorem SameTables.trans {m' m'' : Memory ω} (h : SameTables m m') (h' : SameTables m' m'') :
    SameTables m m'' :=
  ⟨fun i => (h.secrets i).trans (h'.secrets i), h.master.trans h'.master,
    fun o t => (h.attributes o t).trans (h'.attributes o t)⟩

@[simp] theorem getSecret_set (d : GkmSecretData) (i j : CString) (s : GkmSecret) :
    gkmSecretDataGetSecret (gkmSecretDataSetSecret d i s) j =
      if j = i then some s else gkmSecretDataGetSecret d j := by
  unfold gkmSecretDataGetSecret gkmSecretDataSetSecret
  by_cases h : j = i
  · rw [if_pos h, h]
    exact AList.lookup_insert _
  · rw [if_neg h]
    exact AList.lookup_insert_ne h

@[simp] theorem getSecret_remove (d : GkmSecretData) (i j : CString) :
    gkmSecretDataGetSecret (gkmSecretDataRemoveSecret d i) j =
      if j = i then none else gkmSecretDataGetSecret d j := by
  unfold gkmSecretDataGetSecret gkmSecretDataRemoveSecret
  by_cases h : j = i
  · rw [if_pos h, h]
    exact AList.lookup_erase ..
  · rw [if_neg h]
    exact AList.lookup_erase_ne h

@[simp] theorem find?_put (s : GkmMemoryStore ω) (o o' : ω) (t t' : Nat) (a : Option CkAttribute) :
    (s.put o t a).find? o' t' = if o' = o ∧ t' = t then a else s.find? o' t' := by
  unfold GkmMemoryStore.find? GkmMemoryStore.put
  by_cases ho : o' = o
  · subst ho
    rw [AList.lookup_insert]
    have hold : ((s.entries.lookup o').getD ∅).lookup t' =
        (s.entries.lookup o').bind (·.lookup t') := by
      cases s.entries.lookup o' <;> rfl
    by_cases ht : t' = t
    · subst ht
      cases a with
      | none => simp
      | some a => simp
    · cases a with
      | none => simp [ht, AList.lookup_erase_ne ht, hold]
      | some a => simp [ht, AList.lookup_insert_ne ht, hold]
  · rw [AList.lookup_insert_ne ho, if_neg fun h => ho h.1]

@[simp] theorem find?_ensure (s : GkmMemoryStore ω) (o o' : ω) (t : Nat) :
    (s.ensure o).find? o' t = s.find? o' t := by
  unfold GkmMemoryStore.ensure
  split
  · rfl
  · rename_i hnone
    unfold GkmMemoryStore.find?
    by_cases ho : o' = o
    · subst ho
      rw [AList.lookup_insert, hnone]
      rfl
    · rw [AList.lookup_insert_ne ho]

/-- Undoing the writes of a failed transaction. -/
def memoryLog : UndoLog (Memory ω) (MemoryComplete ω) where
  undo := MemoryComplete.invoke true
  same := SameTables
  same_refl m := ⟨fun _ => rfl, rfl, fun _ _ => rfl⟩
  same_trans := SameTables.trans
  undo_congr k m m' h := by
    cases k with
    | setSecret args =>
      refine ⟨fun i => ?_, ?_, h.attributes⟩
      · cases ho : args.oldSecret with
        | none => simp [MemoryComplete.invoke, completeSetSecret, ho, h.secrets]
        | some old => simp [MemoryComplete.invoke, completeSetSecret, ho, h.secrets]
      · cases ho : args.oldSecret with
        | none =>
          simpa [MemoryComplete.invoke, completeSetSecret, ho, gkmSecretDataRemoveSecret]
            using h.master
        | some old =>
          simpa [MemoryComplete.invoke, completeSetSecret, ho, gkmSecretDataSetSecret]
            using h.master
    | set revert =>
      refine ⟨h.secrets, h.master, fun o t => ?_⟩
      simp [MemoryComplete.invoke, completeSet, h.attributes]

/-! ## What a call does -/

variable {attr : CkAttribute}

theorem gkmMemoryStoreRealWriteValue_cases {record : Revert ω → κ} {self self' : GkmMemoryStore ω}
    {t t' : GkmTransaction κ} {object : ω}
    (h : gkmMemoryStoreRealWriteValue record self t object attr = .ok (self', t'))
    (hf : t.failed = false) :
    (∃ a, self.find? object attr.type = some a ∧ gkmAttributeEqual a attr = .ok true ∧
      self' = self.ensure object ∧ t' = t) ∨
    (∃ copy, attributeDup attr = .ok copy ∧
      self' = (self.ensure object).put object attr.type (some copy) ∧
      t' = gkmTransactionAdd t (record ⟨object, attr.type, self.find? object attr.type⟩)) := by
  unfold gkmMemoryStoreRealWriteValue at h
  simp only [hf, Bool.false_eq_true, if_false, find?_ensure] at h
  cases ha : self.find? object attr.type with
  | none =>
    simp only [ha] at h
    obtain ⟨copy, hcopy, hok⟩ := bind_eq_ok.1 h
    cases hok
    exact .inr ⟨copy, hcopy, rfl, rfl⟩
  | some a =>
    simp only [ha] at h
    obtain ⟨equal, hequal, h⟩ := bind_eq_ok.1 h
    cases equal with
    | true =>
      cases h
      exact .inl ⟨a, rfl, hequal, rfl, rfl⟩
    | false =>
      obtain ⟨copy, hcopy, hok⟩ := bind_eq_ok.1 h
      cases hok
      exact .inr ⟨copy, hcopy, rfl, rfl⟩

/-- The attribute that a call writes. -/
def Write.attribute : Write ω → Option (ω × CkAttribute)
  | .writeValue object attr => some (object, attr)
  | .setAttribute object attr => some (object, attr)
  | _ => none

/-- The secret that a call writes. -/
def Write.secret : Write ω → Option (CString × GkmSecret)
  | .setTransacted identifier secret => some (identifier, secret)
  | _ => none

section

variable {op : Write ω} {s s' : Memory ω × GkmTransaction (MemoryComplete ω)} (h : op.run s = .ok s')

include h

/-- A call of a transaction that has failed already changes nothing. -/
theorem Write.run_of_failed (hf : s.2.failed = true) : s' = s := by
  cases op with
  | setTransacted identifier secret => simpa [Write.run, gkmSecretDataSetTransacted, hf] using h.symm
  | writeValue object attr => simpa [Write.run, gkmStoreWriteValue, hf] using h.symm
  | setAttribute object attr => simpa [Write.run, gkmStoreSetAttribute, hf] using h.symm
  | fail result => simpa [Write.run, gkmTransactionFail_of_failed hf] using h.symm

/-- What a call of a transaction does that has not failed: it fails the transaction, or has no
effect, or puts a secret or an attribute into its table. -/
theorem Write.run_cases (hf : s.2.failed = false) (hc : s.2.completed = false) :
    (s'.1 = s.1 ∧ s'.2.failed = true ∧ s'.2.completes = s.2.completes ∧ s'.2.completed = false) ∨
    (op = .fail ckrOk ∧ s' = s) ∨
    (∃ identifier secret, op = .setTransacted identifier secret ∧
      s' = ({ s.1 with data := (beginSetSecret .setSecret s.1.data s.2 identifier secret).1 },
        (beginSetSecret .setSecret s.1.data s.2 identifier secret).2)) ∨
    (∃ object attr a, op.attribute = some (object, attr) ∧
      s.1.store.find? object attr.type = some a ∧ gkmAttributeEqual a attr = .ok true ∧
      s' = ({ s.1 with store := s.1.store.ensure object }, s.2)) ∨
    (∃ object attr copy, op.attribute = some (object, attr) ∧ attributeDup attr = .ok copy ∧
      s' = ({ s.1 with store := (s.1.store.ensure object).put object attr.type (some copy) },
        gkmTransactionAdd s.2
          (.set ⟨object, attr.type, s.1.store.find? object attr.type⟩))) := by
  have hfail : ∀ r, r ≠ ckrOk → (gkmTransactionFail s.2 r).failed = true ∧
      (gkmTransactionFail s.2 r).completes = s.2.completes ∧
      (gkmTransactionFail s.2 r).completed = false := fun r hr =>
    ⟨gkmTransactionFail_failed hc hr, gkmTransactionFail_completes _ _, by simpa using hc⟩
  -- A write that passed the checks of the store.
  have hwrite : ∀ object attr store t, op.attribute = some (object, attr) →
      gkmMemoryStoreRealWriteValue .set s.1.store s.2 object attr = .ok (store, t) →
      s' = ({ s.1 with store }, t) →
      (∃ object attr a, op.attribute = some (object, attr) ∧
        s.1.store.find? object attr.type = some a ∧ gkmAttributeEqual a attr = .ok true ∧
        s' = ({ s.1 with store := s.1.store.ensure object }, s.2)) ∨
      (∃ object attr copy, op.attribute = some (object, attr) ∧ attributeDup attr = .ok copy ∧
        s' = ({ s.1 with store := (s.1.store.ensure object).put object attr.type (some copy) },
          gkmTransactionAdd s.2
            (.set ⟨object, attr.type, s.1.store.find? object attr.type⟩))) := by
    intro object attr store t hop hw hs'
    rcases gkmMemoryStoreRealWriteValue_cases hw hf with ⟨a, ha, heq, rfl, rfl⟩ | ⟨copy, hcopy, rfl, rfl⟩
    · exact .inl ⟨object, attr, a, hop, ha, heq, hs'⟩
    · exact .inr ⟨object, attr, copy, hop, hcopy, hs'⟩
  cases op with
  | setTransacted identifier secret =>
    refine .inr (.inr (.inl ⟨identifier, secret, rfl, ?_⟩))
    simpa [Write.run, gkmSecretDataSetTransacted, hf] using h.symm
  | writeValue object attr =>
    obtain ⟨⟨store, t⟩, hw, hok⟩ := bind_eq_ok.1 h
    simp only [gkmStoreWriteValue, hf, Bool.false_eq_true, if_false] at hw
    cases hschema : s.1.store.schemas attr.type with
    | none =>
      simp only [hschema, Except.ok.injEq, Prod.mk.injEq] at hw
      obtain ⟨rfl, rfl⟩ := hw
      cases hok
      exact .inl ⟨rfl, hfail _ (by decide)⟩
    | some schema =>
      simp only [hschema] at hw
      cases hok
      exact .inr (.inr (.inr (hwrite object attr store t rfl hw rfl)))
  | setAttribute object attr =>
    obtain ⟨⟨store, t⟩, hw, hok⟩ := bind_eq_ok.1 h
    simp only [gkmStoreSetAttribute, hf, Bool.false_eq_true, if_false] at hw
    by_cases hr : setAttributeRv s.1.store object attr = ckrOk
    · rw [if_neg (not_not_intro hr)] at hw
      cases hok
      exact .inr (.inr (.inr (hwrite object attr store t rfl hw rfl)))
    · rw [if_pos hr] at hw
      cases hw
      cases hok
      exact .inl ⟨rfl, hfail _ hr⟩
  | fail result =>
    cases h
    by_cases hr : result = ckrOk
    · subst hr
      exact .inr (.inl ⟨rfl, by simp [gkmTransactionFail]⟩)
    · exact .inl ⟨rfl, hfail result hr⟩

end

/-! ## Failure -/

theorem sameTables_ensure (m : Memory ω) (object : ω) :
    SameTables { m with store := m.store.ensure object } m :=
  ⟨fun _ => rfl, rfl, fun o t => find?_ensure m.store object o t⟩

/-- What a call adds to the transaction undoes what it changed. -/
theorem Write.run_undoes {op : Write ω} {s s' : Memory ω × GkmTransaction (MemoryComplete ω)}
    (h : op.run s = .ok s') (hc : s.2.completed = false) :
    s'.2.completed = false ∧
      ∃ log, s'.2.completes = log ++ s.2.completes ∧ memoryLog.Undoes s.1 log s'.1 := by
  cases hf : s.2.failed with
  | true =>
    rw [Write.run_of_failed h hf]
    exact ⟨hc, [], rfl, UndoLog.Undoes.refl _ _⟩
  | false =>
    rcases Write.run_cases h hf hc with ⟨hm, -, hlog, hc'⟩ | ⟨-, rfl⟩ |
      ⟨identifier, secret, -, rfl⟩ | ⟨object, attr, a, -, -, -, rfl⟩ |
      ⟨object, attr, copy, -, -, rfl⟩
    · rw [hm]
      exact ⟨hc', [], hlog, UndoLog.Undoes.refl _ _⟩
    · exact ⟨hc, [], rfl, UndoLog.Undoes.refl _ _⟩
    · refine ⟨hc, [_], rfl, UndoLog.Undoes.single ⟨fun i => ?_, ?_, fun _ _ => rfl⟩⟩
      · cases ho : gkmSecretDataGetSecret s.1.data identifier with
        | none =>
          by_cases hi : i = identifier
          · simp [memoryLog, MemoryComplete.invoke, completeSetSecret, beginSetSecret, ho, hi]
          · simp [memoryLog, MemoryComplete.invoke, completeSetSecret, beginSetSecret, ho, hi]
        | some old =>
          by_cases hi : i = identifier
          · simp [memoryLog, MemoryComplete.invoke, completeSetSecret, beginSetSecret, ho, hi]
          · simp [memoryLog, MemoryComplete.invoke, completeSetSecret, beginSetSecret, ho, hi]
      · cases ho : gkmSecretDataGetSecret s.1.data identifier with
        | none =>
          simp [memoryLog, MemoryComplete.invoke, completeSetSecret, beginSetSecret, ho,
            gkmSecretDataSetSecret, gkmSecretDataRemoveSecret]
        | some old =>
          simp [memoryLog, MemoryComplete.invoke, completeSetSecret, beginSetSecret, ho,
            gkmSecretDataSetSecret, gkmSecretDataRemoveSecret]
    · exact ⟨hc, [], rfl, UndoLog.Undoes.of_same (sameTables_ensure s.1 object)⟩
    · refine ⟨hc, [_], rfl, UndoLog.Undoes.single ⟨fun _ => rfl, rfl, fun o t => ?_⟩⟩
      by_cases ho : o = object ∧ t = attr.type
      · obtain ⟨rfl, rfl⟩ := ho
        simp [memoryLog, MemoryComplete.invoke, completeSet]
      · simp [memoryLog, MemoryComplete.invoke, completeSet, ho]

variable {ops : List (Write ω)}

theorem runWrites_undoes {s s' : Memory ω × GkmTransaction (MemoryComplete ω)}
    (h : runWrites ops s = .ok s') (hc : s.2.completed = false) :
    s'.2.completed = false ∧
      ∃ log, s'.2.completes = log ++ s.2.completes ∧ memoryLog.Undoes s.1 log s'.1 := by
  induction ops generalizing s with
  | nil =>
    cases h
    exact ⟨hc, [], rfl, UndoLog.Undoes.refl _ _⟩
  | cons op ops ih =>
    obtain ⟨s₁, h₁, h⟩ := bind_eq_ok.1 h
    obtain ⟨hc₁, log₁, hlog₁, hundo₁⟩ := Write.run_undoes h₁ hc
    obtain ⟨hc', log, hlog, hundo⟩ := ih h hc₁
    refine ⟨hc', log ++ log₁, ?_, hundo₁.trans hundo⟩
    rw [hlog, hlog₁, append_assoc]

/-! ## Success -/

/-- The last secret that a sequence of calls writes for an identifier. -/
def lastSecret (ops : List (Write ω)) (identifier : CString) : Option GkmSecret :=
  ops.reverse.findSome? fun op =>
    op.secret.bind fun w => if w.1 = identifier then some w.2 else none

/-- The last value that a sequence of calls writes for an attribute of an object. -/
def lastValue (ops : List (Write ω)) (object : ω) (type : Nat) : Option Bytes :=
  ops.reverse.findSome? fun op =>
    op.attribute.bind fun w =>
      if w.1 = object ∧ w.2.type = type then some (attributeValue w.2) else none

omit [DecidableEq ω] in
theorem lastSecret_cons (op : Write ω) (ops : List (Write ω)) (identifier : CString) :
    lastSecret (op :: ops) identifier = (lastSecret ops identifier).or (lastSecret [op] identifier) := by
  simp [lastSecret, findSome?_append]

theorem lastValue_cons (op : Write ω) (ops : List (Write ω)) (object : ω) (type : Nat) :
    lastValue (op :: ops) object type = (lastValue ops object type).or (lastValue [op] object type) := by
  simp [lastValue, findSome?_append]

/-- Every attribute of the store is under its type and is as long as it says. -/
def SoundStore (m : Memory ω) : Prop :=
  ∀ object type a, m.store.find? object type = some a → a.type = type ∧ Holds a

/-- What a call writes is as long as it says, and shorter than four gigabytes. -/
def Write.Copyable (op : Write ω) : Prop :=
  ∀ object attr, op.attribute = some (object, attr) → Holds attr ∧ attr.ulValueLen < 2 ^ 32

theorem gkmMemoryStoreRealWriteValue_ok (hm : SoundStore m)
    (ha : Holds attr) (hlen : attr.ulValueLen < 2 ^ 32) (record : Revert ω → κ)
    (t : GkmTransaction κ) (object : ω) :
    ∃ r, gkmMemoryStoreRealWriteValue record m.store t object attr = .ok r := by
  unfold gkmMemoryStoreRealWriteValue
  obtain ⟨copy, hcopy, -⟩ := attributeDup_eq ha hlen
  cases hf : t.failed with
  | true => exact ⟨_, rfl⟩
  | false =>
    simp only [Bool.false_eq_true, if_false, find?_ensure, hcopy, ok_bind]
    cases hold : m.store.find? object attr.type with
    | none => exact ⟨_, rfl⟩
    | some a =>
      simp only [gkmAttributeEqual_eq (hm _ _ _ hold).2 ha, ok_bind]
      split
      · exact ⟨_, rfl⟩
      · exact ⟨_, rfl⟩

theorem Write.run_ok {op : Write ω} {s : Memory ω × GkmTransaction (MemoryComplete ω)}
    (hm : SoundStore s.1) (hop : op.Copyable) : ∃ s', op.run s = .ok s' := by
  cases op with
  | setTransacted identifier secret => exact ⟨_, rfl⟩
  | writeValue object attr =>
    obtain ⟨ha, hlen⟩ := hop object attr rfl
    obtain ⟨r, hr⟩ := gkmMemoryStoreRealWriteValue_ok hm ha hlen .set s.2 object
    unfold Write.run gkmStoreWriteValue
    simp only [hr]
    split
    · exact ⟨_, rfl⟩
    · split
      · exact ⟨_, rfl⟩
      · exact ⟨_, rfl⟩
  | setAttribute object attr =>
    obtain ⟨ha, hlen⟩ := hop object attr rfl
    obtain ⟨r, hr⟩ := gkmMemoryStoreRealWriteValue_ok hm ha hlen .set s.2 object
    unfold Write.run gkmStoreSetAttribute
    simp only [hr]
    split
    · exact ⟨_, rfl⟩
    · split
      · exact ⟨_, rfl⟩
      · exact ⟨_, rfl⟩
  | fail result => exact ⟨_, rfl⟩

/-- The tables after a call that did not fail the transaction. -/
structure Wrote (op : Write ω) (m m' : Memory ω) : Prop where
  secrets : ∀ i, gkmSecretDataGetSecret m'.data i =
    (lastSecret [op] i).or (gkmSecretDataGetSecret m.data i)
  values : ∀ o t, (m'.store.find? o t).map attributeValue =
    (lastValue [op] o t).or ((m.store.find? o t).map attributeValue)

omit [DecidableEq ω] in
theorem lastSecret_of_attribute {op : Write ω} {w : ω × CkAttribute} (h : op.attribute = some w)
    (i : CString) : lastSecret [op] i = none := by
  cases op with
  | setTransacted identifier secret => cases h
  | writeValue object attr => rfl
  | setAttribute object attr => rfl
  | fail result => cases h

theorem Write.run_sound {op : Write ω} {s s' : Memory ω × GkmTransaction (MemoryComplete ω)}
    (h : op.run s = .ok s') (hc : s.2.completed = false) (hm : SoundStore s.1)
    (hop : op.Copyable) :
    SoundStore s'.1 ∧ (s'.2.failed = false → s.2.failed = false ∧ Wrote op s.1 s'.1) := by
  cases hf : s.2.failed with
  | true =>
    rw [Write.run_of_failed h hf]
    exact ⟨hm, fun hf' => by rw [hf] at hf'; cases hf'⟩
  | false =>
    rcases Write.run_cases h hf hc with ⟨hs, hf', -, -⟩ | ⟨rfl, rfl⟩ |
      ⟨identifier, secret, rfl, rfl⟩ | ⟨object, attr, a, hw, ha, heq, rfl⟩ |
      ⟨object, attr, copy, hw, hcopy, rfl⟩
    · rw [hs]
      exact ⟨hm, fun hn => by rw [hf'] at hn; cases hn⟩
    · exact ⟨hm, fun _ => ⟨rfl, fun _ => rfl, fun _ _ => rfl⟩⟩
    · refine ⟨hm, fun _ => ⟨rfl, fun i => ?_, fun _ _ => rfl⟩⟩
      by_cases hi : i = identifier
      · simp [beginSetSecret, lastSecret, Write.secret, hi]
      · simp [beginSetSecret, lastSecret, Write.secret, hi, Ne.symm hi]
    · -- The attribute that is there has the bytes of the one that is written.
      obtain ⟨hattr, -⟩ := hop object attr hw
      obtain ⟨htype, hold⟩ := hm _ _ _ ha
      rw [gkmAttributeEqual_eq hold hattr, Except.ok.injEq, decide_eq_true_eq] at heq
      refine ⟨fun o t b hb => hm o t b (by rwa [find?_ensure] at hb), fun _ => ⟨rfl, fun i => ?_,
        fun o t => ?_⟩⟩
      · rw [lastSecret_of_attribute hw]
        rfl
      · rw [find?_ensure]
        by_cases ho : object = o ∧ attr.type = t
        · obtain ⟨rfl, rfl⟩ := ho
          simp [lastValue, hw, ha, heq.2]
        · simp [lastValue, hw, ho]
    · obtain ⟨hattr, hlen⟩ := hop object attr hw
      obtain ⟨copy', hcopy', htype, hholds, hvalue⟩ := attributeDup_eq hattr hlen
      rw [hcopy] at hcopy'
      cases hcopy'
      refine ⟨fun o t b hb => ?_, fun _ => ⟨rfl, fun i => ?_, fun o t => ?_⟩⟩
      · rw [find?_put, find?_ensure] at hb
        split at hb
        · rename_i ho
          cases hb
          exact ⟨htype.trans ho.2.symm, hholds⟩
        · exact hm o t b hb
      · rw [lastSecret_of_attribute hw]
        rfl
      · rw [find?_put, find?_ensure]
        by_cases ho : o = object ∧ t = attr.type
        · obtain ⟨rfl, rfl⟩ := ho
          simp [lastValue, hw, hvalue]
        · have ho' : ¬ (object = o ∧ attr.type = t) := fun h => ho ⟨h.1.symm, h.2.symm⟩
          simp [lastValue, hw, ho, ho']

theorem runWrites_sound {s : Memory ω × GkmTransaction (MemoryComplete ω)}
    (hc : s.2.completed = false) (hm : SoundStore s.1) (hops : ∀ op ∈ ops, op.Copyable) :
    ∃ s', runWrites ops s = .ok s' ∧
      (s'.2.failed = false → s.2.failed = false ∧
        (∀ i, gkmSecretDataGetSecret s'.1.data i =
          (lastSecret ops i).or (gkmSecretDataGetSecret s.1.data i)) ∧
        ∀ o t, (s'.1.store.find? o t).map attributeValue =
          (lastValue ops o t).or ((s.1.store.find? o t).map attributeValue)) := by
  induction ops generalizing s with
  | nil => exact ⟨s, rfl, fun hf => ⟨hf, fun _ => rfl, fun _ _ => rfl⟩⟩
  | cons op ops ih =>
    have hop := hops op mem_cons_self
    obtain ⟨s₁, h₁⟩ := Write.run_ok hm hop
    obtain ⟨hm₁, hwrote⟩ := Write.run_sound h₁ hc hm hop
    obtain ⟨s', hs', hlast⟩ :=
      ih (Write.run_undoes h₁ hc).1 hm₁ fun op' hop' => hops op' (mem_cons_of_mem op hop')
    refine ⟨s', by rw [runWrites, h₁]; exact hs', fun hf' => ?_⟩
    obtain ⟨hf₁, hsecrets, hvalues⟩ := hlast hf'
    obtain ⟨hf, hw⟩ := hwrote hf₁
    refine ⟨hf, fun i => ?_, fun o t => ?_⟩
    · rw [hsecrets, hw.secrets, lastSecret_cons op ops, Option.or_assoc]
    · rw [hvalues, hw.values, lastValue_cons op ops, Option.or_assoc]

theorem MemoryComplete.invoke_false (complete : MemoryComplete ω) (m : Memory ω) :
    complete.invoke false m = m := by
  cases complete with
  | setSecret args => rfl
  | set revert => rfl

/-- A transaction of writes of secrets and attributes, completed: if it failed, every table is what
it was before; if not, every key has the last value written to it, and all others are unchanged. -/
theorem memory_transaction (hm : SoundStore m) (hops : ∀ op ∈ ops, op.Copyable) :
    ∃ s, runWrites ops (m, gkmTransactionNew) = .ok s ∧
      (s.2.failed = true → SameTables (completeMemory s) m) ∧
      (s.2.failed = false →
        (∀ i, gkmSecretDataGetSecret (completeMemory s).data i =
          (lastSecret ops i).or (gkmSecretDataGetSecret m.data i)) ∧
        ∀ o t, ((completeMemory s).store.find? o t).map attributeValue =
          (lastValue ops o t).or ((m.store.find? o t).map attributeValue)) := by
  obtain ⟨s, hs, hlast⟩ := runWrites_sound (s := (m, gkmTransactionNew)) rfl hm hops
  obtain ⟨hc, log, hlog, hundo⟩ := runWrites_undoes hs rfl
  refine ⟨s, hs, fun hf => ?_, fun hf => ?_⟩
  · have hcompletes : s.2.completes = log := by simpa [gkmTransactionNew] using hlog
    rw [completeMemory, gkmTransactionComplete_state hc, hf, hcompletes]
    exact hundo
  · rw [completeMemory, gkmTransactionComplete_state hc, hf,
      unwind_of_fixed fun k _ => k.invoke_false s.1]
    exact (hlast hf).2

/-- A store that keeps labels (`CKA_LABEL`), and nothing in it yet. -/
def labelMemory : Memory Nat where
  data := { secrets := ∅, master := none }
  store :=
    { schemas := fun type => if type = 3 then some { isInternal := false, validator := none } else none
      entries := ∅ }

theorem labelMemory_sound : SoundStore labelMemory := by
  intro object type a h
  cases h

/-- A label, written twice. -/
def labelWrites : List (Write Nat) :=
  [.setAttribute 0 ⟨3, some [65], 1⟩, .writeValue 0 ⟨3, some [66], 1⟩]

theorem labelWrites_copyable : ∀ op ∈ labelWrites, op.Copyable := by
  intro op hop object attr hattr
  rcases mem_cons.1 hop with rfl | hop
  · cases hattr
    exact ⟨rfl, by decide⟩
  · obtain rfl := mem_singleton.1 hop
    cases hattr
    exact ⟨rfl, by decide⟩

theorem memory_transaction_sample :
    ∃ s, runWrites labelWrites (labelMemory, gkmTransactionNew) = .ok s ∧ s.2.failed = false ∧
      ((completeMemory s).store.find? 0 3).map attributeValue = some [66] := by
  obtain ⟨s, hs, -, hsuccess⟩ := memory_transaction labelMemory_sound labelWrites_copyable
  have hf : s.2.failed = false := by
    cases hs
    rfl
  exact ⟨s, hs, hf, (hsuccess hf).2 0 3⟩

theorem runWrites_label {copy : CkAttribute} (htype : attr.type = 3)
    (hdup : attributeDup attr = .ok copy) :
    ∃ s, runWrites [.setAttribute 0 attr] (labelMemory, gkmTransactionNew) = .ok s ∧
      s.2.failed = false ∧ (completeMemory s).store.find? 0 3 = some copy := by
  have hrv : setAttributeRv labelMemory.store 0 attr = ckrOk := by
    simp [setAttributeRv, labelMemory, htype]
  have hnone : labelMemory.store.find? 0 3 = none := rfl
  simp only [runWrites, Write.run, gkmStoreSetAttribute, gkmMemoryStoreRealWriteValue, hrv,
    find?_ensure, htype, hnone, hdup, gkmTransactionNew]
  exact ⟨_, rfl, rfl, rfl⟩

/-- A label of four gigabytes: `g_memdup` is asked for zero bytes, and nothing is kept of it. -/
theorem memory_transaction_truncates :
    ∃ s, runWrites [.setAttribute 0 ⟨3, some (replicate (2 ^ 32) 65), 2 ^ 32⟩]
        (labelMemory, gkmTransactionNew) = .ok s ∧ s.2.failed = false ∧
      ((completeMemory s).store.find? 0 3).map attributeValue ≠
        some (replicate (2 ^ 32) 65) := by
  have hdup : attributeDup ⟨3, some (replicate (2 ^ 32) 65), 2 ^ 32⟩ = .ok ⟨3, none, 2 ^ 32⟩ := by
    simp only [attributeDup, gMemdup, Nat.mod_self, if_true, ok_bind, pure_eq_ok]
  obtain ⟨s, hs, hf, hfind⟩ := runWrites_label rfl hdup
  refine ⟨s, hs, hf, fun h => ?_⟩
  rw [hfind, Option.map_some, Option.some.injEq] at h
  have hlen := congrArg List.length h
  rw [length_replicate] at hlen
  exact absurd hlen (by decide)

end MateKeyring.Gkm
