import Mathlib.Data.Finset.Erase
import Mathlib.Data.Finset.Insert
import MateKeyring.Gkm.Transaction
import MateKeyring.Secret.Fields

/-!
# Searches that stay up to date

`gkm-secret-search.c`: a search keeps the handles of the items that match it. They are collected when
the search is created; after that the search hears from the managers when an object is added, removed
or has changed. The fields of an item are changed at once (`gkm_secret_item_set_fields`), or as part of
a transaction, and then the change is announced when the transaction commits.

An object is known by its handle, which the first manager it is added to gives it. `settled` is what
the fields of an item are when nothing is pending: the fields before an open transaction changed them.
The handles are exactly those of the exposed items whose settled fields match (`live_search_exact`).
-/

set_option autoImplicit false

namespace MateKeyring.Secret.Search

open Function (update update_eq_self update_idem update_of_ne update_self)
open Lib Egg List
open Gkm (GkmTransaction gkmTransactionNew gkmTransactionAdd gkmTransactionFail gkmTransactionComplete)
open Rpc (CkRv)

variable {handle : Nat}

/-! ## Objects and managers -/

/-- An object, as far as a search looks at it. The objects of the class `CKO_SECRET_KEY` are those
that a new search asks for; items are among them. -/
structure GkmObject where
  manager : Nat
  isSecretItem : Bool
  secretKey : Bool
  collection : CString
  fields : Option Fields
  secretKey_of_item : isSecretItem = true → secretKey = true

/-- The objects of a manager, by handle. -/
structure GkmManager where
  objects : List Nat
  nodup : objects.Nodup

/-- The manager with one more object. -/
def GkmManager.insert (m : GkmManager) (handle : Nat) (h : handle ∉ m.objects) : GkmManager :=
  { objects := handle :: m.objects, nodup := nodup_cons.2 ⟨h, m.nodup⟩ }

/-- The manager with one object less. -/
def GkmManager.erase (m : GkmManager) (handle : Nat) : GkmManager :=
  { objects := m.objects.erase handle, nodup := m.nodup.erase handle }

theorem GkmManager.mem_insert {m : GkmManager} (h : handle ∉ m.objects) {k : Nat} :
    k ∈ (m.insert handle h).objects ↔ k = handle ∨ k ∈ m.objects := mem_cons

theorem GkmManager.mem_erase {m : GkmManager} {handle k : Nat} :
    k ∈ (m.erase handle).objects ↔ k ≠ handle ∧ k ∈ m.objects := m.nodup.mem_erase_iff

/-- `GkmSecretSearch`. -/
structure GkmSecretSearch where
  collectionId : Option CString
  fields : Fields
  managers : List Nat
  handles : Finset Nat

/-- What is to be done when the transaction completes. -/
inductive Complete where
  /-- `complete_set_fields`, with the old fields -/
  | setFields (handle : Nat) (oldFields : Option Fields)
  /-- `complete_expose` -/
  | expose (handle : Nat) (expose : Bool)

/-- The objects, the managers, the transaction of the call that is being made, and the search. -/
structure State where
  object : Nat → GkmObject
  manager : Nat → GkmManager
  transaction : GkmTransaction Complete
  search : GkmSecretSearch

/-- `pv->exposed`: whether the object is with its manager. -/
def State.exposed (s : State) (handle : Nat) : Prop :=
  handle ∈ (s.manager (s.object handle).manager).objects

instance (s : State) (handle : Nat) : Decidable (s.exposed handle) :=
  inferInstanceAs (Decidable (_ ∈ _))

/-- Whether the search hears from the manager of the object. -/
def State.watched (s : State) (handle : Nat) : Prop :=
  (s.object handle).manager ∈ s.search.managers

instance (s : State) (handle : Nat) : Decidable (s.watched handle) :=
  inferInstanceAs (Decidable (_ ∈ _))

section

variable (md5 : Md5)

/-! ## The search -/

/-- `gkm_secret_fields_match`; the fields of a search are parsed, so that none of them is null. -/
def fieldsMatch (haystack needle : Fields) : Bool :=
  match gkmSecretFieldsMatch md5 haystack needle with
  | .ok matched => matched
  | .error _ => false

/-- `match_object_against_criteria`. An item without a table of fields is given an empty one. -/
def matchObjectAgainstCriteria (self : GkmSecretSearch) (object : GkmObject) : Bool :=
  object.isSecretItem &&
    (match self.collectionId with
      | none => true
      | some identifier => object.collection == identifier) &&
    fieldsMatch md5 (object.fields.getD ∅) self.fields

/-- The search with other handles. -/
def GkmSecretSearch.withHandles (self : GkmSecretSearch) (handles : Finset Nat) : GkmSecretSearch :=
  { self with handles }

/-- `on_manager_added_object`. -/
def onManagerAddedObject (self : GkmSecretSearch) (handle : Nat) (object : GkmObject) :
    GkmSecretSearch :=
  if handle ∈ self.handles then self
  else if matchObjectAgainstCriteria md5 self object then
    self.withHandles (insert handle self.handles)
  else self

/-- `on_manager_removed_object`. -/
def onManagerRemovedObject (self : GkmSecretSearch) (handle : Nat) : GkmSecretSearch :=
  if handle ∈ self.handles then self.withHandles (self.handles.erase handle) else self

/-- `on_manager_changed_object`, for `CKA_G_FIELDS`; other attributes are passed over. -/
def onManagerChangedObject (self : GkmSecretSearch) (handle : Nat) (object : GkmObject) :
    GkmSecretSearch :=
  if matchObjectAgainstCriteria md5 self object then
    if handle ∈ self.handles then self else self.withHandles (insert handle self.handles)
  else if handle ∈ self.handles then self.withHandles (self.handles.erase handle) else self

/-- `populate_search_from_manager`, with `gkm_manager_find_by_class`. -/
def populateSearchFromManager (s : State) (manager : Nat) : State :=
  let found := (s.manager manager).objects.filter fun handle => (s.object handle).secretKey
  let search := { s.search with managers := s.search.managers ++ [manager] }
  { s with
    search := found.foldl (fun search handle => onManagerAddedObject md5 search handle (s.object handle))
      search }

/-- `factory_create_search`, after the template was parsed. -/
def factoryCreateSearch (s : State) (collectionId : Option CString) (fields : Fields)
    (sManager mManager : Nat) : State :=
  let s := { s with search := { collectionId, fields, managers := [], handles := ∅ } }
  populateSearchFromManager md5 (populateSearchFromManager md5 s sManager) mManager

/-! ## Operations on items -/

/-- `_gkm_manager_register_object`, for an object that is not there: the search is told when it
watches the manager. -/
def gkmManagerRegisterObject (s : State) (handle : Nat)
    (h : handle ∉ (s.manager (s.object handle).manager).objects) : State :=
  let manager := (s.object handle).manager
  { s with
    manager := update s.manager manager ((s.manager manager).insert handle h)
    search := if s.watched handle then onManagerAddedObject md5 s.search handle (s.object handle)
      else s.search }

/-- `_gkm_manager_unregister_object`. -/
def gkmManagerUnregisterObject (s : State) (handle : Nat) : State :=
  let manager := (s.object handle).manager
  { s with
    manager := update s.manager manager ((s.manager manager).erase handle)
    search := if s.watched handle then onManagerRemovedObject s.search handle else s.search }

/-- `gkm_object_expose`. -/
def gkmObjectExpose (s : State) (handle : Nat) (expose : Bool) : State :=
  if h : handle ∈ (s.manager (s.object handle).manager).objects then
    if expose then s else gkmManagerUnregisterObject s handle
  else if expose then gkmManagerRegisterObject md5 s handle h
  else s

/-- `gkm_object_expose_full`. -/
def gkmObjectExposeFull (s : State) (handle : Nat) (transacted expose : Bool) : State :=
  if transacted ∧ s.transaction.failed then s
  else if s.exposed handle ↔ expose then s
  else
    let transaction :=
      if transacted then gkmTransactionAdd s.transaction (.expose handle expose) else s.transaction
    gkmObjectExpose md5 { s with transaction } handle expose

/-- The state with other fields of an item. -/
def State.withFields (s : State) (handle : Nat) (fields : Option Fields) : State :=
  { s with object := update s.object handle { s.object handle with fields } }

/-- `gkm_object_notify_attribute (…, CKA_G_FIELDS)`: the manager of an exposed object listens. -/
def notifyFields (s : State) (handle : Nat) : State :=
  if s.exposed handle ∧ s.watched handle then
    { s with search := onManagerChangedObject md5 s.search handle (s.object handle) }
  else s

/-- `gkm_secret_item_set_fields`. -/
def gkmSecretItemSetFields (s : State) (handle : Nat) (fields : Option Fields) : State :=
  if (s.object handle).isSecretItem then notifyFields md5 (s.withFields handle fields) handle else s

/-- `begin_set_fields`, which is not called once the transaction has failed. -/
def beginSetFields (s : State) (handle : Nat) (fields : Fields) : State :=
  if (s.object handle).isSecretItem ∧ s.transaction.failed = false then
    { s.withFields handle (some fields) with
      transaction := gkmTransactionAdd s.transaction (.setFields handle (s.object handle).fields) }
  else s

/-- `complete_set_fields` and `complete_expose`. -/
def invokeComplete (failed : Bool) : Complete → State → State
  | .setFields handle oldFields, s =>
    if failed then s.withFields handle oldFields else notifyFields md5 s handle
  | .expose handle expose, s => if failed then gkmObjectExpose md5 s handle !expose else s

/-- What can happen. -/
inductive Event where
  | expose (handle : Nat) (transacted expose : Bool)
  | setFields (handle : Nat) (fields : Option Fields)
  | beginSetFields (handle : Nat) (fields : Fields)
  | fail (result : CkRv)
  | complete

/-- What happens. The next call has a transaction of its own. -/
def State.step (s : State) : Event → State
  | .expose handle transacted expose => gkmObjectExposeFull md5 s handle transacted expose
  | .setFields handle fields => gkmSecretItemSetFields md5 s handle fields
  | .beginSetFields handle fields => beginSetFields s handle fields
  | .fail result => { s with transaction := gkmTransactionFail s.transaction result }
  | .complete =>
    { (gkmTransactionComplete (invokeComplete md5) s.transaction s).2 with
      transaction := gkmTransactionNew }

/-! ## What the handlers do to the handles -/

/-- A handler only changes the handles. -/
def SameCriteria (a b : GkmSecretSearch) : Prop :=
  a.collectionId = b.collectionId ∧ a.fields = b.fields ∧ a.managers = b.managers

theorem SameCriteria.match {a b : GkmSecretSearch} (h : SameCriteria a b) (object : GkmObject) :
    matchObjectAgainstCriteria md5 a object = matchObjectAgainstCriteria md5 b object := by
  simp only [matchObjectAgainstCriteria, h.1, h.2.1]

theorem onManagerAddedObject_spec (self : GkmSecretSearch) (handle : Nat) (object : GkmObject) :
    SameCriteria (onManagerAddedObject md5 self handle object) self ∧
      ∀ k, k ∈ (onManagerAddedObject md5 self handle object).handles ↔
        k ∈ self.handles ∨ k = handle ∧ matchObjectAgainstCriteria md5 self object = true := by
  unfold onManagerAddedObject
  split
  · rename_i hmem
    refine ⟨⟨rfl, rfl, rfl⟩, fun k => ⟨.inl, ?_⟩⟩
    rintro (h | ⟨rfl, -⟩)
    · exact h
    · exact hmem
  · split
    · rename_i hmatch
      refine ⟨⟨rfl, rfl, rfl⟩, fun k => ?_⟩
      rw [GkmSecretSearch.withHandles, Finset.mem_insert, or_comm]
      simp only [hmatch, and_true]
    · rename_i hmatch
      exact ⟨⟨rfl, rfl, rfl⟩, fun k => ⟨.inl, fun h => h.resolve_right fun hk => hmatch hk.2⟩⟩

theorem onManagerRemovedObject_spec (self : GkmSecretSearch) (handle : Nat) :
    SameCriteria (onManagerRemovedObject self handle) self ∧
      ∀ k, k ∈ (onManagerRemovedObject self handle).handles ↔ k ≠ handle ∧ k ∈ self.handles := by
  unfold onManagerRemovedObject
  split
  · exact ⟨⟨rfl, rfl, rfl⟩, fun k => Finset.mem_erase⟩
  · rename_i hmem
    exact ⟨⟨rfl, rfl, rfl⟩, fun k => ⟨fun h => ⟨fun hk => hmem (hk ▸ h), h⟩, And.right⟩⟩

theorem onManagerChangedObject_spec (self : GkmSecretSearch) (handle : Nat) (object : GkmObject) :
    SameCriteria (onManagerChangedObject md5 self handle object) self ∧
      ∀ k, k ∈ (onManagerChangedObject md5 self handle object).handles ↔
        k ≠ handle ∧ k ∈ self.handles ∨
          k = handle ∧ matchObjectAgainstCriteria md5 self object = true := by
  unfold onManagerChangedObject
  split
  · rename_i hmatch
    split
    · rename_i hmem
      refine ⟨⟨rfl, rfl, rfl⟩, fun k => ?_⟩
      by_cases hk : k = handle
      · simp [hk, hmem, hmatch]
      · simp [hk]
    · refine ⟨⟨rfl, rfl, rfl⟩, fun k => ?_⟩
      rw [GkmSecretSearch.withHandles, Finset.mem_insert]
      by_cases hk : k = handle
      · simp [hk, hmatch]
      · simp [hk]
  · rename_i hmatch
    split
    · refine ⟨⟨rfl, rfl, rfl⟩, fun k => ?_⟩
      rw [GkmSecretSearch.withHandles, Finset.mem_erase]
      simp [hmatch]
    · rename_i hmem
      refine ⟨⟨rfl, rfl, rfl⟩, fun k => ?_⟩
      by_cases hk : k = handle
      · simp [hk, hmem, hmatch]
      · simp [hk]

variable {md5}

/-! ## Settled fields -/

/-- A change of the fields of this item waits for the transaction to complete. -/
def Pending (completes : List Complete) (handle : Nat) : Prop :=
  ∃ oldFields, Complete.setFields handle oldFields ∈ completes

/-- The fields of an item without the changes that are pending. -/
def settled : List Complete → Nat → Option Fields → Option Fields
  | [], _, fields => fields
  | .setFields k oldFields :: completes, handle, fields =>
    settled completes handle (if k = handle then oldFields else fields)
  | .expose _ _ :: completes, handle, fields => settled completes handle fields

/-- The object with its settled fields. -/
def State.settled (s : State) (completes : List Complete) (handle : Nat) : GkmObject :=
  { s.object handle with fields := Search.settled completes handle (s.object handle).fields }

variable {completes : List Complete}

theorem settled_of_not_pending (h : ¬ Pending completes handle) (fields : Option Fields) :
    settled completes handle fields = fields := by
  induction completes generalizing fields with
  | nil => rfl
  | cons c completes ih =>
    have hrest : ¬ Pending completes handle := fun ⟨old, hold⟩ =>
      h ⟨old, mem_cons_of_mem _ hold⟩
    cases c with
    | setFields k old =>
      have hk : k ≠ handle := by
        rintro rfl
        exact h ⟨old, mem_cons_self⟩
      rw [settled, if_neg hk]
      exact ih hrest fields
    | expose k b => exact ih hrest fields

theorem State.settled_of_not_pending (s : State) (h : ¬ Pending completes handle) :
    s.settled completes handle = s.object handle := by
  rw [State.settled, Search.settled_of_not_pending h]

/-- The handles are those of the exposed items of the watched managers whose settled fields match. -/
def Exact (md5 : Md5) (s : State) (completes : List Complete) : Prop :=
  ∀ k, k ∈ s.search.handles ↔ s.exposed k ∧ s.watched k ∧
    matchObjectAgainstCriteria md5 s.search (s.settled completes k) = true

/-- An item was added or removed only while none of its fields was pending. -/
def Ordered : List Complete → Prop
  | [] => True
  | .setFields _ _ :: completes => Ordered completes
  | .expose handle _ :: completes => ¬ Pending completes handle ∧ Ordered completes

/-! ## Objects come and go -/

/-- What is exact stays so when it is so for the one object that changes. -/
theorem Exact.of_handle {s s' : State} {completes completes' : List Complete}
    (hs : Exact md5 s completes) (handle : Nat) (hsame : SameCriteria s'.search s.search)
    (hothers : ∀ k ≠ handle, (k ∈ s'.search.handles ↔ k ∈ s.search.handles) ∧
      (s'.exposed k ↔ s.exposed k) ∧ s'.settled completes' k = s.settled completes k)
    (hhandle : handle ∈ s'.search.handles ↔ s'.exposed handle ∧ s'.watched handle ∧
      matchObjectAgainstCriteria md5 s.search (s'.settled completes' handle) = true) :
    Exact md5 s' completes' := by
  intro k
  rw [hsame.match md5]
  by_cases hk : k = handle
  · rw [hk]
    exact hhandle
  · obtain ⟨hmem, hexposed, hsettled⟩ := hothers k hk
    have hmanager : (s'.settled completes' k).manager = (s.settled completes k).manager :=
      congrArg GkmObject.manager hsettled
    have hwatched : s'.watched k ↔ s.watched k := by
      show (s'.settled completes' k).manager ∈ _ ↔ (s.settled completes k).manager ∈ _
      rw [hmanager, hsame.2.2]
    rw [hmem, hexposed, hwatched, hsettled]
    exact hs k

theorem exposed_unregister (s : State) (handle k : Nat) :
    (gkmManagerUnregisterObject s handle).exposed k ↔ k ≠ handle ∧ s.exposed k := by
  show k ∈ (update s.manager _ _ (s.object k).manager).objects ↔ _ ∧ k ∈ _
  by_cases hm : (s.object k).manager = (s.object handle).manager
  · rw [hm, update_self, GkmManager.mem_erase]
  · rw [update_of_ne hm]
    have hk : k ≠ handle := fun hk => hm (hk ▸ rfl)
    exact (and_iff_right hk).symm

theorem exposed_register (s : State) (handle k : Nat)
    (h : handle ∉ (s.manager (s.object handle).manager).objects) :
    (gkmManagerRegisterObject md5 s handle h).exposed k ↔ k = handle ∨ s.exposed k := by
  show k ∈ (update s.manager _ _ (s.object k).manager).objects ↔ _ ∨ k ∈ _
  by_cases hm : (s.object k).manager = (s.object handle).manager
  · rw [hm, update_self, GkmManager.mem_insert]
  · rw [update_of_ne hm]
    have hk : k ≠ handle := fun hk => hm (hk ▸ rfl)
    exact (or_iff_right hk).symm

variable {s : State}

/-- An object that is taken away is not matched any more. -/
theorem Exact.unregister (hs : Exact md5 s completes) (handle : Nat) :
    Exact md5 (gkmManagerUnregisterObject s handle) completes := by
  obtain ⟨hsame, hhandles⟩ := onManagerRemovedObject_spec s.search handle
  have hgone : ¬ (gkmManagerUnregisterObject s handle).exposed handle := fun h =>
    ((exposed_unregister s handle handle).1 h).1 rfl
  by_cases hw : s.watched handle
  · have hsearch : (gkmManagerUnregisterObject s handle).search =
        onManagerRemovedObject s.search handle := if_pos hw
    refine hs.of_handle handle (hsearch ▸ hsame) (fun k hk => ⟨?_, ?_, rfl⟩) ?_
    · rw [hsearch, hhandles]
      exact and_iff_right hk
    · rw [exposed_unregister]
      exact and_iff_right hk
    · rw [hsearch, hhandles]
      exact iff_of_false (fun h => h.1 rfl) fun h => hgone h.1
  · have hsearch : (gkmManagerUnregisterObject s handle).search = s.search := if_neg hw
    refine hs.of_handle handle (hsearch ▸ ⟨rfl, rfl, rfl⟩) (fun k hk => ⟨by rw [hsearch], ?_, rfl⟩) ?_
    · rw [exposed_unregister]
      exact and_iff_right hk
    · rw [hsearch]
      exact iff_of_false (fun h => hw ((hs handle).1 h).2.1) fun h => hgone h.1

/-- An object that comes while none of its fields is pending is matched by the fields it has. -/
theorem Exact.register (hs : Exact md5 s completes)
    (h : handle ∉ (s.manager (s.object handle).manager).objects) (hpending : ¬ Pending completes handle) :
    Exact md5 (gkmManagerRegisterObject md5 s handle h) completes := by
  obtain ⟨hsame, hhandles⟩ := onManagerAddedObject_spec md5 s.search handle (s.object handle)
  have hnew : handle ∉ s.search.handles := fun hmem => h ((hs handle).1 hmem).1
  have hsettled : (gkmManagerRegisterObject md5 s handle h).settled completes handle =
      s.object handle := s.settled_of_not_pending hpending
  have hexposed : (gkmManagerRegisterObject md5 s handle h).exposed handle :=
    (exposed_register s handle handle h).2 (.inl rfl)
  by_cases hw : s.watched handle
  · have hsearch : (gkmManagerRegisterObject md5 s handle h).search =
        onManagerAddedObject md5 s.search handle (s.object handle) := if_pos hw
    refine hs.of_handle handle (hsearch ▸ hsame) (fun k hk => ⟨?_, ?_, rfl⟩) ?_
    · rw [hsearch, hhandles]
      exact or_iff_left fun hk' => hk hk'.1
    · rw [exposed_register]
      exact or_iff_right hk
    · have hw' : (gkmManagerRegisterObject md5 s handle h).watched handle := by
        rw [State.watched, hsearch, hsame.2.2]
        exact hw
      rw [hsearch, hhandles, hsettled]
      constructor
      · rintro (hmem | ⟨-, hmatch⟩)
        · exact absurd hmem hnew
        · exact ⟨hexposed, hw', hmatch⟩
      · rintro ⟨-, -, hmatch⟩
        exact .inr ⟨rfl, hmatch⟩
  · have hsearch : (gkmManagerRegisterObject md5 s handle h).search = s.search := if_neg hw
    refine hs.of_handle handle (hsearch ▸ ⟨rfl, rfl, rfl⟩) (fun k hk => ⟨by rw [hsearch], ?_, rfl⟩) ?_
    · rw [exposed_register]
      exact or_iff_right hk
    · have hw' : ¬ (gkmManagerRegisterObject md5 s handle h).watched handle := by
        rw [State.watched, hsearch]
        exact hw
      rw [hsearch]
      exact iff_of_false hnew fun h => hw' h.2.1

/-- `gkm_object_expose` of an object without pending fields, or of one that stays where it is. -/
theorem Exact.expose (hs : Exact md5 s completes) (b : Bool)
    (h : b = true → ¬ s.exposed handle → ¬ Pending completes handle) :
    Exact md5 (gkmObjectExpose md5 s handle b) completes := by
  unfold gkmObjectExpose
  split
  · split
    · exact hs
    · exact hs.unregister handle
  · rename_i hmem
    split
    · rename_i hb
      exact hs.register hmem (h hb hmem)
    · exact hs

/-! ## Fields change -/

@[simp] theorem withFields_object_self (s : State) (handle : Nat) (fields : Option Fields) :
    (s.withFields handle fields).object handle = { s.object handle with fields } :=
  update_self ..

theorem withFields_object_of_ne (s : State) {handle k : Nat} (fields : Option Fields) (h : k ≠ handle) :
    (s.withFields handle fields).object k = s.object k := update_of_ne h ..

theorem withFields_manager (s : State) (handle : Nat) (fields : Option Fields) (k : Nat) :
    ((s.withFields handle fields).object k).manager = (s.object k).manager := by
  by_cases hk : k = handle
  · rw [hk, withFields_object_self]
  · rw [withFields_object_of_ne s fields hk]

theorem withFields_exposed (s : State) (handle : Nat) (fields : Option Fields) (k : Nat) :
    (s.withFields handle fields).exposed k ↔ s.exposed k := by
  rw [State.exposed, withFields_manager]
  exact Iff.rfl

theorem withFields_watched (s : State) (handle : Nat) (fields : Option Fields) (k : Nat) :
    (s.withFields handle fields).watched k ↔ s.watched k := by
  rw [State.watched, withFields_manager]
  exact Iff.rfl

/-- The settled fields are the old ones, whatever the fields are. -/
theorem settled_setFields (s : State) (handle : Nat) (oldFields : Option Fields)
    (completes : List Complete) (k : Nat) :
    s.settled (.setFields handle oldFields :: completes) k =
      (s.withFields handle oldFields).settled completes k := by
  by_cases hk : k = handle
  · rw [State.settled, State.settled, hk, withFields_object_self, Search.settled, if_pos rfl]
  · rw [State.settled, State.settled, withFields_object_of_ne s _ hk, Search.settled,
      if_neg (Ne.symm hk)]

theorem withFields_withFields (s : State) (handle : Nat) (fields : Option Fields) :
    (s.withFields handle fields).withFields handle (s.object handle).fields = s := by
  rw [State.withFields, withFields_object_self]
  simp only [State.withFields, update_idem, update_eq_self]

/-- Fields that are set in a transaction leave the settled fields as they are. -/
theorem Exact.beginSetFields (hs : Exact md5 s completes) (handle : Nat) (fields : Option Fields) :
    Exact md5 (s.withFields handle fields)
      (.setFields handle (s.object handle).fields :: completes) := by
  intro k
  rw [withFields_exposed, withFields_watched, settled_setFields, withFields_withFields]
  exact hs k

/-- Going back to the old fields leaves the settled fields as they are. -/
theorem Exact.undoSetFields {oldFields : Option Fields}
    (hs : Exact md5 s (.setFields handle oldFields :: completes)) :
    Exact md5 (s.withFields handle oldFields) completes := by
  intro k
  rw [withFields_exposed, withFields_watched, ← settled_setFields]
  exact hs k

variable (md5) in
/-- What the search knows after the fields of an object were announced. -/
theorem notifyFields_spec (s : State) (handle : Nat) :
    (notifyFields md5 s handle).object = s.object ∧
      (notifyFields md5 s handle).manager = s.manager ∧
      (notifyFields md5 s handle).transaction = s.transaction ∧
      SameCriteria (notifyFields md5 s handle).search s.search ∧
      ∀ k, k ∈ (notifyFields md5 s handle).search.handles ↔
        if k = handle ∧ s.exposed handle ∧ s.watched handle then
          matchObjectAgainstCriteria md5 s.search (s.object handle) = true
        else k ∈ s.search.handles := by
  obtain ⟨hsame, hhandles⟩ := onManagerChangedObject_spec md5 s.search handle (s.object handle)
  unfold notifyFields
  by_cases h : s.exposed handle ∧ s.watched handle
  · rw [if_pos h]
    refine ⟨rfl, rfl, rfl, hsame, fun k => ?_⟩
    rw [hhandles]
    by_cases hk : k = handle
    · simp [hk, h.1, h.2]
    · simp [hk]
  · rw [if_neg h]
    refine ⟨rfl, rfl, rfl, ⟨rfl, rfl, rfl⟩, fun k => ?_⟩
    rw [if_neg fun hk => h hk.2]

/-- Only exposed items of watched managers are among the handles. -/
def Known (s : State) : Prop := ∀ k ∈ s.search.handles, s.exposed k ∧ s.watched k

/-- The handle of one object is among the handles when it should be, by the fields it has. -/
def ExactAt (md5 : Md5) (s : State) (k : Nat) : Prop :=
  k ∈ s.search.handles ↔ s.exposed k ∧ s.watched k ∧
    matchObjectAgainstCriteria md5 s.search (s.object k) = true

theorem Exact.known (hs : Exact md5 s completes) : Known s :=
  fun k hk => ⟨((hs k).1 hk).1, ((hs k).1 hk).2.1⟩

theorem Exact.exactAt (hs : Exact md5 s completes) {k : Nat} (h : ¬ Pending completes k) : ExactAt md5 s k := by
  have hk := hs k
  rw [s.settled_of_not_pending h] at hk
  exact hk

variable (md5) in
/-- An announcement is right for the object it is about, and changes nothing for the others. -/
theorem notifyFields_exactAt (hs : Known s) (handle : Nat) :
    Known (notifyFields md5 s handle) ∧ ExactAt md5 (notifyFields md5 s handle) handle ∧
      ∀ k ≠ handle, ExactAt md5 s k → ExactAt md5 (notifyFields md5 s handle) k := by
  obtain ⟨hobject, hmanager, -, hsame, hhandles⟩ := notifyFields_spec md5 s handle
  have hexposed : ∀ k, (notifyFields md5 s handle).exposed k ↔ s.exposed k := fun k => by
    rw [State.exposed, State.exposed, hobject, hmanager]
  have hwatched : ∀ k, (notifyFields md5 s handle).watched k ↔ s.watched k := fun k => by
    rw [State.watched, State.watched, hobject, hsame.2.2]
  refine ⟨fun k hk => ?_, ?_, fun k hk hexact => ?_⟩
  · rw [hexposed, hwatched]
    rw [hhandles] at hk
    split at hk
    · rename_i h
      rw [h.1]
      exact h.2
    · exact hs k hk
  · rw [ExactAt, hhandles, hexposed, hwatched, hobject, hsame.match md5]
    by_cases h : s.exposed handle ∧ s.watched handle
    · simp [h.1, h.2]
    · rw [if_neg fun hk => h hk.2]
      exact iff_of_false (fun hk => h (hs handle hk)) fun hk => h ⟨hk.1, hk.2.1⟩
  · rw [ExactAt, hhandles, if_neg fun h => hk h.1, hexposed, hwatched, hobject, hsame.match md5]
    exact hexact

/-- Fields that are set at once are announced at once. -/
theorem Exact.setFields (hs : Exact md5 s completes) (hpending : ¬ Pending completes handle)
    (fields : Option Fields) :
    Exact md5 (notifyFields md5 (s.withFields handle fields) handle) completes := by
  have hknown : Known (s.withFields handle fields) := fun k hk => by
    rw [withFields_exposed, withFields_watched]
    exact hs.known k hk
  obtain ⟨hobject, hmanager, -, hsame, hhandles⟩ :=
    notifyFields_spec md5 (s.withFields handle fields) handle
  obtain ⟨-, hexact, -⟩ := notifyFields_exactAt md5 hknown handle
  refine hs.of_handle handle hsame (fun k hk => ⟨?_, ?_, ?_⟩) ?_
  · rw [hhandles, if_neg fun h => hk h.1]
    exact Iff.rfl
  · rw [← withFields_exposed s handle fields k, State.exposed, State.exposed, hobject, hmanager]
  · rw [State.settled, State.settled, hobject, withFields_object_of_ne s fields hk]
  · rw [State.settled_of_not_pending _ hpending]
    rw [ExactAt, hsame.match md5] at hexact
    exact hexact

/-! ## Transactions complete -/

/-- While a transaction commits, everything is right but what is still to be announced. -/
def Announcing (md5 : Md5) (s : State) (completes : List Complete) : Prop :=
  Known s ∧ ∀ k, ¬ Pending completes k → ExactAt md5 s k

theorem Announcing.step {s : State} {c : Complete} {completes : List Complete}
    (hs : Announcing md5 s (c :: completes)) :
    Announcing md5 (invokeComplete md5 false c s) completes := by
  cases c with
  | setFields handle oldFields =>
    obtain ⟨hknown, hexact, hothers⟩ := notifyFields_exactAt md5 hs.1 handle
    refine ⟨hknown, fun k hk => ?_⟩
    by_cases hkh : k = handle
    · rw [hkh]
      exact hexact
    · refine hothers k hkh (hs.2 k ?_)
      rintro ⟨old, hmem⟩
      rcases mem_cons.1 hmem with heq | hmem
      · exact hkh (Complete.setFields.inj heq).1
      · exact hk ⟨old, hmem⟩
  | expose handle b =>
    refine ⟨hs.1, fun k hk => hs.2 k ?_⟩
    rintro ⟨old, hmem⟩
    rcases mem_cons.1 hmem with heq | hmem
    · cases heq
    · exact hk ⟨old, hmem⟩

/-- A transaction that commits announces what it changed. -/
theorem Announcing.commit (hs : Announcing md5 s completes) :
    Exact md5 (unwind (invokeComplete md5 false) completes s) [] := by
  induction completes generalizing s with
  | nil => exact fun k => hs.2 k (by rintro ⟨old, hmem⟩; cases hmem)
  | cons c completes ih => exact ih hs.step

/-- A transaction that failed goes back to the settled fields, silently. -/
theorem Exact.rollback (hs : Exact md5 s completes) (hordered : Ordered completes) :
    Exact md5 (unwind (invokeComplete md5 true) completes s) [] := by
  induction completes generalizing s with
  | nil => exact hs
  | cons c completes ih =>
    cases c with
    | setFields handle oldFields => exact ih hs.undoSetFields hordered
    | expose handle b =>
      have hs' : Exact md5 s completes := hs
      exact ih (hs'.expose _ fun _ _ => hordered.1) hordered.2

/-! ## Runs -/

/-- The fields of an item are not pending when it is added or removed, or given other fields at
once. -/
def Calm (s : State) : Event → Prop
  | .expose handle _ expose =>
    ¬ (s.exposed handle ↔ expose = true) → ¬ Pending s.transaction.completes handle
  | .setFields handle _ => ¬ Pending s.transaction.completes handle
  | _ => True

/-- The invariant of a run. -/
structure Live (md5 : Md5) (s : State) : Prop where
  exact : Exact md5 s s.transaction.completes
  ordered : Ordered s.transaction.completes
  completed : s.transaction.completed = false

variable (md5) in
theorem gkmObjectExpose_transaction (s : State) (handle : Nat) (b : Bool) :
    (gkmObjectExpose md5 s handle b).transaction = s.transaction := by
  unfold gkmObjectExpose
  split
  · split <;> rfl
  · split <;> rfl

theorem Live.expose (hs : Live md5 s) (hpending : ¬ Pending s.transaction.completes handle) (b : Bool) :
    Live md5 (gkmObjectExpose md5 s handle b) := by
  have ht := gkmObjectExpose_transaction md5 s handle b
  refine ⟨?_, ?_, ?_⟩
  · rw [ht]
    exact hs.exact.expose b fun _ _ => hpending
  · rw [ht]
    exact hs.ordered
  · rw [ht]
    exact hs.completed

theorem Live.step {s : State} (hs : Live md5 s) {e : Event} (hcalm : Calm s e) :
    Live md5 (s.step md5 e) := by
  cases e with
  | expose handle transacted expose =>
    show Live md5 (gkmObjectExposeFull md5 s handle transacted expose)
    unfold gkmObjectExposeFull
    split
    · exact hs
    · split
      · exact hs
      · rename_i hchanges
        have hpending := hcalm hchanges
        cases transacted with
        | false => exact hs.expose hpending expose
        | true =>
          -- the record of the exposure changes nothing about the fields
          have hpending' : ¬ Pending (.expose handle expose :: s.transaction.completes) handle := by
            rintro ⟨old, hmem⟩
            rcases mem_cons.1 hmem with heq | hmem
            · cases heq
            · exact hpending ⟨old, hmem⟩
          have hs' : Live md5 { s with
              transaction := gkmTransactionAdd s.transaction (.expose handle expose) } :=
            ⟨hs.exact, ⟨hpending, hs.ordered⟩, hs.completed⟩
          exact hs'.expose hpending' expose
  | setFields handle fields =>
    show Live md5 (gkmSecretItemSetFields md5 s handle fields)
    unfold gkmSecretItemSetFields
    split
    · have ht := (notifyFields_spec md5 (s.withFields handle fields) handle).2.2.1
      refine ⟨?_, ?_, ?_⟩
      · rw [ht]
        exact hs.exact.setFields hcalm fields
      · rw [ht]
        exact hs.ordered
      · rw [ht]
        exact hs.completed
    · exact hs
  | beginSetFields handle fields =>
    show Live md5 (beginSetFields s handle fields)
    unfold beginSetFields
    split
    · exact ⟨hs.exact.beginSetFields handle (some fields), hs.ordered, hs.completed⟩
    · exact hs
  | fail result =>
    refine ⟨?_, ?_, ?_⟩
    · show Exact md5 _ (gkmTransactionFail s.transaction result).completes
      rw [Gkm.gkmTransactionFail_completes]
      exact hs.exact
    · show Ordered (gkmTransactionFail s.transaction result).completes
      rw [Gkm.gkmTransactionFail_completes]
      exact hs.ordered
    · exact (Gkm.gkmTransactionFail_completed ..).trans hs.completed
  | complete =>
    refine ⟨?_, trivial, rfl⟩
    show Exact md5 (gkmTransactionComplete (invokeComplete md5) s.transaction s).2 []
    rw [Gkm.gkmTransactionComplete_state hs.completed]
    cases s.transaction.failed with
    | false => exact Announcing.commit ⟨hs.exact.known, fun k hk => hs.exact.exactAt hk⟩
    | true => exact hs.exact.rollback hs.ordered

/-- The states of a run whose steps are calm. -/
inductive Reached (md5 : Md5) (start : State) : State → Prop
  | start : Reached md5 start start
  | step {s : State} {e : Event} : Reached md5 start s → Calm s e → Reached md5 start (s.step md5 e)

theorem Live.reached {start s : State} (hstart : Live md5 start) (h : Reached md5 start s) :
    Live md5 s := by
  induction h with
  | start => exact hstart
  | step _ hcalm ih => exact ih.step hcalm

/-! ## The start -/

variable (md5) in
/-- The objects that are added to a new search. -/
theorem foldl_added_spec (object : Nat → GkmObject) (found : List Nat) (search : GkmSecretSearch) :
    SameCriteria (found.foldl (fun search handle =>
        onManagerAddedObject md5 search handle (object handle)) search) search ∧
      ∀ k, k ∈ (found.foldl (fun search handle =>
          onManagerAddedObject md5 search handle (object handle)) search).handles ↔
        k ∈ search.handles ∨ k ∈ found ∧ matchObjectAgainstCriteria md5 search (object k) = true := by
  induction found generalizing search with
  | nil => exact ⟨⟨rfl, rfl, rfl⟩, fun k => by simp⟩
  | cons handle found ih =>
    obtain ⟨hsame, hhandles⟩ := onManagerAddedObject_spec md5 search handle (object handle)
    obtain ⟨hsame', hhandles'⟩ := ih (onManagerAddedObject md5 search handle (object handle))
    rw [foldl_cons]
    refine ⟨⟨hsame'.1.trans hsame.1, hsame'.2.1.trans hsame.2.1, hsame'.2.2.trans hsame.2.2⟩,
      fun k => ?_⟩
    rw [hhandles', hhandles, hsame.match md5, mem_cons, or_assoc]
    refine or_congr_right ?_
    constructor
    · rintro (⟨rfl, hmatch⟩ | ⟨hmem, hmatch⟩)
      · exact ⟨.inl rfl, hmatch⟩
      · exact ⟨.inr hmem, hmatch⟩
    · rintro ⟨rfl | hmem, hmatch⟩
      · exact .inl ⟨rfl, hmatch⟩
      · exact .inr ⟨hmem, hmatch⟩

/-- Every object that a manager has says that it is with that manager. -/
def Placed (s : State) : Prop := ∀ m, ∀ k ∈ (s.manager m).objects, (s.object k).manager = m

theorem secretKey_of_match {search : GkmSecretSearch} {object : GkmObject}
    (h : matchObjectAgainstCriteria md5 search object = true) : object.secretKey = true := by
  rw [matchObjectAgainstCriteria, Bool.and_assoc, Bool.and_eq_true] at h
  exact object.secretKey_of_item h.1

/-- A search that is filled from one more manager. -/
theorem Exact.populate (hs : Exact md5 s []) (hplaced : Placed s) (manager : Nat) :
    Exact md5 (populateSearchFromManager md5 s manager) [] := by
  obtain ⟨hsame, hhandles⟩ := foldl_added_spec md5 s.object
    ((s.manager manager).objects.filter fun handle => (s.object handle).secretKey)
    { s.search with managers := s.search.managers ++ [manager] }
  intro k
  have hmatch : matchObjectAgainstCriteria md5 (populateSearchFromManager md5 s manager).search
      ((populateSearchFromManager md5 s manager).settled [] k) =
        matchObjectAgainstCriteria md5 s.search (s.object k) := hsame.match md5 _
  have hwatched : (populateSearchFromManager md5 s manager).watched k ↔
      s.watched k ∨ (s.object k).manager = manager := by
    show (s.object k).manager ∈ (populateSearchFromManager md5 s manager).search.managers ↔ _
    rw [populateSearchFromManager, hsame.2.2, mem_append, mem_singleton]
    exact Iff.rfl
  have hfound : k ∈ (s.manager manager).objects ↔ s.exposed k ∧ (s.object k).manager = manager := by
    constructor
    · intro hk
      have hm := hplaced manager k hk
      refine ⟨?_, hm⟩
      rw [State.exposed, hm]
      exact hk
    · rintro ⟨hk, rfl⟩
      exact hk
  rw [hmatch, hwatched]
  refine (hhandles k).trans ?_
  rw [mem_filter, hfound]
  constructor
  · rintro (hk | ⟨⟨⟨hexposed, hm⟩, -⟩, hmatched⟩)
    · obtain ⟨hexposed, hw, hmatched⟩ := (hs k).1 hk
      exact ⟨hexposed, .inl hw, hmatched⟩
    · exact ⟨hexposed, .inr hm, hmatched⟩
  · rintro ⟨hexposed, hw | hm, hmatched⟩
    · exact .inl ((hs k).2 ⟨hexposed, hw, hmatched⟩)
    · exact .inr ⟨⟨⟨hexposed, hm⟩, secretKey_of_match hmatched⟩, hmatched⟩

/-- A search is live when it is created, by a call that has changed no fields. -/
theorem live_factoryCreateSearch (hplaced : Placed s) (collectionId : Option CString) (fields : Fields)
    (sManager mManager : Nat) (ht : s.transaction.completes = [])
    (hcompleted : s.transaction.completed = false) :
    Live md5 (factoryCreateSearch md5 s collectionId fields sManager mManager) := by
  have hempty : Exact md5 { s with search := { collectionId, fields, managers := [], handles := ∅ } }
      [] := by
    intro k
    refine iff_of_false (Finset.notMem_empty k) ?_
    rintro ⟨-, hw, -⟩
    cases hw
  refine ⟨?_, ?_, hcompleted⟩
  · show Exact md5 _ s.transaction.completes
    rw [ht]
    exact (hempty.populate hplaced sManager).populate hplaced mManager
  · show Ordered s.transaction.completes
    rw [ht]
    trivial

/-! ## What a search is for -/

theorem SameCriteria.refl (a : GkmSecretSearch) : SameCriteria a a := ⟨rfl, rfl, rfl⟩

theorem SameCriteria.trans {a b c : GkmSecretSearch} (hab : SameCriteria a b) (hbc : SameCriteria b c) :
    SameCriteria a c :=
  ⟨hab.1.trans hbc.1, hab.2.1.trans hbc.2.1, hab.2.2.trans hbc.2.2⟩

theorem sameCriteria_expose (s : State) (handle : Nat) (b : Bool) :
    SameCriteria (gkmObjectExpose md5 s handle b).search s.search := by
  unfold gkmObjectExpose
  split
  · split
    · exact .refl _
    · unfold gkmManagerUnregisterObject
      dsimp only
      split
      · exact (onManagerRemovedObject_spec s.search handle).1
      · exact .refl _
  · split
    · unfold gkmManagerRegisterObject
      dsimp only
      split
      · exact (onManagerAddedObject_spec md5 s.search handle (s.object handle)).1
      · exact .refl _
    · exact .refl _

theorem sameCriteria_invokeComplete (failed : Bool) (c : Complete) (s : State) :
    SameCriteria (invokeComplete md5 failed c s).search s.search := by
  cases c with
  | setFields handle oldFields =>
    rw [invokeComplete]
    split
    · exact .refl _
    · exact (notifyFields_spec md5 s handle).2.2.2.1
  | expose handle b =>
    rw [invokeComplete]
    split
    · exact sameCriteria_expose s handle _
    · exact .refl _

/-- Nothing changes what is searched for. -/
theorem sameCriteria_step (s : State) (e : Event) : SameCriteria (s.step md5 e).search s.search := by
  cases e with
  | expose handle transacted expose =>
    show SameCriteria (gkmObjectExposeFull md5 s handle transacted expose).search s.search
    unfold gkmObjectExposeFull
    split
    · exact .refl _
    · split
      · exact .refl _
      · exact sameCriteria_expose _ handle expose
  | setFields handle fields =>
    show SameCriteria (gkmSecretItemSetFields md5 s handle fields).search s.search
    unfold gkmSecretItemSetFields
    split
    · exact (notifyFields_spec md5 (s.withFields handle fields) handle).2.2.2.1
    · exact .refl _
  | beginSetFields handle fields =>
    show SameCriteria (beginSetFields s handle fields).search s.search
    unfold beginSetFields
    split
    · exact .refl _
    · exact .refl _
  | fail result => exact .refl _
  | complete =>
    show SameCriteria (gkmTransactionComplete (invokeComplete md5) s.transaction s).2.search s.search
    unfold gkmTransactionComplete
    split
    · exact .refl _
    · exact unwind_invariant (I := fun t : State => SameCriteria t.search s.search)
        (fun c _ t ht => (sameCriteria_invokeComplete _ c t).trans ht) (.refl _)

theorem Reached.sameCriteria {start s : State} (h : Reached md5 start s) :
    SameCriteria s.search start.search := by
  induction h with
  | start => exact .refl _
  | step _ _ ih => exact (sameCriteria_step _ _).trans ih

theorem sameCriteria_factoryCreateSearch (s : State) (collectionId : Option CString) (fields : Fields)
    (sManager mManager : Nat) :
    SameCriteria (factoryCreateSearch md5 s collectionId fields sManager mManager).search
      { collectionId, fields, managers := [sManager, mManager], handles := ∅ } := by
  have hfirst := (foldl_added_spec md5 s.object
    ((s.manager sManager).objects.filter fun handle => (s.object handle).secretKey)
    { collectionId, fields, managers := [sManager], handles := ∅ }).1
  refine ((foldl_added_spec md5 s.object _ _).1).trans ?_
  exact ⟨hfirst.1, hfirst.2.1, congrArg (· ++ [mManager]) hfirst.2.2⟩

/-- The items that a search is for. -/
def Wanted (md5 : Md5) (collectionId : Option CString) (fields : Fields) (object : GkmObject) : Prop :=
  object.isSecretItem = true ∧ (∀ identifier ∈ collectionId, object.collection = identifier) ∧
    gkmSecretFieldsMatch md5 (object.fields.getD ∅) fields = .ok true

theorem matchObjectAgainstCriteria_iff {search : GkmSecretSearch} {object : GkmObject} :
    matchObjectAgainstCriteria md5 search object = true ↔
      Wanted md5 search.collectionId search.fields object := by
  have hfields : fieldsMatch md5 (object.fields.getD ∅) search.fields = true ↔
      gkmSecretFieldsMatch md5 (object.fields.getD ∅) search.fields = .ok true := by
    unfold fieldsMatch
    cases gkmSecretFieldsMatch md5 (object.fields.getD ∅) search.fields with
    | ok matched => simp
    | error e => simp
  rw [matchObjectAgainstCriteria, Bool.and_eq_true, Bool.and_eq_true, hfields, and_assoc, Wanted]
  cases search.collectionId with
  | none => simp
  | some identifier => simp only [beq_iff_eq, Option.mem_some_iff, forall_eq']

/-- The exposed items of the two managers that a search is for, by these objects. -/
def Found (md5 : Md5) (collectionId : Option CString) (fields : Fields) (sManager mManager : Nat)
    (s : State) (object : Nat → GkmObject) (k : Nat) : Prop :=
  s.exposed k ∧ ((s.object k).manager = sManager ∨ (s.object k).manager = mManager) ∧
    Wanted md5 collectionId fields (object k)

/-- In every state of a calm run after its creation, the handles of a search are those of the exposed
items of its managers that it is for by their settled fields. For an item with no fields pending these
are the fields that it has. -/
theorem live_search_exact {start s : State} (hplaced : Placed start)
    (ht : start.transaction = gkmTransactionNew) (collectionId : Option CString) (fields : Fields)
    (sManager mManager : Nat)
    (h : Reached md5 (factoryCreateSearch md5 start collectionId fields sManager mManager) s) :
    (∀ k, k ∈ s.search.handles ↔ Found md5 collectionId fields sManager mManager s
        (s.settled s.transaction.completes) k) ∧
      ∀ k, ¬ Pending s.transaction.completes k →
        (k ∈ s.search.handles ↔ Found md5 collectionId fields sManager mManager s s.object k) := by
  have hlive := Live.reached (live_factoryCreateSearch hplaced collectionId fields sManager mManager
    (by rw [ht]; rfl) (by rw [ht]; rfl)) h
  obtain ⟨hcollection, hfields, hmanagers⟩ :=
    h.sameCriteria.trans (sameCriteria_factoryCreateSearch start collectionId fields sManager mManager)
  have hfound : ∀ k object, (s.exposed k ∧ s.watched k ∧
      matchObjectAgainstCriteria md5 s.search object = true ↔
        s.exposed k ∧ ((s.object k).manager = sManager ∨ (s.object k).manager = mManager) ∧
          Wanted md5 collectionId fields object) := fun k object => by
    rw [matchObjectAgainstCriteria_iff, hcollection, hfields, State.watched, hmanagers]
    simp only [mem_cons, not_mem_nil, or_false]
  exact ⟨fun k => (hlive.exact k).trans (hfound k _),
    fun k hk => (hlive.exact.exactAt hk).trans (hfound k _)⟩

end

/-! ## A sample -/

def sampleHash : Md5 where
  hash _ := replicate 16 0
  length_hash _ := length_replicate

/-- The fields of an item of this user. -/
def sampleUser (name : CString) : Fields :=
  gkmSecretFieldsAdd ∅ (some ⟨ascii "user", by decide⟩) (some name)

def alice : Fields := sampleUser ⟨ascii "alice", by decide⟩

def bob : Fields := sampleUser ⟨ascii "bob", by decide⟩

/-- One item, of which the handle is 16, with the manager of the module. -/
def sampleStart : State where
  object _ :=
    { manager := 1, isSecretItem := true, secretKey := true, collection := ⟨ascii "login", by decide⟩
      fields := some alice, secretKey_of_item := fun _ => rfl }
  manager m := if m = 1 then { objects := [16], nodup := nodup_singleton 16 }
    else { objects := [], nodup := nodup_nil }
  transaction := gkmTransactionNew
  search := { collectionId := none, fields := ∅, managers := [], handles := ∅ }

theorem placed_sampleStart : Placed sampleStart := by
  intro m k hk
  by_cases hm : m = 1
  · exact hm.symm
  · have hempty : (sampleStart.manager m).objects = [] := by
      simp only [sampleStart, if_neg hm]
    rw [hempty] at hk
    cases hk

/-- A search for the item. -/
def sampleSearch : State := factoryCreateSearch sampleHash sampleStart none alice 2 1

/-- A change of the fields that is rolled back. -/
def sampleRolledBack : State :=
  ((sampleSearch.step sampleHash (.beginSetFields 16 bob)).step sampleHash
    (.fail Rpc.ckrGeneralError)).step sampleHash .complete

theorem live_search_exact_sample :
    16 ∈ sampleRolledBack.search.handles ∧
      ∀ k, ¬ Pending sampleRolledBack.transaction.completes k → (k ∈ sampleRolledBack.search.handles ↔
        Found sampleHash none alice 2 1 sampleRolledBack sampleRolledBack.object k) := by
  have hreached : Reached sampleHash sampleSearch sampleRolledBack := by
    apply Reached.step
    · apply Reached.step
      · apply Reached.step
        · exact Reached.start
        · exact trivial
      · exact trivial
    · exact trivial
  have hexact := live_search_exact placed_sampleStart rfl none alice 2 1 hreached
  exact ⟨by decide +kernel, hexact.2⟩

/-- While the change is pending the search has the handle, although the item does not match. -/
theorem search_before_commit :
    ¬ ∀ k, k ∈ (sampleSearch.step sampleHash (.beginSetFields 16 bob)).search.handles ↔
      Found sampleHash none alice 2 1 (sampleSearch.step sampleHash (.beginSetFields 16 bob))
        (sampleSearch.step sampleHash (.beginSetFields 16 bob)).object k := by
  intro h
  obtain ⟨-, -, hwanted⟩ := (h 16).1 (by decide +kernel)
  have hmatch : matchObjectAgainstCriteria sampleHash sampleSearch.search
      ((sampleSearch.step sampleHash (.beginSetFields 16 bob)).object 16) = true :=
    matchObjectAgainstCriteria_iff.2 hwanted
  exact absurd hmatch (by decide +kernel)

end MateKeyring.Secret.Search
