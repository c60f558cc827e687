import MateKeyring.Secret.Reread

/-!
# What a read does to a collection

The update with the items of a keyring file leaves the collection alone but for its items (`update_same`).
-/

set_option autoImplicit false

namespace MateKeyring.Secret

open Lib Egg
open Mate2 (GkmDataResult)

/-! ## What the update leaves alone -/

/-- The collection itself, apart from its items. -/
structure SameCollection (a b : GkmSecretCollection) : Prop where
  label : b.label = a.label
  created : b.created = a.created
  modified : b.modified = a.modified
  template : b.template = a.template

theorem SameCollection.refl (a : GkmSecretCollection) : SameCollection a a := ⟨rfl, rfl, rfl, rfl⟩

theorem SameCollection.trans {a b c : GkmSecretCollection} (h : SameCollection a b)
    (h' : SameCollection b c) : SameCollection a c :=
  ⟨h'.label.trans h.label, h'.created.trans h.created, h'.modified.trans h.modified,
    h'.template.trans h.template⟩

theorem loadItem_same (st : Loading) (info : ItemInfo) :
    SameCollection st.collection (st.loadItem info).collection := by
  rw [Loading.loadItem]
  dsimp only
  split
  · exact ⟨rfl, rfl, rfl, rfl⟩
  · exact ⟨rfl, rfl, rfl, rfl⟩

theorem loadItems_same (items : List ItemInfo) (st : Loading) (checks : List CString) :
    SameCollection st.collection (loadItems items st checks).1.collection := by
  induction items generalizing st checks with
  | nil => exact SameCollection.refl _
  | cons info items ih => exact (loadItem_same st info).trans (ih _ _)

theorem removeUnavailableItems_same (checks : List CString) (collection : GkmSecretCollection) :
    SameCollection collection (removeUnavailableItems collection checks) := by
  induction checks generalizing collection with
  | nil => exact SameCollection.refl _
  | cons identifier checks ih =>
    have hone : SameCollection collection (gkmSecretCollectionRemoveItem collection identifier) :=
      ⟨rfl, rfl, rfl, rfl⟩
    exact hone.trans (ih _)

theorem update_same (st : Loading) (header : Header) (items : List ItemInfo) :
    SameCollection (setupCollection st.collection header) (st.update header items).collection := by
  have h := loadItems_same items { st with collection := setupCollection st.collection header }
    ((gkmSecretCollectionGetItems st.collection).map Prod.fst)
  exact h.trans (removeUnavailableItems_same _ _)

end MateKeyring.Secret
