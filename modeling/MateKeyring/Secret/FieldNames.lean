import MateKeyring.Secret.Fields

/-!
# The names of a table of fields

`gkm_secret_fields_get_names` takes the keys of the table, strips the prefix of those that are hashed, sorts
them and goes through the sorted list once, dropping the names with a compat prefix and each name that is
equal to the one that was kept last. One field may be there under its own name, under its hashed name and with
a mark that it is a number; it is listed once.
-/

set_option autoImplicit false

namespace MateKeyring.Secret

open Lib Egg List

/-- `strcmp (one, two) < 0`. -/
def strcmpLt (one two : CString) : Prop := one.val < two.val

theorem strcmpLt_of_le_of_ne {one two : CString} (hle : strcmpLe one two) (hne : one ≠ two) :
    strcmpLt one two := by
  by_contra hlt
  have htrichotomous : Std.Trichotomous fun s t : Bytes => s < t := inferInstance
  exact hne (Subtype.ext (htrichotomous.trichotomous _ _ hlt hle))

theorem strcmpLt_trans {one two three : CString} (h : strcmpLt one two) (h' : strcmpLt two three) :
    strcmpLt one three :=
  List.lt_trans h h'

theorem strcmpLt_irrefl (name : CString) : ¬ strcmpLt name name := List.lt_irrefl name.val

theorem pairwise_insertionSort_strcmpLe (names : List CString) :
    (names.insertionSort strcmpLe).Pairwise strcmpLe := by
  have htotal : Std.Total strcmpLe := ⟨fun one two => List.le_total one.val two.val⟩
  have htrans : IsTrans CString strcmpLe := ⟨fun _ _ _ h h' => List.le_trans h h'⟩
  exact pairwise_insertionSort strcmpLe names

/-- The loop over a sorted list keeps names in strictly increasing order, all of them after the name that was
kept last. -/
theorem dropCompatNames_increasing {names : List CString} {last : Option CString}
    (hsorted : names.Pairwise strcmpLe) (hlast : ∀ kept ∈ last, ∀ name ∈ names, strcmpLe kept name) :
    (dropCompatNames last names).Pairwise strcmpLt ∧
      ∀ kept ∈ last, ∀ name ∈ dropCompatNames last names, strcmpLt kept name := by
  induction names generalizing last with
  | nil => exact ⟨List.Pairwise.nil, fun _ _ _ h => absurd h not_mem_nil⟩
  | cons name names ih =>
    obtain ⟨hfirst, hrest⟩ := pairwise_cons.1 hsorted
    rw [dropCompatNames]
    split
    · apply ih hrest
      exact fun kept hkept other hother => hlast kept hkept other (mem_cons_of_mem _ hother)
    · rename_i hkeep
      rw [not_or] at hkeep
      -- from here on the name itself is the one that was kept last
      obtain ⟨hincreasing, hafter⟩ := @ih (some name) hrest (by
        rintro kept hkept other hother
        cases hkept
        exact hfirst other hother)
      refine ⟨pairwise_cons.2 ⟨hafter name rfl, hincreasing⟩, ?_⟩
      intro kept hkept other hother
      have hbefore : strcmpLt kept name := by
        apply strcmpLt_of_le_of_ne (hlast kept hkept name mem_cons_self)
        rintro rfl
        exact hkeep.2 hkept
      rcases mem_cons.1 hother with rfl | hother
      · exact hbefore
      · exact strcmpLt_trans hbefore (hafter name rfl other hother)

/-- The names are in strictly increasing order. -/
theorem increasing_gkmSecretFieldsGetNames (fields : Fields) :
    (gkmSecretFieldsGetNames fields).Pairwise strcmpLt :=
  (dropCompatNames_increasing (pairwise_insertionSort_strcmpLe _) fun _ h => absurd h (Option.not_mem_none _)).1

theorem nodup_of_increasing {names : List CString} (h : names.Pairwise strcmpLt) : names.Nodup := by
  refine h.imp ?_
  rintro one two hlt rfl
  exact strcmpLt_irrefl one hlt

/-- `gkm_secret_fields_get_names` lists the names that are plain keys of the table or base names of its hashed
keys, and have no compat prefix; each of them once, and in strictly increasing order. -/
theorem field_names_listed (fields : Fields) :
    (∀ name, name ∈ gkmSecretFieldsGetNames fields ↔
        isCompatName name = false ∧ (name ∈ fields ∨ makeCompatHashedName name ∈ fields)) ∧
      (gkmSecretFieldsGetNames fields).Nodup ∧ (gkmSecretFieldsGetNames fields).Pairwise strcmpLt :=
  have hincreasing := increasing_gkmSecretFieldsGetNames fields
  ⟨fun _ => mem_gkmSecretFieldsGetNames, nodup_of_increasing hincreasing, hincreasing⟩

end MateKeyring.Secret
