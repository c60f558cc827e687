import MateKeyring.Secret.FieldWire

/-!
# Writing the fields that a client has set

A table that `gkm_secret_fields_parse` made of the octets of a client may have any names, those with a compat prefix
too. `buffer_add_attributes` lists the plain names and the base names of the hashed ones, and looks for the value of
each. A name that is marked as a number and is there in its hashed form only is listed, but
`gkm_secret_fields_get_compat_uint32` hands the plain value, which is not there, to `parse_uint32`.
-/

set_option autoImplicit false

namespace MateKeyring.Secret

open Lib Egg List

variable {md5 : Md5} {table : Fields} {name : CString}

/-! ## The values of a table that was parsed -/

/-- The loop puts values into the table, never null pointers. -/
theorem fieldsParseLoop_present {data : Bytes} {last fuel ptr : Nat} {result : Fields}
    (h : Present result.entries) (hrun : fieldsParseLoop data last fuel ptr result = some (.ok (.ok table))) :
    Present table.entries := by
  induction fuel generalizing ptr result with
  | zero => cases hrun
  | succ fuel ih =>
    rw [fieldsParseLoop] at hrun
    by_cases hend : ptr = last
    · rw [if_pos hend] at hrun
      cases hrun
      exact h
    · rw [if_neg hend] at hrun
      by_cases hlt : ptr < last
      · rw [if_neg (not_not.2 hlt)] at hrun
        cases hname : nextText data last ptr with
        | error fault =>
          rw [hname] at hrun
          cases hrun
        | ok found =>
          cases found with
          | none =>
            rw [hname] at hrun
            cases hrun
          | some first =>
            obtain ⟨name, ptr'⟩ := first
            rw [hname] at hrun
            dsimp only at hrun
            cases hvalue : nextText data last ptr' with
            | error fault =>
              rw [hvalue] at hrun
              cases hrun
            | ok found =>
              cases found with
              | none =>
                rw [hvalue] at hrun
                cases hrun
              | some second =>
                obtain ⟨value, ptr''⟩ := second
                rw [hvalue] at hrun
                dsimp only at hrun
                by_cases htext : utf8Validate name = true ∧ utf8Validate value = true
                · rw [dif_pos htext] at hrun
                  exact ih (h.insert _ _) hrun
                · rw [dif_neg htext] at hrun
                  cases hrun
      · rw [if_pos hlt] at hrun
        cases hrun

theorem parse_present {attr : WireAttribute} (h : gkmSecretFieldsParse attr = some (.ok (.ok table))) :
    Present table.entries := by
  obtain ⟨pValue, n⟩ := attr
  cases pValue with
  | some data => exact fieldsParseLoop_present present_empty h
  | none =>
    rw [gkmSecretFieldsParse] at h
    by_cases hn : n ≠ 0
    · rw [if_pos hn] at h
      cases h
    · rw [if_neg hn] at h
      cases h
      exact present_empty

theorem lookup_present (h : Present table.entries) (hmem : name ∈ table) :
    ∃ value, table.lookup name = some (some value) := by
  obtain ⟨entry, hentry⟩ := Option.isSome_iff_exists.1 (AList.lookup_isSome.2 hmem)
  cases entry with
  | some value => exact ⟨value, hentry⟩
  | none => exact absurd rfl (h _ (AList.mem_lookup_iff.1 hentry))

/-! ## One attribute -/

/-- A name that is listed for its hashed form, marked as a number, and has no plain value. -/
def Unvalued (table : Fields) (name : CString) : Prop :=
  isCompatName name = false ∧ name ∉ table ∧ makeCompatHashedName name ∈ table ∧
    makeCompatUint32Name name ∈ table

/-- The number that is read of a plain attribute, if its value is there. -/
theorem getCompatUint32_iff (h : Present table.entries) (hname : name ∈ gkmSecretFieldsGetNames table) :
    (∃ r, gkmSecretFieldsGetCompatUint32 table name = .ok r) ↔ ¬ Unvalued table name := by
  obtain ⟨hcompat, hlisted⟩ := mem_gkmSecretFieldsGetNames.1 hname
  rw [gkmSecretFieldsGetCompatUint32, if_neg (Bool.eq_false_iff.1 hcompat)]
  by_cases hmark : makeCompatUint32Name name ∈ table
  · obtain ⟨mark, hmark'⟩ := lookup_present h hmark
    rw [hmark', if_neg (by exact Bool.false_ne_true)]
    by_cases hplain : name ∈ table
    · obtain ⟨value, hvalue⟩ := lookup_present h hplain
      rw [hvalue]
      exact ⟨fun _ hun => hun.2.1 hplain, fun _ => ⟨_, rfl⟩⟩
    · rw [AList.lookup_eq_none.2 hplain]
      refine ⟨?_, fun hvalued => absurd ⟨hcompat, hplain, hlisted.resolve_left hplain, hmark⟩ hvalued⟩
      rintro ⟨r, hr⟩
      cases hr
  · rw [AList.lookup_eq_none.2 hmark, if_pos (by exact rfl)]
    exact ⟨fun _ hun => hmark hun.2.2.2, fun _ => ⟨_, rfl⟩⟩

/-- Of a hashed attribute there is always a value. -/
theorem getCompatHashedUint32_ok (h : Present table.entries) (name : CString) :
    ∃ r, gkmSecretFieldsGetCompatHashedUint32 table name = .ok r := by
  have halready : ∃ r, alreadyHashedUint32 table name = .ok r := by
    rw [alreadyHashedUint32]
    by_cases hhashed : makeCompatHashedName name ∈ table
    · obtain ⟨value, hvalue⟩ := lookup_present h hhashed
      rw [hvalue]
      exact ⟨_, rfl⟩
    · rw [AList.lookup_eq_none.2 hhashed]
      exact ⟨_, rfl⟩
  rw [gkmSecretFieldsGetCompatHashedUint32]
  by_cases hcompat : isCompatName name = true
  · rw [if_pos hcompat]
    exact ⟨_, rfl⟩
  · rw [if_neg hcompat]
    by_cases hmark : (table.lookup (makeCompatUint32Name name)).isSome = true
    · rw [if_pos hmark]
      cases compatHashValueAsUint32 (table.lookup name).join with
      | some number => exact ⟨_, rfl⟩
      | none => exact halready
    · rw [if_neg hmark]
      exact halready

theorem bufferAddAttribute_iff (b : EggBuffer) :
    (∃ b', bufferAddAttribute b table name = .ok b') ↔
      ∃ r, gkmSecretFieldsGetCompatUint32 table name = .ok r := by
  rw [bufferAddAttribute]
  cases gkmSecretFieldsGetCompatUint32 table name with
  | error fault => exact iff_of_false (fun ⟨_, h⟩ => by cases h) fun ⟨_, h⟩ => by cases h
  | ok r =>
    refine iff_of_true ?_ ⟨r, rfl⟩
    cases r with
    | some number => exact ⟨_, rfl⟩
    | none => exact ⟨_, rfl⟩

theorem bufferAddHashedAttribute_ok (h : Present table.entries) (b : EggBuffer) (name : CString) :
    ∃ b', bufferAddHashedAttribute md5 b table name = .ok b' := by
  obtain ⟨r, hr⟩ := getCompatHashedUint32_ok h name
  rw [bufferAddHashedAttribute, hr]
  cases r with
  | some number => exact ⟨_, rfl⟩
  | none =>
    rw [ok_bind]
    cases gkmSecretFieldsGetCompatHashedString md5 table name with
    | none => exact ⟨_, rfl⟩
    | some value => exact ⟨_, rfl⟩

/-! ## The attributes of an item -/

/-- The loop comes through if every round does, whatever the buffer is. -/
theorem addAttributesLoop_iff {hashed : Bool} {names : List CString} {P : CString → Prop}
    (hround : ∀ name ∈ names, ∀ b, (∃ b', addEitherAttribute md5 table hashed b name = .ok b') ↔ P name)
    (b : EggBuffer) :
    (∃ b', addAttributesLoop md5 table hashed names b = .ok b') ↔ ∀ name ∈ names, P name := by
  induction names generalizing b with
  | nil => exact iff_of_true ⟨b, rfl⟩ fun _ h => absurd h not_mem_nil
  | cons name names ih =>
    have hfirst := hround name mem_cons_self b
    have hrest := fun b => ih (fun other hother => hround other (mem_cons_of_mem name hother)) b
    rw [addAttributesLoop, forall_mem_cons, ← hfirst]
    cases addEitherAttribute md5 table hashed b name with
    | error fault => exact iff_of_false (fun ⟨_, h⟩ => by cases h) fun ⟨⟨_, h⟩, _⟩ => by cases h
    | ok b' => exact (hrest b').trans ⟨fun h => ⟨⟨b', rfl⟩, h⟩, fun h => h.2⟩

/-- The attributes of a table that was parsed are written, unless one has no value. -/
theorem bufferAddAttributes_iff (h : Present table.entries) (hashed : Bool) (b : EggBuffer) :
    (∃ r, bufferAddAttributes md5 b table hashed = .ok r) ↔ hashed = false → ∀ name, ¬ Unvalued table name := by
  have hloop : (∃ r, bufferAddAttributes md5 b table hashed = .ok r) ↔
      ∃ b', addAttributesLoop md5 table hashed (gkmSecretFieldsGetNames table)
        (eggBufferAddUint32 b (gkmSecretFieldsGetNames table).length).2 = .ok b' := by
    rw [bufferAddAttributes]
    cases addAttributesLoop md5 table hashed (gkmSecretFieldsGetNames table)
      (eggBufferAddUint32 b (gkmSecretFieldsGetNames table).length).2 with
    | error fault => exact iff_of_false (fun ⟨_, h⟩ => by cases h) fun ⟨_, h⟩ => by cases h
    | ok b' => exact iff_of_true ⟨_, rfl⟩ ⟨_, rfl⟩
  rw [hloop]
  cases hashed with
  | true =>
    rw [addAttributesLoop_iff (P := fun _ => True)]
    · exact iff_of_true (fun _ _ => trivial) fun h => by cases h
    · exact fun name _ b => iff_of_true (bufferAddHashedAttribute_ok h b name) trivial
  | false =>
    rw [addAttributesLoop_iff (P := fun name => ¬ Unvalued table name)]
    · refine ⟨fun hlisted _ name hun => ?_, fun hvalued name _ => hvalued rfl name⟩
      exact hlisted name (mem_gkmSecretFieldsGetNames.2 ⟨hun.1, .inr hun.2.2.1⟩) hun
    · exact fun name hname b => (bufferAddAttribute_iff b).trans (getCompatUint32_iff h hname)

/-! ## The items of a collection -/

/-- Writing the attributes of every item, hashed or not, meets no null pointer and no assertion that fails. -/
def SavesSafely (md5 : Md5) (collection : GkmSecretCollection) : Prop :=
  ∀ e ∈ gkmSecretCollectionGetItems collection, ∀ hashed b, ∃ r, bufferAddAttributes md5 b e.2.fields hashed = .ok r

/-- The items whose fields a client has set are written safely just if none has a name that is marked as a number
and is there in its hashed form only. -/
theorem saved_fields_iff (md5 : Md5) (collection : GkmSecretCollection)
    (h : ∀ e ∈ gkmSecretCollectionGetItems collection,
      ∃ attr, gkmSecretFieldsParse attr = some (.ok (.ok e.2.fields))) :
    SavesSafely md5 collection ↔
      ∀ e ∈ gkmSecretCollectionGetItems collection, ∀ name, ¬ Unvalued e.2.fields name := by
  have hpresent : ∀ e ∈ gkmSecretCollectionGetItems collection, Present e.2.fields.entries := by
    intro e he
    obtain ⟨attr, hattr⟩ := h e he
    exact parse_present hattr
  constructor
  · intro hsafe e he
    obtain ⟨r, hr⟩ := hsafe e he false (initBuffer 256 fun _ _ => true)
    exact (bufferAddAttributes_iff (hpresent e he) false _).1 ⟨r, hr⟩ rfl
  · exact fun hvalued e he hashed b => (bufferAddAttributes_iff (hpresent e he) hashed b).2 fun _ => hvalued e he

/-! ## A mark and a hash -/

/-- `MD5` on the one string that the samples below hash. -/
def xMd5 : Md5 where
  hash data :=
    if data = ascii "x" then
      [0x9d, 0xd4, 0xe4, 0x61, 0x26, 0x8c, 0x80, 0x34, 0xf5, 0xc8, 0x56, 0x4e, 0x15, 0x5c, 0x67, 0xa6]
    else replicate 16 0
  length_hash data := by
    by_cases h : data = ascii "x"
    · rw [if_pos h]
      rfl
    · rw [if_neg h]
      rfl

theorem x_noNul : (0 : UInt8) ∉ ascii "x" := by decide

def xName : CString := ⟨ascii "x", x_noNul⟩

/-- The mark of a number and the hash of the field `x`, which is not there itself. -/
def markedPairs : List Pair := [(makeCompatUint32Name xName, xName), (makeCompatHashedName xName, xName)]

def markedTable : Fields := insertAll ∅ markedPairs

/-- A collection of one item with some fields. -/
def collectionOf (table : Fields) : GkmSecretCollection :=
  { label := none, created := 0, modified := 0,
    items := (∅ : AList fun _ : CString => GkmSecretItem).insert xName { gkmSecretItemNew with fields := table },
    watermark := 0, template := initTemplate }

theorem parse_wire {pairs : List Pair} (h : ∀ p ∈ pairs, Pair.Text p) :
    gkmSecretFieldsParse ⟨some (wire pairs), (wire pairs).length⟩ = some (.ok (.ok (insertAll ∅ pairs))) :=
  fieldsParse_eq_iff.2 ⟨pairs, h, rfl, rfl⟩

theorem markedPairs_text : ∀ p ∈ markedPairs, Pair.Text p := by
  have hx : utf8Validate xName.val = true := by decide
  intro p hp
  rcases mem_cons.1 hp with rfl | hp
  · exact ⟨text_uint32Name hx, hx⟩
  · rw [mem_singleton.1 hp]
    exact ⟨text_hashedName hx, hx⟩

theorem saved_fields_sample :
    gkmSecretFieldsParse ⟨some (wire [(xName, xName)]), (wire [(xName, xName)]).length⟩ =
        some (.ok (.ok (insertAll ∅ [(xName, xName)]))) ∧
      (SavesSafely xMd5 (collectionOf (insertAll ∅ [(xName, xName)])) ↔
        ∀ e ∈ gkmSecretCollectionGetItems (collectionOf (insertAll ∅ [(xName, xName)])),
          ∀ name, ¬ Unvalued e.2.fields name) := by
  have hparse := @parse_wire [(xName, xName)] fun p hp => by
    rw [mem_singleton.1 hp]
    exact ⟨by decide, by decide⟩
  refine ⟨hparse, saved_fields_iff xMd5 (collectionOf (insertAll ∅ [(xName, xName)])) ?_⟩
  intro e he
  rw [mem_singleton.1 he]
  exact ⟨_, hparse⟩

/-- The octets are accepted, and the assertion of `parse_uint32` fails when the item is saved. -/
theorem marked_hash_asserts :
    gkmSecretFieldsParse ⟨some (wire markedPairs), (wire markedPairs).length⟩ = some (.ok (.ok markedTable)) ∧
      bufferAddAttributes xMd5 (initBuffer 256 fun _ _ => true) markedTable false = .error .assertion ∧
      ¬ SavesSafely xMd5 (collectionOf markedTable) := by
  have hfault : bufferAddAttributes xMd5 (initBuffer 256 fun _ _ => true) markedTable false =
      .error .assertion := by rfl
  refine ⟨parse_wire markedPairs_text, hfault, fun hsafe => ?_⟩
  obtain ⟨r, hr⟩ := hsafe _ (mem_singleton.2 rfl) false (initBuffer 256 fun _ _ => true)
  rw [hfault] at hr
  cases hr

end MateKeyring.Secret
