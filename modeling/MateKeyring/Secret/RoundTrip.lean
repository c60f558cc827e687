import MateKeyring.Secret.Loading

/-!
# The binary keyring file, written and read back

The header of a file has the time of the last modification before that of the creation, and is read
with these two exchanged; of the two timeouts it has only one, and it is set in the template of the
collection, where other attributes of its type may stay in front (`binary_collection_restored_iff`).
-/

set_option autoImplicit false

namespace MateKeyring.Secret

open Lib Egg List
open Mate2 (GkmDataResult)

/-! ## The collection -/

/-- The label, the times and the timeouts of two collections are the same. -/
structure SameHeader (a b : GkmSecretCollection) : Prop where
  label : b.label = a.label
  created : b.created = a.created
  modified : b.modified = a.modified
  lockIdle : gkmSecretCollectionGetLockIdle b = gkmSecretCollectionGetLockIdle a
  lockAfter : gkmSecretCollectionGetLockAfter b = gkmSecretCollectionGetLockAfter a

/-- When a timeout that is set in a template is got back: another attribute of the type that stays
says the same, or there is none and the timeout is not negative. -/
def Kept (template : List TemplateAttribute) (type : Nat) (timeout : BitVec 32) : Prop :=
  if (removePrevious template type).any (isFound type) then getTimeout (removePrevious template type) type = timeout
  else timeout.slt 0 = false

/-- When the timeouts of `source` are those that `target` has after reading its file: the one of the
file is kept in the template, and the other one is what the attributes that stay there say. -/
def TimeoutsKept (source target : GkmSecretCollection) : Prop :=
  if gkmSecretCollectionGetLockIdle source ≠ 0 then
    Kept target.template ckaGDestructIdle (gkmSecretCollectionGetLockIdle source) ∧
      getTimeout (removePrevious target.template ckaGDestructIdle) ckaGDestructAfter =
        gkmSecretCollectionGetLockAfter source
  else if gkmSecretCollectionGetLockAfter source ≠ 0 then
    Kept target.template ckaGDestructAfter (gkmSecretCollectionGetLockAfter source) ∧
      getTimeout (removePrevious target.template ckaGDestructAfter) ckaGDestructIdle = 0
  else gkmSecretCollectionGetLockIdle target = 0 ∧ gkmSecretCollectionGetLockAfter target = 0

theorem kept_iff {template : List TemplateAttribute} {type : Nat} {v : BitVec 32} (hv : v ≠ 0) :
    getTimeout (setTimeout template type v) type = v ↔ Kept template type v := by
  rw [getTimeout_same, Kept]
  split
  · exact Iff.rfl
  · cases h : v.slt 0 with
    | true =>
      rw [if_pos rfl]
      exact iff_of_false hv.symm Bool.noConfusion
    | false => simp

theorem setupCollection_sameHeader_iff (source target : GkmSecretCollection) (nonce : Nonce) :
    SameHeader source (setupCollection target (rereadHeader source nonce)) ↔
      source.created = source.modified ∧ TimeoutsKept source target := by
  unfold setupCollection rereadHeader lockFlags TimeoutsKept
  have hafter : ∀ v, gkmSecretCollectionGetLockAfter (gkmSecretCollectionSetLockIdle target v) =
      getTimeout (removePrevious target.template ckaGDestructIdle) ckaGDestructAfter := getTimeout_other (by decide)
  have hidle : ∀ v, gkmSecretCollectionGetLockIdle (gkmSecretCollectionSetLockAfter target v) =
      getTimeout (removePrevious target.template ckaGDestructAfter) ckaGDestructIdle := getTimeout_other (by decide)
  by_cases hi : gkmSecretCollectionGetLockIdle source = 0
  · by_cases ha : gkmSecretCollectionGetLockAfter source = 0
    · simp only [hi, ha, ne_eq, not_true_eq_false, if_false]
      constructor
      · rintro ⟨-, hc, -, h₁, h₂⟩
        exact ⟨hc.symm, h₁.trans hi, h₂.trans ha⟩
      · rintro ⟨hc, h₁, h₂⟩
        exact ⟨rfl, hc.symm, hc, h₁.trans hi.symm, h₂.trans ha.symm⟩
    · simp only [hi, ha, ne_eq, not_true_eq_false, not_false_eq_true, if_false, if_true,
        lockAfterFlag]
      constructor
      · rintro ⟨-, hc, -, h₁, h₂⟩
        exact ⟨hc.symm, (kept_iff ha).1 h₂, (hidle _).symm.trans (h₁.trans hi)⟩
      · rintro ⟨hc, h₁, h₂⟩
        exact ⟨rfl, hc.symm, hc, (hidle _).trans (h₂.trans hi.symm), (kept_iff ha).2 h₁⟩
  · simp only [hi, ne_eq, not_false_eq_true, if_true, lockOnIdleFlag]
    constructor
    · rintro ⟨-, hc, -, h₁, h₂⟩
      exact ⟨hc.symm, (kept_iff hi).1 h₁, (hafter _).symm.trans h₂⟩
    · rintro ⟨hc, h₁, h₂⟩
      exact ⟨rfl, hc.symm, hc, (kept_iff hi).2 h₁, (hafter _).trans h₂⟩

theorem SameHeader.congr {a b c : GkmSecretCollection} (h : SameCollection b c) :
    SameHeader a c ↔ SameHeader a b := by
  have hi : gkmSecretCollectionGetLockIdle c = gkmSecretCollectionGetLockIdle b :=
    congrArg (getTimeout · ckaGDestructIdle) h.template
  have ha : gkmSecretCollectionGetLockAfter c = gkmSecretCollectionGetLockAfter b :=
    congrArg (getTimeout · ckaGDestructAfter) h.template
  constructor
  · rintro ⟨h₁, h₂, h₃, h₄, h₅⟩
    exact ⟨h.label ▸ h₁, h.created ▸ h₂, h.modified ▸ h₃, hi ▸ h₄, ha ▸ h₅⟩
  · rintro ⟨h₁, h₂, h₃, h₄, h₅⟩
    exact ⟨h.label.trans h₁, h.created.trans h₂, h.modified.trans h₃, hi.trans h₄, ha.trans h₅⟩

/-- Reading what was written for a collection gives its label, times and timeouts back if and only if
it was not modified after its creation, the timeout in the file is kept in the template, and the one that is not
in the file is there. -/
theorem binary_collection_restored_iff {g : Gcrypt} (hinv : g.Inverts)
    {collection : GkmSecretCollection} {sdata : GkmSecretData} {nonce : Nonce}
    {alloc : EggBufferAllocator} {data : Bytes}
    (hw : gkmSecretBinaryWrite g collection sdata nonce alloc = .ok (.success, data))
    (hr : Readable g.md5 collection sdata) {st : Loading}
    (ht : ∀ d ∈ st.sdata, d.master = sdata.master) (beyond : Bytes) :
    (∃ st', gkmSecretBinaryRead g st data beyond = .ok (.success, st') ∧
        SameHeader collection st'.collection) ↔
      collection.created = collection.modified ∧ TimeoutsKept collection st.collection := by
  obtain ⟨master, cipher, padding, encrypted, hwritten⟩ := gkmSecretBinaryWrite_written hw
  have hread := gkmSecretBinaryRead_written hinv hwritten hr ht beyond
  rw [← setupCollection_sameHeader_iff collection st.collection nonce]
  rw [← SameHeader.congr (update_same st (rereadHeader collection nonce)
    (rereadItems g.md5 collection sdata st.sdata.isSome))]
  constructor
  · rintro ⟨st', hst', hsame⟩
    rw [hread] at hst'
    cases hst'
    exact hsame
  · intro hsame
    exact ⟨_, hread, hsame⟩

/-! ### A sample keyring -/

/-- The one item of the sample keyring, as it is encrypted: the secret `s`, the times 5 and 6. -/
def sampleBody : Bytes :=
  replicate 4 255 ++ [0, 0, 0, 1, 115] ++ replicate 7 0 ++ [5] ++ replicate 7 0 ++
    [6] ++ replicate 4 255 ++ replicate 35 0

/-- Its `MD5` digest. -/
def sampleDigest : Bytes :=
  [77, 109, 9, 215, 235, 49, 151, 214, 16, 80, 135, 154, 216, 42, 98, 114]

/-- Digest and item, encrypted with the key for the password `pw`. -/
def sampleEncrypted : Bytes :=
  [23, 248, 26, 51, 26, 172, 243, 156, 1, 86, 215, 246, 162, 99, 145, 51, 238, 191, 186, 32, 117, 97,
    36, 53, 224, 40, 209, 77, 132, 63, 86, 73, 92, 87, 6, 98, 74, 242, 118, 10, 65, 223, 155, 171, 85,
    141, 57, 197, 222, 185, 120, 215, 178, 173, 55, 135, 226, 38, 51, 223, 253, 124, 95, 23, 230, 82,
    158, 204, 93, 39, 211, 24, 6, 101, 7, 163, 160, 213, 60, 72]

/-- The digest, the key and the cipher on the inputs of the sample. -/
def sampleGcrypt : Gcrypt where
  md5 :=
    { hash := fun data => if data = sampleBody then sampleDigest else replicate 16 0
      length_hash := by
        intro data
        by_cases h : data = sampleBody
        · rw [if_pos h]
          rfl
        · rw [if_neg h]
          rfl }
  symkeyGenerateSimple password salt iterations :=
    if password = some (ascii "pw") ∧ salt = [8, 7, 6, 5, 4, 3, 2, 1] ∧ iterations = 1500 then
      some ([13, 247, 133, 253, 195, 173, 124, 170, 204, 13, 255, 157, 38, 208, 153, 111],
        [154, 42, 71, 5, 126, 179, 163, 110, 109, 167, 161, 70, 168, 137, 64, 97])
    else none
  cipherEncrypt _ data := some (Equiv.swap (sampleDigest ++ sampleBody) sampleEncrypted data)
  cipherDecrypt _ data := some (Equiv.swap (sampleDigest ++ sampleBody) sampleEncrypted data)

theorem sampleGcrypt_inverts : sampleGcrypt.Inverts := by
  intro cipher data out _ h
  cases h
  constructor
  · by_cases h₁ : data = sampleDigest ++ sampleBody
    · rw [h₁, Equiv.swap_apply_left]
      rfl
    · by_cases h₂ : data = sampleEncrypted
      · rw [h₂, Equiv.swap_apply_right]
        rfl
      · rw [Equiv.swap_apply_of_ne_of_ne h₁ h₂]
  · change some (Equiv.swap _ _ (Equiv.swap _ _ data)) = some data
    rw [Equiv.swap_apply_self]

def sampleNonce : Nonce :=
  ⟨[8, 7, 6, 5, 4, 3, 2, 1], 1500, replicate 16 0, rfl, by decide, by decide, rfl⟩

/-- The identifier of the one item. -/
def sampleIdentifier : CString := ⟨ascii "1", by decide⟩

/-- The one item. -/
def sampleItem (schema : Option CString) : GkmSecretItem :=
  { label := none, created := 5, modified := 6, schema, fields := ∅, compatAcl := [] }

/-- A keyring with that item, created at 1 and locked when idle. -/
def sampleCollection (modified : BitVec 64) (schema : Option CString) : GkmSecretCollection :=
  { label := some ⟨ascii "x", by decide⟩, created := 1, modified,
    items := AList.singleton sampleIdentifier (sampleItem schema), watermark := 1,
    template := setTimeout initTemplate ckaGDestructIdle 300 }

def sampleSecrets : GkmSecretData :=
  { secrets := AList.singleton sampleIdentifier ⟨some (ascii "s")⟩, master := some ⟨some (ascii "pw")⟩ }

/-- A new keyring, to be unlocked with that password. -/
def sampleTarget : Loading :=
  { collection :=
      { label := none, created := 0, modified := 0, items := ∅, watermark := 0,
        template := initTemplate }
    sdata := some { secrets := ∅, master := some ⟨some (ascii "pw")⟩ } }

theorem sampleTarget_master : ∀ d ∈ sampleTarget.sdata, d.master = sampleSecrets.master := by
  intro d hd
  cases hd
  rfl

theorem sample_written (modified : BitVec 64) (schema : Option CString)
    (h : (resultOf (gkmSecretBinaryWrite sampleGcrypt (sampleCollection modified schema) sampleSecrets
      sampleNonce fun _ _ => true)).map Prod.fst = some .success) :
    ∃ data, gkmSecretBinaryWrite sampleGcrypt (sampleCollection modified schema) sampleSecrets
      sampleNonce (fun _ _ => true) = .ok (.success, data) := by
  obtain ⟨⟨result, data⟩, hw, hresult⟩ := exists_of_resultOf h
  cases hresult
  exact ⟨data, hw⟩

theorem fieldsFit_empty : FieldsFit ∅ where
  count := by decide
  names n hn := by cases hn
  values n v h := by cases h

theorem sample_fits (modified : BitVec 64) (schema : Option CString) :
    CollectionFits sampleGcrypt.md5 (sampleCollection modified schema) sampleSecrets where
  label := by
    rintro s ⟨⟩
    exact ⟨by decide, by decide⟩
  count := by
    change 2 < 2 ^ 32
    decide
  items := by
    intro e he
    obtain rfl := mem_singleton.1 he
    exact
      { label := fun s hs => by cases hs
        secret := fun d hd => by
          cases hd
          decide
        fields := fieldsFit_empty
        acl := Nat.two_pow_pos 32 }
  size := by
    change 85 < 2 ^ 32
    decide

theorem sample_readable (modified : BitVec 64) (schema : Option CString) :
    Readable sampleGcrypt.md5 (sampleCollection modified schema) sampleSecrets where
  fits := sample_fits modified schema
  numbers := by
    intro e he
    obtain rfl := mem_singleton.1 he
    rfl

theorem binary_created_exchanged : ∃ data st',
      gkmSecretBinaryWrite sampleGcrypt (sampleCollection 2 none) sampleSecrets sampleNonce
          (fun _ _ => true) = .ok (.success, data) ∧
        gkmSecretBinaryRead sampleGcrypt sampleTarget data [] = .ok (.success, st') ∧
        (sampleCollection 2 none).created = 1 ∧ st'.collection.created = 2 := by
  obtain ⟨data, hw⟩ := sample_written 2 none (by decide +kernel)
  obtain ⟨master, cipher, padding, encrypted, hwritten⟩ := gkmSecretBinaryWrite_written hw
  have hread := gkmSecretBinaryRead_written sampleGcrypt_inverts hwritten (sample_readable 2 none)
    sampleTarget_master []
  refine ⟨data, _, hw, hread, rfl, ?_⟩
  exact (update_same _ _ _).created

theorem binary_collection_restored_sample : ∃ data st',
      gkmSecretBinaryWrite sampleGcrypt (sampleCollection 1 none) sampleSecrets sampleNonce
          (fun _ _ => true) = .ok (.success, data) ∧
        gkmSecretBinaryRead sampleGcrypt sampleTarget data [] = .ok (.success, st') ∧
        SameHeader (sampleCollection 1 none) st'.collection := by
  obtain ⟨data, hw⟩ := sample_written 1 none (by decide +kernel)
  obtain ⟨st', hst', hsame⟩ := (binary_collection_restored_iff sampleGcrypt_inverts hw
    (sample_readable 1 none) sampleTarget_master []).2
    ⟨rfl, rfl, rfl⟩
  exact ⟨data, st', hw, hst', hsame⟩

end MateKeyring.Secret
