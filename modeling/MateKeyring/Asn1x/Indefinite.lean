import MateKeyring.Asn1x.Headers
import MateKeyring.Asn1x.Filling

/-!
# Indefinite lengths

A `Ber` is an element of BER, of which any part may have an indefinite length.
`anode_decode_indefinite_len` looks for the end-of-contents octets of such an element. For an element of an
indefinite length among the contents it calls itself, and goes on with the octets that were found: it takes
the end-of-contents octets of the inner element for those of the outer one. `indefinite_right_iff` says that
the right ones are found exactly if no element directly among the contents is of an indefinite length (and
the tags there can be read, and the sizes are an `int`).
-/

set_option autoImplicit false

namespace MateKeyring.Asn1x

open Lib Accumulate List

variable {n : Nat} {data more : Bytes} {cls : UInt8} {node node' : Node} {tlv tlv' : Atlv}
  {tag : Nat}

/-! ## Elements -/

/-- An element of BER: its identifier octets, its length octets where the length is definite, and its
contents. -/
inductive Ber where
  | primitive (id len content : Bytes)
  | constructed (id len : Bytes) (items : List Ber)
  | indefinite (id : Bytes) (items : List Ber)

namespace Ber

/-- The end-of-contents octets. -/
def endOfContents : Bytes := [0x00, 0x00]

mutual

/-- The octets of an element. -/
def bytes : Ber → Bytes
  | primitive id len content => id ++ (len ++ content)
  | .constructed id len items => id ++ (len ++ bytesList items)
  | .indefinite id items => id ++ (0x80 :: (bytesList items ++ endOfContents))

/-- The octets of some elements, one after the other. -/
def bytesList : List Ber → Bytes
  | [] => []
  | item :: items => item.bytes ++ bytesList items

end

/-- The identifier octets. -/
def id : Ber → Bytes
  | primitive id _ _ => id
  | .constructed id _ _ => id
  | .indefinite id _ => id

/-- The length octets. -/
def lengthPart : Ber → Bytes
  | primitive _ len _ => len
  | .constructed _ len _ => len
  | .indefinite _ _ => [0x80]

/-- What follows the header. -/
def body : Ber → Bytes
  | primitive _ _ content => content
  | .constructed _ _ items => bytesList items
  | .indefinite _ items => bytesList items ++ endOfContents

/-- The length of the contents, `-1` where it is indefinite. -/
def len : Ber → Int
  | primitive _ _ content => content.length
  | .constructed _ _ items => (bytesList items).length
  | .indefinite _ _ => -1

/-- Whether the length is definite. -/
def IsDefinite (e : Ber) : Prop := 0 ≤ e.len

instance (e : Ber) : Decidable e.IsDefinite := inferInstanceAs (Decidable (0 ≤ e.len))

/-- Whether the contents are elements. -/
def structured : Ber → Bool
  | primitive _ _ _ => false
  | .constructed _ _ _ => true
  | .indefinite _ _ => true

/-- Identifier octets, which are not those of the end of contents. -/
def IdentifierOf (structured : Bool) (id : Bytes) : Prop :=
  ∃ cls tag, tagOctets id = some (cls, tag, id.length) ∧ (cls &&& asn1ClassStructured != 0) = structured ∧
    (cls = asn1ClassUniversal → tag ≠ 0)

mutual

/-- An element is well formed: its identifier octets are, and its length octets denote the length of its
contents. -/
def WellFormed : Ber → Prop
  | primitive id len content =>
    IdentifierOf false id ∧ lengthOctets len = some ((content.length : Int), len.length)
  | .constructed id len items =>
    IdentifierOf true id ∧ lengthOctets len = some (((bytesList items).length : Int), len.length) ∧
      WellFormedList items
  | .indefinite id items => IdentifierOf true id ∧ WellFormedList items

def WellFormedList : List Ber → Prop
  | [] => True
  | item :: items => item.WellFormed ∧ WellFormedList items

end

theorem bytes_eq (e : Ber) : e.bytes = e.id ++ (e.lengthPart ++ e.body) := by
  cases e with
  | primitive id len content => rw [bytes, Ber.id, lengthPart, body]
  | constructed id len items => rw [bytes, Ber.id, lengthPart, body]
  | indefinite id items =>
    rw [bytes, Ber.id, lengthPart, body]
    rfl

variable {e : Ber}

theorem WellFormed.identifier (h : e.WellFormed) : IdentifierOf e.structured e.id := by
  cases e with
  | primitive id len content =>
    rw [WellFormed] at h
    exact h.1
  | constructed id len items =>
    rw [WellFormed] at h
    exact h.1
  | indefinite id items =>
    rw [WellFormed] at h
    exact h.1

/-- The length octets denote the length. -/
theorem WellFormed.length (h : e.WellFormed) :
    lengthOctets e.lengthPart = some (e.len, e.lengthPart.length) := by
  cases e with
  | primitive id len content =>
    rw [WellFormed] at h
    exact h.2
  | constructed id len items =>
    rw [WellFormed] at h
    exact h.2.1
  | indefinite id items => rfl

theorem len_of_isDefinite (h : e.IsDefinite) : e.len = e.body.length := by
  cases e with
  | primitive id len content => rfl
  | constructed id len items => rfl
  | indefinite id items => exact absurd h (show ¬ (0 : Int) ≤ -1 by decide)

theorem len_of_not_isDefinite (h : ¬ e.IsDefinite) : ∃ id items, e = indefinite id items := by
  cases e with
  | primitive id len content => exact absurd (Int.natCast_nonneg _) h
  | constructed id len items => exact absurd (Int.natCast_nonneg _) h
  | indefinite id items => exact ⟨id, items, rfl⟩

end Ber

/-- The tag of identifier octets overflows nowhere so that it would be noticed. -/
def Uncaught : Bytes → Prop
  | [] => True
  | b :: rest => b &&& 0x1f ≠ 0x1f ∨ ¬ Caught 32 128 0 (tagGroups rest).1

instance decidableUncaught : (id : Bytes) → Decidable (Uncaught id)
  | [] => inferInstanceAs (Decidable True)
  | _ :: _ => inferInstanceAs (Decidable (_ ∨ _))

/-! ## Reading a header -/

/-- Octets behind the end of a long tag do not matter. -/
theorem tagGroups_append {octets : Bytes} (h : (tagGroups octets).2 = true) (more : Bytes) :
    tagGroups (octets ++ more) = tagGroups octets := by
  have hself : (octets ++ more).take octets.length = octets := take_left
  have htake := @tagGroups_take (octets ++ more) octets.length (by rw [hself]; exact h)
  rw [hself] at htake
  exact htake.symm

/-- A long tag that ends has an octet for each of its groups. -/
theorem tagGroups_take_of_le {octets : Bytes} {k : Nat} (h : (tagGroups octets).2 = true)
    (hk : (tagGroups octets).1.length ≤ k) : tagGroups (octets.take k) = tagGroups octets := by
  induction octets generalizing k with
  | nil => exact absurd h Bool.false_ne_true
  | cons b octets ih =>
    rw [tagGroups] at h hk ⊢
    cases k with
    | zero =>
      split at hk
      · exact absurd hk (Nat.not_succ_le_zero _)
      · exact absurd hk (Nat.not_succ_le_zero _)
    | succ k =>
      rw [take_succ_cons, tagGroups]
      split
      · rename_i hgoes
        rw [if_pos hgoes] at h hk
        rw [ih h (Nat.le_of_succ_le_succ hk)]
      · rfl

/-- A long tag that is cut off does not end. -/
theorem tagGroups_take_of_lt {octets : Bytes} {k : Nat} (hk : k < (tagGroups octets).1.length) :
    (tagGroups (octets.take k)).2 = false := by
  induction octets generalizing k with
  | nil => exact absurd hk (Nat.not_lt_zero _)
  | cons b octets ih =>
    cases k with
    | zero => rfl
    | succ k =>
      rw [tagGroups] at hk
      rw [take_succ_cons, tagGroups]
      split
      · rename_i hgoes
        rw [if_pos hgoes] at hk
        exact ih (Nat.lt_of_succ_lt_succ hk)
      · rename_i hlast
        rw [if_neg hlast] at hk
        exact absurd hk (by simp)

variable {id : Bytes}

/-- The identifier octets are read if they are inside of the bounds and no overflow is noticed. -/
theorem decodeClsTag_id (hid : tagOctets id = some (cls, tag, id.length))
    (more : Bytes) (hn : n ≤ (id ++ more).length) :
    anodeDecodeClsTag (id ++ more) n =
      if 2 ≤ gint n ∧ id.length ≤ gint n ∧ Uncaught id then .ok (some (cls, (gint tag).toNat, id.length))
      else .ok none := by
  have hle := gint_le n
  rcases Int.lt_or_le (gint n) 2 with hfew | htwo
  · rw [anodeDecodeClsTag, if_pos hfew, if_neg (by omega)]
  · obtain ⟨k, hk⟩ : ∃ k : Nat, gint n = (k + 1 : Nat) := ⟨(gint n).toNat - 1, by omega⟩
    cases id with
    | nil => cases hid
    | cons b rest =>
      rw [tagOctets] at hid
      rw [cons_append] at hn ⊢
      have hdecode := decodeClsTag_eq b (rest ++ more) hk (by omega)
      rw [hdecode, length_cons]
      rw [length_cons, length_append] at hn
      by_cases hshort : b &&& 0x1f ≠ 0x1f
      · rw [if_pos hshort] at hid
        obtain ⟨rfl, hrest⟩ := Prod.mk.inj (Option.some.inj hid)
        obtain ⟨rfl, hlength⟩ := Prod.mk.inj hrest
        have hsmall : gint (b &&& 0x1f).toNat = (b &&& 0x1f).toNat := by
          apply gint_of_lt
          have := (b &&& 0x1f).toNat_lt
          omega
        rw [length_cons] at hlength
        rw [if_pos hshort, if_pos ⟨htwo, by omega, .inl hshort⟩, hsmall, Int.toNat_natCast, ← hlength]
      · rw [if_neg hshort] at hid
        cases hends : (tagGroups rest).2 with
        | false =>
          rw [hends] at hid
          cases hid
        | true =>
          rw [hends, if_pos rfl] at hid
          obtain ⟨rfl, hrest⟩ := Prod.mk.inj (Option.some.inj hid)
          obtain ⟨rfl, hlength⟩ := Prod.mk.inj hrest
          rw [length_cons] at hlength
          have happend := tagGroups_append hends more
          rw [if_neg hshort]
          rcases Nat.lt_or_ge k (tagGroups rest).1.length with hcut | hroom
          · -- the tag goes on behind the octets that count, of which there are more
            have hopen := @tagGroups_take_of_lt (rest ++ more) k (by rw [happend]; exact hcut)
            have hout : ¬ (2 ≤ gint n ∧ ((rest.length + 1 : Nat) : Int) ≤ gint n ∧ Uncaught (b :: rest)) := by
              rintro ⟨-, hinside, -⟩
              omega
            have hmore : ¬ (rest ++ more).length ≤ k := by
              rw [length_append]
              omega
            rw [if_neg hout, hopen, if_neg Bool.false_ne_true, if_neg hmore, ite_self]
          · have htake := @tagGroups_take_of_le (rest ++ more) k (by rw [happend]; exact hends)
              (by rw [happend]; exact hroom)
            rw [htake, happend, hends, if_pos rfl]
            by_cases hcaught : Caught 32 128 0 (tagGroups rest).1
            · rw [if_pos hcaught, if_neg]
              rintro ⟨-, -, hlong | huncaught⟩
              · exact hshort hlong
              · exact huncaught hcaught
            · rw [if_neg hcaught, if_pos ⟨htwo, by omega, .inr hcaught⟩, hlength]

variable {len : Int}

/-- The length octets are read if they are inside of the bounds. -/
theorem decodeLength_octets {octets : Bytes}
    (h : lengthOctets octets = some (len, octets.length)) (hlt : len < 2 ^ 31) (more : Bytes)
    (hn : n ≤ (octets ++ more).length) (hroom : octets.length ≤ gint n) :
    anodeDecodeLength (octets ++ more) n = .ok (len, octets.length) := by
  have hle := gint_le n
  cases octets with
  | nil => cases h
  | cons b rest =>
    rw [lengthOctets] at h
    rw [cons_append, length_cons, length_append] at hn
    rw [length_cons] at hroom
    have hdecode := @decodeLength_eq b (rest ++ more) n (by omega) (by rw [length_append]; omega)
    rw [cons_append, hdecode]
    by_cases hshort : b &&& 128 = 0
    · rw [if_pos hshort] at h
      obtain ⟨rfl, hlength⟩ := Prod.mk.inj (Option.some.inj h)
      rw [if_pos hshort, ← hlength]
    · rw [if_neg hshort] at h
      by_cases hindefinite : b &&& 0x7f = 0
      · rw [if_pos hindefinite] at h
        obtain ⟨rfl, hlength⟩ := Prod.mk.inj (Option.some.inj h)
        rw [if_neg hshort, if_pos hindefinite, ← hlength]
      · rw [if_neg hindefinite] at h
        split at h
        · obtain ⟨rfl, hlength⟩ := Prod.mk.inj (Option.some.inj h)
          rw [length_cons] at hlength
          have hcount : (b &&& 0x7f).toNat = rest.length := by omega
          have hmin : min (b &&& 0x7f).toNat (gint n - 1).toNat = rest.length := by omega
          rw [hcount, take_length] at hlt
          have hvalue := value_eq_decode 0 rest
          rw [Nat.zero_mul, Nat.zero_add] at hvalue
          have hcaught : ¬ Caught 32 256 0 (rest.map UInt8.toNat) :=
            not_caught_of_lt (by decide) (by decide) (by rw [hvalue]; exact_mod_cast hlt)
          have hword := (gint_eq_self_iff (BigEndian.decode rest)).2 (by exact_mod_cast hlt)
          rw [if_neg hshort, if_neg hindefinite]
          rw [hmin, take_left, if_neg hcaught, hword, hcount, take_length, length_cons,
            Nat.add_comm 1]
        · cases h

theorem tagGroups_lt (octets : Bytes) : ∀ d ∈ (tagGroups octets).1, d < 256 := by
  induction octets with
  | nil => exact fun d hd => absurd hd not_mem_nil
  | cons b octets ih =>
    have hb := (b &&& 0x7f).toNat_lt
    rw [tagGroups]
    split
    · rw [forall_mem_cons]
      exact ⟨hb, ih⟩
    · rw [forall_mem_singleton]
      exact hb

/-- A tag that is read as zero is zero. -/
theorem tag_ne_zero (hid : tagOctets id = some (cls, tag, id.length))
    (huncaught : Uncaught id) (hne : tag ≠ 0) :
    (gint tag).toNat ≠ 0 := by
  cases id with
  | nil => cases hid
  | cons b rest =>
    rw [tagOctets] at hid
    by_cases hshort : b &&& 0x1f ≠ 0x1f
    · rw [if_pos hshort] at hid
      obtain ⟨-, hrest⟩ := Prod.mk.inj (Option.some.inj hid)
      obtain ⟨rfl, -⟩ := Prod.mk.inj hrest
      have := (b &&& 0x1f).toNat_lt
      rw [gint_of_lt (by omega), Int.toNat_natCast]
      exact hne
    · rw [if_neg hshort] at hid
      split at hid
      · obtain ⟨-, hrest⟩ := Prod.mk.inj (Option.some.inj hid)
        obtain ⟨rfl, -⟩ := Prod.mk.inj hrest
        have hcaught := huncaught.resolve_left hshort
        have hgroups : ∀ d ∈ (tagGroups rest).1, d < 2 ^ (32 - 1) := by
          intro d hd
          have := tagGroups_lt rest d hd
          omega
        have hpos := wordOf_pos (by decide) hcaught hgroups (Nat.pos_of_ne_zero hne)
        have : 0 < gint (value 128 0 (tagGroups rest).1) := hpos
        omega
      · cases hid

/-- The header of an element inside of the bounds is read unless the overflow of its tag is noticed, and it is
not taken for the end of contents. -/
theorem decodeClsTagLen_ber {e : Ber} (h : e.WellFormed) (more : Bytes)
    (hn : n ≤ (e.bytes ++ more).length) (hroom : e.bytes.length ≤ gint n) :
    ∃ cls tag, (cls &&& asn1ClassStructured != 0) = e.structured ∧
      anodeDecodeClsTagLen (e.bytes ++ more) n =
        (if Uncaught e.id then .ok (some ⟨cls, tag, e.id.length + e.lengthPart.length, e.len⟩) else .ok none) ∧
      (Uncaught e.id → anodeCheckIndefiniteEnd ⟨cls, tag, e.id.length + e.lengthPart.length, e.len⟩ = false) := by
  have hle := gint_le n
  have hhigh : gint n < 2 ^ 31 := @Int.bmod_lt (n : Int) (2 ^ 32) (by decide)
  obtain ⟨cls, tag, hid, hstructured, hreserved⟩ := h.identifier
  have hlength := h.length
  have hlengthPos := lengthOctets_pos hlength
  have hidPos : 0 < e.id.length := by
    cases hnil : e.id with
    | nil =>
      rw [hnil] at hid
      exact nomatch hid
    | cons b rest => exact Nat.succ_pos _
  have hbytes := congrArg List.length e.bytes_eq
  rw [length_append, length_append] at hbytes
  have htag := decodeClsTag_id hid (e.lengthPart ++ (e.body ++ more)) (n := n) (by
    rw [e.bytes_eq, append_assoc, append_assoc] at hn
    exact hn)
  have hcontent : e.len < 2 ^ 31 ∧ (0 ≤ e.len → e.len = e.body.length) := by
    by_cases hdefinite : e.IsDefinite
    · have := Ber.len_of_isDefinite hdefinite
      omega
    · have : ¬ 0 ≤ e.len := hdefinite
      omega
  have hlen := decodeLength_octets hlength hcontent.1 (e.body ++ more) (n := n - e.id.length) (by
    rw [length_append] at hn ⊢
    rw [length_append]
    omega) (by
    rw [gint_sub (by omega)]
    omega)
  refine ⟨cls, (gint tag).toNat, hstructured, ?_, ?_⟩
  · rw [anodeDecodeClsTagLen, e.bytes_eq, append_assoc, append_assoc, htag]
    by_cases huncaught : Uncaught e.id
    · rw [if_pos ⟨by omega, by omega, huncaught⟩, if_pos huncaught, ok_bind]
      dsimp only
      rw [cAssert_of_true (by omega), ok_bind, drop_left, hlen, ok_bind]
      rw [if_neg, if_neg]
      · rfl
      · rintro ⟨hnonneg, hover⟩
        have := hcontent.2 hnonneg
        omega
      · by_cases hdefinite : e.IsDefinite
        · have : 0 ≤ e.len := hdefinite
          omega
        · obtain ⟨id, items, rfl⟩ := Ber.len_of_not_isDefinite hdefinite
          exact Int.lt_irrefl (-1)
    · rw [if_neg (fun hall => huncaught hall.2.2), if_neg huncaught]
      rfl
  · intro huncaught
    rw [anodeCheckIndefiniteEnd]
    by_cases hcls : cls = asn1ClassUniversal
    · have hne := tag_ne_zero hid huncaught (hreserved hcls)
      simp [hne]
    · simp [hcls]

/-- The end-of-contents octets are read. -/
theorem decodeClsTagLen_end (more : Bytes) (hn : 2 ≤ gint n) (hn' : n ≤ more.length + 2) :
    anodeDecodeClsTagLen (0x00 :: 0x00 :: more) n = .ok (some ⟨0x00, 0, 2, 0⟩) := by
  have hle := gint_le n
  obtain ⟨k, hk⟩ : ∃ k : Nat, gint n = (k + 1 : Nat) := ⟨(gint n).toNat - 1, by omega⟩
  have htag := decodeClsTag_eq 0x00 (0x00 :: more) hk (by omega)
  have hleft : gint (n - 1 : Nat) = gint n - 1 := gint_sub (by omega)
  have hlen := decodeLength_eq 0x00 more (n := n - 1) (by omega) (by omega)
  rw [if_pos (by decide)] at htag hlen
  rw [anodeDecodeClsTagLen, htag, ok_bind]
  dsimp only
  rw [cAssert_of_true (by omega), ok_bind, drop_succ_cons, drop_zero, hlen, ok_bind]
  rw [if_neg (by decide), if_neg]
  · rfl
  · have : ((0x00 : UInt8).toNat : Int) = 0 := rfl
    omega

/-! ## Looking for the end -/

variable {result : Nat}

/-- One round of the loop at an element. -/
theorem scan_item {e : Ber} (h : e.WellFormed) {n : Nat} (hdata : data.drop result = e.bytes ++ more)
    (hn : n ≤ data.length) (hroom : (result + e.bytes.length : Nat) ≤ gint n) (fuel : Nat) :
    anodeDecodeIndefiniteLen (fuel + 1) data n result =
      if Uncaught e.id then
        if e.IsDefinite then anodeDecodeIndefiniteLen fuel data n (result + e.bytes.length)
        else do
          match ← anodeDecodeIndefiniteLen fuel (data.drop (result + (e.id.length + e.lengthPart.length)))
              (n - (result + (e.id.length + e.lengthPart.length))) 0 with
          | none => pure none
          | some len =>
            if gint n < ((result + (e.id.length + e.lengthPart.length) + len : Nat) : Int) then pure none
            else anodeDecodeIndefiniteLen fuel data n (result + (e.id.length + e.lengthPart.length) + len)
      else .ok none := by
  have hle := gint_le n
  have hbytes := congrArg List.length e.bytes_eq
  rw [length_append, length_append] at hbytes
  have hlengthPos := lengthOctets_pos h.length
  have hleft : gint (n - result : Nat) = gint n - result := gint_sub (by omega)
  have hsize := congrArg List.length hdata
  rw [length_drop] at hsize
  obtain ⟨cls, tag, -, hheader, hnotEnd⟩ := decodeClsTagLen_ber h more (n := n - result) (by omega) (by omega)
  have hbefore : (result : Int) < gint n := by omega
  rw [anodeDecodeIndefiniteLen, if_pos hbefore, hdata, hheader]
  by_cases huncaught : Uncaught e.id
  · rw [if_pos huncaught, if_pos huncaught, step_ok, ok_bind]
    dsimp only
    rw [hnotEnd huncaught, if_neg Bool.false_ne_true, if_neg (by omega)]
    by_cases hdefinite : e.IsDefinite
    · have hlen := Ber.len_of_isDefinite hdefinite
      have hplace : result + (e.id.length + e.lengthPart.length) + e.len.toNat = result + e.bytes.length := by
        omega
      rw [if_pos hdefinite, if_neg (by omega), if_neg (by omega), hplace]
    · have hneg : e.len < 0 := Int.not_le.1 hdefinite
      rw [if_neg hdefinite]
      exact (if_pos hneg).trans rfl
  · rw [if_neg huncaught, if_neg huncaught]
    rfl

theorem Ber.length_bytes_indefinite (id : Bytes) (items : List Ber) :
    (Ber.indefinite id items).bytes.length = id.length + 1 + (Ber.bytesList items).length + 2 := by
  rw [Ber.bytes, length_append, length_cons, length_append]
  have hend : Ber.endOfContents.length = 2 := rfl
  omega

variable {items : List Ber}

/-- The contents of an element of an indefinite length. -/
theorem drop_indefinite {data more : Bytes}
    (hdata : data.drop result = (Ber.indefinite id items).bytes ++ more) :
    (data.drop (result + (id.length + 1))).drop 0 = Ber.bytesList items ++ 0x00 :: 0x00 :: more := by
  have hheader : (Ber.indefinite id items).bytes ++ more =
      (id ++ [0x80]) ++ (Ber.bytesList items ++ (Ber.endOfContents ++ more)) := by
    rw [Ber.bytes, append_assoc, append_assoc, cons_append, append_assoc]
    rfl
  have hlength : (id ++ [0x80]).length = id.length + 1 := length_append
  rw [drop_zero, ← drop_drop, hdata, hheader, ← hlength, drop_left]
  rfl

/-- The loop calls itself for an element of an indefinite length, and goes on where that call stopped. -/
theorem scan_indefinite (h : (Ber.indefinite id items).WellFormed) {n : Nat}
    (hdata : data.drop result = (Ber.indefinite id items).bytes ++ more) (hn : n ≤ data.length)
    (hroom : (result + (Ber.indefinite id items).bytes.length : Nat) ≤ gint n) (huncaught : Uncaught id)
    {fuel r : Nat} (hrun : anodeDecodeIndefiniteLen (fuel + 1) data n result = .ok (some r)) :
    ∃ len, anodeDecodeIndefiniteLen fuel (data.drop (result + (id.length + 1)))
        (n - (result + (id.length + 1))) 0 = .ok (some len) ∧
      anodeDecodeIndefiniteLen fuel data n (result + (id.length + 1) + len) = .ok (some r) := by
  have hindefinite : ¬ (Ber.indefinite id items).IsDefinite := show ¬ (0 : Int) ≤ -1 by decide
  rw [scan_item h hdata hn hroom, if_pos (show Uncaught (Ber.indefinite id items).id from huncaught),
    if_neg hindefinite] at hrun
  obtain ⟨found, hinner, hrun⟩ := bind_eq_ok.1 hrun
  cases found with
  | none => exact nomatch hrun
  | some len =>
    refine ⟨len, hinner, ?_⟩
    dsimp only at hrun
    split at hrun
    · exact nomatch hrun
    · exact hrun

/-- The loop ends at end-of-contents octets. -/
theorem scan_end {n : Nat} (hdata : data.drop result = 0x00 :: 0x00 :: more) (hn : n ≤ data.length)
    (hroom : ((result + 2 : Nat) : Int) ≤ gint n) (fuel : Nat) :
    anodeDecodeIndefiniteLen (fuel + 1) data n result = .ok (some result) := by
  have hle := gint_le n
  have hleft : gint (n - result : Nat) = gint n - result := gint_sub (by omega)
  have hsize := congrArg List.length hdata
  rw [length_drop, length_cons, length_cons] at hsize
  have hheader := decodeClsTagLen_end more (n := n - result) (by omega) (by omega)
  rw [anodeDecodeIndefiniteLen, if_pos (by omega), hdata, hheader, step_ok, ok_bind]
  rfl

/-- Elements of definite lengths are skipped. -/
theorem scan_definite (items : List Ber) (hwf : Ber.WellFormedList items)
    (hitems : ∀ item ∈ items, item.IsDefinite ∧ Uncaught item.id) (data more : Bytes) (n result fuel : Nat)
    (hdata : data.drop result = Ber.bytesList items ++ 0x00 :: 0x00 :: more) (hn : n ≤ data.length)
    (hroom : ((result + (Ber.bytesList items).length + 2 : Nat) : Int) ≤ gint n) (hfuel : items.length < fuel) :
    anodeDecodeIndefiniteLen fuel data n result = .ok (some (result + (Ber.bytesList items).length)) := by
  induction items generalizing result fuel with
  | nil =>
    obtain ⟨fuel, rfl⟩ : ∃ k, fuel = k + 1 := ⟨fuel - 1, by omega⟩
    rw [Ber.bytesList, length_nil] at hroom
    rw [Ber.bytesList, nil_append] at hdata
    rw [Ber.bytesList, length_nil]
    exact scan_end hdata hn hroom fuel
  | cons item items ih =>
    obtain ⟨fuel, rfl⟩ : ∃ k, fuel = k + 1 := ⟨fuel - 1, by omega⟩
    rw [Ber.WellFormedList] at hwf
    rw [forall_mem_cons] at hitems
    obtain ⟨⟨hdefinite, huncaught⟩, hmore⟩ := hitems
    rw [Ber.bytesList, append_assoc] at hdata
    rw [Ber.bytesList, length_append] at hroom ⊢
    have hnext : data.drop (result + item.bytes.length) = Ber.bytesList items ++ 0x00 :: 0x00 :: more := by
      rw [← drop_drop, hdata, drop_left]
    have hlater := ih hwf.2 hmore (result + item.bytes.length) fuel hnext
      (by rw [Nat.add_assoc result]; exact hroom) (Nat.lt_of_succ_lt_succ hfuel)
    rw [scan_item hwf.1 hdata hn (by omega), if_pos huncaught, if_pos hdefinite, hlater, Nat.add_assoc]

/-- Wherever the loop ends there are end-of-contents octets; at the right ones it ends only if all elements
on the way are of definite lengths. -/
theorem scan_stop (fuel : Nat) (items : List Ber) (hwf : Ber.WellFormedList items) (data more : Bytes)
    (n result r : Nat) (hdata : data.drop result = Ber.bytesList items ++ 0x00 :: 0x00 :: more)
    (hn : n ≤ data.length) (hroom : ((result + (Ber.bytesList items).length + 2 : Nat) : Int) ≤ gint n)
    (hrun : anodeDecodeIndefiniteLen fuel data n result = .ok (some r)) :
    (∃ more', data.drop r = 0x00 :: 0x00 :: more') ∧ r ≤ result + (Ber.bytesList items).length ∧
      (r = result + (Ber.bytesList items).length → ∀ item ∈ items, item.IsDefinite ∧ Uncaught item.id) := by
  -- the loop calls itself for an inner element, too, so that the induction is on the calls
  induction fuel generalizing items data more n result r with
  | zero => exact nomatch hrun
  | succ fuel ih =>
    cases items with
    | nil =>
      rw [Ber.bytesList, nil_append] at hdata
      rw [Ber.bytesList, length_nil] at hroom
      rw [scan_end hdata hn hroom] at hrun
      cases hrun
      exact ⟨⟨more, hdata⟩, Nat.le_add_right _ _, fun _ item hitem => absurd hitem not_mem_nil⟩
    | cons item items =>
      rw [Ber.WellFormedList] at hwf
      rw [Ber.bytesList, append_assoc] at hdata
      rw [Ber.bytesList, length_append] at hroom ⊢
      by_cases huncaught : Uncaught item.id
      · by_cases hdefinite : item.IsDefinite
        · rw [scan_item hwf.1 hdata hn (by omega), if_pos huncaught, if_pos hdefinite] at hrun
          have hnext : data.drop (result + item.bytes.length) =
              Ber.bytesList items ++ 0x00 :: 0x00 :: more := by
            rw [← drop_drop, hdata, drop_left]
          obtain ⟨hend, hle, hall⟩ := ih items hwf.2 data more n (result + item.bytes.length) r hnext hn
            (by rw [Nat.add_assoc result]; exact hroom) hrun
          refine ⟨hend, by omega, fun heq => forall_mem_cons.2 ⟨⟨hdefinite, huncaught⟩, ?_⟩⟩
          exact hall (by omega)
        · obtain ⟨id, inner, rfl⟩ := Ber.len_of_not_isDefinite hdefinite
          obtain ⟨len, hinner, hlater⟩ := scan_indefinite hwf.1 hdata hn (by omega) huncaught hrun
          have hcontents := drop_indefinite hdata
          have hbytes := Ber.length_bytes_indefinite id inner
          have hbound : result + (id.length + 1) + (Ber.bytesList inner).length + 2 ≤
              result + (Ber.indefinite id inner).bytes.length := by omega
          rw [Ber.WellFormed] at hwf
          generalize (Ber.indefinite id inner).bytes.length = size at hroom hbytes hbound ⊢
          generalize result + (id.length + 1) = start at hinner hlater hcontents hbound
          have hle := gint_le n
          have hleft : gint (n - start : Nat) = gint n - start := gint_sub (by omega)
          have hsize : n - start ≤ (data.drop start).length := by
            rw [length_drop]
            omega
          obtain ⟨⟨more', hfound⟩, hinside, -⟩ := ih inner hwf.1.2 (data.drop start) _ (n - start) 0 len
            hcontents hsize (by omega) hinner
          -- the end that was found is that of the inner element, and the loop stops there
          rw [drop_drop] at hfound
          cases fuel with
          | zero => exact nomatch hlater
          | succ fuel =>
            rw [scan_end hfound hn (by omega)] at hlater
            cases hlater
            exact ⟨⟨more', hfound⟩, by omega, fun heq => by omega⟩
      · rw [scan_item hwf.1 hdata hn (by omega), if_neg huncaught] at hrun
        exact nomatch hrun

/-! ## Nothing is read behind the octets that count -/

variable {cb : Nat}

theorem decodeClsTag_le {data : Bytes} {tag : Nat}
    (h : anodeDecodeClsTag data n = .ok (some (cls, tag, cb))) : cb ≤ gint n := by
  rcases Int.lt_or_le (gint n) 2 with hfew | htwo
  · rw [anodeDecodeClsTag, if_pos hfew] at h
    cases h
  · obtain ⟨k, hk⟩ : ∃ k : Nat, gint n = (k + 1 : Nat) := ⟨(gint n).toNat - 1, by omega⟩
    cases data with
    | nil =>
      have hpeek : peek [] 0 = .error .outOfBounds := rfl
      rw [anodeDecodeClsTag, if_neg (by omega), hpeek] at h
      cases h
    | cons b rest =>
      have hgroups := length_tagGroups_le (rest.take k)
      rw [length_take] at hgroups
      rw [decodeClsTag_eq b rest hk (by omega)] at h
      split at h
      · have := congrArg (fun t => t.2.2) (Option.some.inj (Except.ok.inj h))
        dsimp only at this
        omega
      · split at h
        · cases h
        · split at h
          · have := congrArg (fun t => t.2.2) (Option.some.inj (Except.ok.inj h))
            dsimp only at this
            omega
          · split at h
            · cases h
            · cases h

theorem longLength_le {m : Int} {k : Nat} {rest : Bytes} {punt : Nat} {acc : Int}
    (h : longLength m k rest punt acc = .ok (len, cb)) (hpunt : punt ≤ m) : cb ≤ m := by
  induction rest generalizing punt acc with
  | nil =>
    rw [longLength] at h
    split at h
    · cases h
    · cases h
      exact hpunt
  | cons b rest ih =>
    rw [longLength] at h
    split at h
    · rename_i hinside
      dsimp only at h
      split at h
      · cases h
        omega
      · exact ih h (by omega)
    · cases h
      exact hpunt

theorem decodeLength_le {data : Bytes} (hn : 0 ≤ gint n)
    (h : anodeDecodeLength data n = .ok (len, cb)) : cb ≤ gint n := by
  rw [anodeDecodeLength] at h
  split at h
  · cases h
    exact hn
  · obtain ⟨b, -, h⟩ := bind_eq_ok.1 h
    split at h
    · cases h
      omega
    · split at h
      · cases h
        omega
      · exact longLength_le h (by omega)

/-- A header ends where the octets that count end, at the latest. -/
theorem decodeClsTagLen_le {data : Bytes} {h : Header}
    (hread : anodeDecodeClsTagLen data n = .ok (some h)) : h.off ≤ gint n := by
  rw [anodeDecodeClsTagLen] at hread
  obtain ⟨tag, htag, hread⟩ := bind_eq_ok.1 hread
  cases tag with
  | none => cases hread
  | some tag =>
    obtain ⟨cls, tag, cb1⟩ := tag
    have hcb1 := decodeClsTag_le htag
    have hleft := gint_sub hcb1
    obtain ⟨_, -, hread⟩ := bind_eq_ok.1 hread
    obtain ⟨⟨len, cb2⟩, hlen, hread⟩ := bind_eq_ok.1 hread
    have hcb2 := decodeLength_le (by omega) hlen
    split at hread
    · cases hread
    · split at hread
      · cases hread
      · cases hread
        dsimp only
        omega

/-- So does the search for the end. -/
theorem scan_le (fuel : Nat) (data : Bytes) (n result r : Nat)
    (hrun : anodeDecodeIndefiniteLen fuel data n result = .ok (some r)) : r ≤ gint n := by
  induction fuel generalizing result with
  | zero => exact nomatch hrun
  | succ fuel ih =>
    rw [anodeDecodeIndefiniteLen] at hrun
    split at hrun
    · rename_i hbefore
      obtain ⟨header, -, hrun⟩ := bind_eq_ok.1 hrun
      cases header with
      | none => exact nomatch hrun
      | some h =>
        dsimp only at hrun
        split at hrun
        · cases hrun
          omega
        · split at hrun
          · exact nomatch hrun
          · split at hrun
            · obtain ⟨inner, -, hrun⟩ := bind_eq_ok.1 hrun
              cases inner with
              | none => exact nomatch hrun
              | some len =>
                dsimp only at hrun
                split at hrun
                · exact nomatch hrun
                · exact ih _ hrun
            · split at hrun
              · exact nomatch hrun
              · exact ih _ hrun
    · split at hrun
      · exact nomatch hrun
      · cases hrun
        omega

/-! ## An element in an `ANY` node -/

/-- An `ANY` node without a tag of its own. -/
structure PlainAny (node : Node) : Prop where
  unset : node.Unset
  kind : node.kind = .any
  untagged : node.flags.tag = false

/-- How a structured element is decoded into such a node. -/
theorem decodeForFlags_any {node : Node} (h : PlainAny node) {tlv : Atlv} (hoff : tlv.off ≠ 0)
    (hstructured : tlv.cls &&& asn1ClassStructured ≠ 0) (fuel : Nat) :
    anodeDecodeAnythingForFlags (fuel + 1) node tlv node.flags = (do
      let r ← anodeDecodeStructAny fuel tlv
      if r.1 then anodeDecodeFilled (decide (0 ≤ tlv.len)) tlv.size node r.2 else pure (false, node, r.2)) := by
  have htag : (anodeCalcTagForFlags node node.flags).getD tlv.tag = tlv.tag := by
    rw [anodeCalcTagForFlags, h.untagged, if_neg Bool.false_ne_true, h.kind]
    rfl
  have hexplicit : anodeCalcExplicitForFlags node node.flags = false := by
    rw [anodeCalcExplicitForFlags, h.untagged, Bool.false_and]
  have hmatch : ¬ (tlv.off = 0 ∨ (anodeCalcTagForFlags node node.flags).getD tlv.tag ≠ tlv.tag) := by
    rintro (hzero | hother)
    · exact hoff hzero
    · exact hother htag
  rw [anodeDecodeAnythingForFlags, if_neg hmatch, if_pos hstructured, anodeDecodeStructured, hexplicit,
    if_neg Bool.false_ne_true, anodeDecodeContents, h.kind]
  cases anodeDecodeStructAny fuel tlv with
  | error e => rfl
  | ok r => rfl

theorem tlv_clrTlv (node : Node) : node.clrTlv.tlv = none := by
  cases node
  rfl

/-- A decoder that succeeds and leaves a value took no default. -/
theorem of_decodeAnything {forFlags : Decoder}
    (h : anodeDecodeAnything forFlags node tlv = .ok (true, node', tlv')) (hset : node'.tlv = some tlv') :
    forFlags node tlv node.flags = .ok (true, node', tlv') := by
  rw [anodeDecodeAnything] at h
  obtain ⟨⟨ok, rest⟩, hrun, h⟩ := bind_eq_ok.1 h
  cases ok with
  | true => exact hrun.trans h
  | false =>
    rw [if_neg Bool.false_ne_true, pure_eq_ok, anodeDecodeOptionOrDefault] at h
    split at h
    · have hnode := congrArg (fun r => r.2.1) (Except.ok.inj h)
      dsimp only at hnode
      rw [← hnode, tlv_clrTlv] at hset
      cases hset
    · exact absurd (congrArg Prod.fst (Except.ok.inj h)) Bool.false_ne_true

/-- The end of the contents of an element of an indefinite length, with `rest` behind it, is found, and an
`ANY` node takes the octets of the element and no others. -/
def IndefiniteRight (fuel : Nat) (node : Node) (id : Bytes) (items : List Ber) (rest : Bytes) :
    Prop :=
  anodeDecodeIndefiniteLen fuel (Ber.bytesList items ++ (Ber.endOfContents ++ rest))
      (Ber.bytesList items ++ (Ber.endOfContents ++ rest)).length 0 =
    .ok (some (Ber.bytesList items).length) ∧
  ∃ tlv node' tlv',
    anodeDecodeTlvForData ((Ber.indefinite id items).bytes ++ rest)
      ((Ber.indefinite id items).bytes ++ rest).length = .ok (some tlv) ∧
    anodeDecodeAnything (anodeDecodeAnythingForFlags fuel) node tlv = .ok (true, node', tlv') ∧
    node'.tlv = some tlv' ∧ tlv'.buf.take tlv'.size = (Ber.indefinite id items).bytes

theorem of_finish (h : finish node tlv = .ok (true, node', tlv')) : tlv' = tlv := by
  rw [finish] at h
  obtain ⟨set, -, h⟩ := bind_eq_ok.1 h
  exact (congrArg (fun r => r.2.2) (Except.ok.inj h)).symm

/-- The value of an `ANY` node ends where the octets that count end, at the latest. -/
theorem size_le_of_decodeAny (h : PlainAny node) (hoff : tlv.off ≠ 0)
    (hstructured : tlv.cls &&& asn1ClassStructured ≠ 0)
    (hsize : (0 ≤ tlv.len ∧ tlv.size ≤ gint n) ∨ (tlv.len < 0 ∧ tlv.size = n)) (hinside : tlv.off ≤ gint n)
    {fuel : Nat} (hdecode : anodeDecodeAnythingForFlags (fuel + 1) node tlv node.flags =
      .ok (true, node', tlv')) :
    tlv'.size ≤ gint n := by
  rw [decodeForFlags_any h hoff hstructured, anodeDecodeStructAny] at hdecode
  rcases hsize with ⟨hnonneg, hle⟩ | ⟨hneg, rfl⟩
  · rw [if_neg (Int.not_lt.2 hnonneg), ok_bind] at hdecode
    rw [if_pos rfl, anodeDecodeFilled, if_neg (Int.not_lt.2 hnonneg), decide_eq_true hnonneg] at hdecode
    rw [if_pos rfl] at hdecode
    split at hdecode
    · rw [of_finish hdecode]
      exact hle
    · cases hdecode
  · rw [if_pos hneg] at hdecode
    obtain ⟨⟨ok, found⟩, hscan, hdecode⟩ := bind_eq_ok.1 hdecode
    obtain ⟨_, -, hscan⟩ := bind_eq_ok.1 hscan
    obtain ⟨stopped, hrun, hfound⟩ := bind_eq_ok.1 hscan
    cases stopped with
    | none =>
      cases hfound
      cases hdecode
    | some len =>
      cases hfound
      have hlen := scan_le _ _ _ _ _ hrun
      rw [gint_sub hinside] at hlen
      have hpos : ¬ ((len : Int) < 0) := by omega
      have hnotDefinite : decide (0 ≤ tlv.len) = false := decide_eq_false (Int.not_le.2 hneg)
      rw [if_pos rfl, anodeDecodeFilled, hnotDefinite] at hdecode
      dsimp only at hdecode
      rw [if_neg hpos, if_neg Bool.false_ne_true, Int.toNat_natCast] at hdecode
      obtain ⟨_, -, hdecode⟩ := bind_eq_ok.1 hdecode
      obtain ⟨header, hheader, hdecode⟩ := bind_eq_ok.1 hdecode
      cases header with
      | none => cases hdecode
      | some end' =>
        dsimp only at hdecode
        split at hdecode
        · have hend := decodeClsTagLen_le (of_step hheader)
          rw [gint_sub (by omega)] at hend
          rw [of_finish hdecode]
          dsimp only
          omega
        · cases hdecode

/-- What was found of an element with these identifier octets. -/
theorem of_decodeTlvForData (hid : tagOctets id = some (cls, tag, id.length))
    {more : Bytes} {tlv : Atlv}
    (h : anodeDecodeTlvForData (id ++ (0x80 :: more)) (id ++ (0x80 :: more)).length = .ok (some tlv)) :
    Uncaught id ∧ tlv.cls = cls ∧ tlv.off ≠ 0 ∧ tlv.off ≤ gint (id ++ (0x80 :: more)).length ∧
      ((0 ≤ tlv.len ∧ tlv.size ≤ gint (id ++ (0x80 :: more)).length) ∨
        (tlv.len < 0 ∧ tlv.size = (id ++ (0x80 :: more)).length)) := by
  generalize hn : (id ++ (0x80 :: more)).length = n at h
  have htag := decodeClsTag_id hid (0x80 :: more) (Nat.le_of_eq hn.symm)
  have hidPos : 0 < id.length := by
    cases id with
    | nil => cases hid
    | cons b rest => exact Nat.succ_pos _
  rw [anodeDecodeTlvForData_eq] at h
  obtain ⟨header, hheader, h⟩ := bind_eq_ok.1 h
  cases header with
  | none => cases h
  | some hdr =>
    have hoff := decodeClsTagLen_le hheader
    rw [anodeDecodeClsTagLen, htag] at hheader
    split at hheader
    · rename_i hinside
      obtain ⟨-, hroom, huncaught⟩ := hinside
      rw [ok_bind] at hheader
      obtain ⟨_, -, hheader⟩ := bind_eq_ok.1 hheader
      obtain ⟨⟨len, cb⟩, hlen, hheader⟩ := bind_eq_ok.1 hheader
      have hleft := gint_sub hroom
      rw [drop_left] at hlen
      -- without an octet left the length is zero, otherwise it is indefinite
      have hsaid : (len = 0 ∧ cb = 0) ∨ len = -1 := by
        by_cases hzero : gint (n - id.length : Nat) = 0
        · rw [anodeDecodeLength, if_pos hzero] at hlen
          cases hlen
          exact .inl ⟨rfl, rfl⟩
        · have hlength : n = id.length + (more.length + 1) := by
            rw [← hn, length_append, length_cons]
          have hle := gint_le (n - id.length)
          rw [decodeLength_eq 0x80 more hzero (by omega), if_neg (by decide), if_pos (by decide)] at hlen
          cases hlen
          exact .inr rfl
      split at hheader
      · cases hheader
      · split at hheader
        · cases hheader
        · cases hheader
          cases h
          dsimp only at hoff ⊢
          refine ⟨huncaught, rfl, by omega, hoff, ?_⟩
          rcases hsaid with ⟨rfl, rfl⟩ | rfl
          · refine .inl ⟨Int.le_refl 0, ?_⟩
            rw [if_neg (by decide)]
            simpa using hoff
          · exact .inr ⟨by decide, by rw [if_pos (by decide)]⟩
    · cases hheader

/-- An `ANY` node without a value takes an element whose end was found. -/
theorem decodeForFlags_indefinite {node : Node} (h : PlainAny node) {cls : UInt8} {tag off size len : Nat}
    {buf more : Bytes} (hoff : off ≠ 0) (hstructured : cls &&& asn1ClassStructured ≠ 0)
    (hsize : size ≤ buf.length) (hroom : ((off + len + 2 : Nat) : Int) ≤ gint size) {fuel : Nat}
    (hscan : anodeDecodeIndefiniteLen fuel (buf.drop off) (size - off) 0 = .ok (some len))
    (hend : buf.drop (off + len) = 0x00 :: 0x00 :: more) :
    ∃ node' tlv', anodeDecodeAnythingForFlags (fuel + 1) node
        { cls := cls, tag := tag, off := off, len := -1, buf := buf, size := size } node.flags =
          .ok (true, node', tlv') ∧
      node'.tlv = some tlv' ∧ tlv'.buf = buf ∧ tlv'.size = off + len + 2 := by
  have hle := gint_le size
  have hleft : gint (size - (off + len) : Nat) = gint size - (off + len : Nat) := gint_sub (by omega)
  have hlength := congrArg List.length hend
  rw [length_drop, length_cons, length_cons] at hlength
  have hheader := decodeClsTagLen_end more (n := size - (off + len)) (by omega) (by omega)
  rw [decodeForFlags_any h hoff hstructured, anodeDecodeStructAny]
  dsimp only
  rw [if_pos (by decide), cAssert_of_true (show off ≤ size by omega), step_ok, ok_bind, hscan, ok_bind]
  dsimp only
  rw [pure_eq_ok, ok_bind]
  rw [if_pos rfl, anodeDecodeFilled]
  dsimp only
  rw [if_neg (by omega), if_neg (show ¬ decide ((0 : Int) ≤ -1) = true by decide), Int.toNat_natCast, cAssert_of_true (by omega), step_ok, ok_bind,
    hend, hheader, step_ok, ok_bind]
  dsimp only
  rw [if_pos (by decide), finish, Node.setTlvData, if_pos ⟨h.unset.1, Int.natCast_nonneg _⟩, step_ok, ok_bind]
  exact ⟨_, _, rfl, rfl, rfl, rfl⟩

theorem length_le_bytesList (items : List Ber) (hwf : Ber.WellFormedList items) :
    items.length ≤ (Ber.bytesList items).length := by
  induction items with
  | nil => exact Nat.zero_le _
  | cons item items ih =>
    rw [Ber.WellFormedList] at hwf
    have hrest := ih hwf.2
    have hpos := lengthOctets_pos hwf.1.length
    rw [Ber.bytesList, length_append, length_cons, Ber.bytes_eq, length_append, length_append]
    omega

/-- The element is found, with the end of the bytes as its end. -/
theorem decodeTlvForData_indefinite (hwf : (Ber.indefinite id items).WellFormed)
    (huncaught : Uncaught id) (rest : Bytes)
    (hroom : (Ber.indefinite id items).bytes.length ≤ gint ((Ber.indefinite id items).bytes ++ rest).length) :
    ∃ cls tag, cls &&& asn1ClassStructured ≠ 0 ∧
      anodeDecodeTlvForData ((Ber.indefinite id items).bytes ++ rest)
          ((Ber.indefinite id items).bytes ++ rest).length =
        .ok (some
          { cls := cls, tag := tag, off := id.length + 1, len := -1,
            buf := (Ber.indefinite id items).bytes ++ rest,
            size := ((Ber.indefinite id items).bytes ++ rest).length }) := by
  obtain ⟨cls, tag, hstructured, hheader, -⟩ := decodeClsTagLen_ber hwf rest (Nat.le_refl _) hroom
  refine ⟨cls, tag, bne_iff_ne.1 hstructured, ?_⟩
  rw [anodeDecodeTlvForData_eq, hheader, if_pos (show Uncaught (Ber.indefinite id items).id from huncaught),
    ok_bind]
  rfl

/-- The end of contents is found, and an `ANY` node takes the element, exactly if the element fits into the
bytes (of which an `int` counts), its tag can be read, and all elements directly among its contents are of
definite lengths and have tags that can be read. -/
theorem indefinite_right_iff (fuel : Nat) (node : Node) (h : PlainAny node) (id : Bytes)
    (items : List Ber) (hwf : (Ber.indefinite id items).WellFormed) (rest : Bytes)
    (hfuel : ((Ber.indefinite id items).bytes ++ rest).length < fuel) :
    IndefiniteRight fuel node id items rest ↔
      (Ber.indefinite id items).bytes.length ≤ gint ((Ber.indefinite id items).bytes ++ rest).length ∧
        Uncaught id ∧ ∀ item ∈ items, item.IsDefinite ∧ Uncaught item.id := by
  obtain ⟨fuel, rfl⟩ : ∃ k, fuel = k + 1 := ⟨fuel - 1, by omega⟩
  have hbytes := Ber.length_bytes_indefinite id items
  have hitems : Ber.WellFormedList items := by
    rw [Ber.WellFormed] at hwf
    exact hwf.2
  have hsplit : (Ber.indefinite id items).bytes ++ rest =
      id ++ (0x80 :: (Ber.bytesList items ++ (Ber.endOfContents ++ rest))) := by
    rw [Ber.bytes, append_assoc, cons_append, append_assoc]
  have hcontents : ((Ber.indefinite id items).bytes ++ rest).drop (id.length + 1) =
      Ber.bytesList items ++ (Ber.endOfContents ++ rest) := by
    rw [hsplit, ← drop_drop, drop_left]
    rfl
  have htotal := congrArg List.length hcontents
  rw [length_drop] at htotal
  constructor
  · rintro ⟨hscan, tlv, node', tlv', hfound, hdecode, hset, hwhole⟩
    obtain ⟨cls, tag, hid, hstructured, -⟩ := hwf.identifier
    rw [hsplit] at hfound
    have hid' : tagOctets id = some (cls, tag, id.length) := hid
    obtain ⟨huncaught, hcls, hoff, hinside, hsize⟩ := of_decodeTlvForData hid' hfound
    rw [← hsplit] at hinside hsize
    have hbit : tlv.cls &&& asn1ClassStructured ≠ 0 := by
      rw [hcls]
      exact bne_iff_ne.1 hstructured
    have hend := size_le_of_decodeAny h hoff hbit hsize hinside (of_decodeAnything hdecode hset)
    have hlength := congrArg List.length hwhole
    rw [length_take] at hlength
    have hroom : (Ber.indefinite id items).bytes.length ≤
        gint ((Ber.indefinite id items).bytes ++ rest).length := by omega
    refine ⟨hroom, huncaught, ?_⟩
    have hleft := gint_sub (show ((id.length + 1 : Nat) : Int) ≤
      gint ((Ber.indefinite id items).bytes ++ rest).length by omega)
    rw [htotal] at hleft
    generalize hdata : Ber.bytesList items ++ (Ber.endOfContents ++ rest) = data at hscan hleft
    have hinner : ((0 + (Ber.bytesList items).length + 2 : Nat) : Int) ≤ gint data.length := by
      clear hsize hinside hlength hend hoff
      omega
    obtain ⟨-, -, hall⟩ := scan_stop (fuel + 1) items hitems data rest data.length 0 _
      (drop_zero.trans hdata.symm) (Nat.le_refl _) hinner hscan
    exact hall (Nat.zero_add _).symm
  · rintro ⟨hroom, huncaught, hall⟩
    have hleft := gint_sub (show ((id.length + 1 : Nat) : Int) ≤
      gint ((Ber.indefinite id items).bytes ++ rest).length by omega)
    rw [htotal] at hleft
    have hcount := length_le_bytesList items hitems
    have hlength : ((Ber.indefinite id items).bytes ++ rest).length =
      (Ber.indefinite id items).bytes.length + rest.length := length_append
    have hscan := scan_definite items hitems hall (Ber.bytesList items ++ (Ber.endOfContents ++ rest)) rest
      (Ber.bytesList items ++ (Ber.endOfContents ++ rest)).length 0
    obtain ⟨cls, tag, hstructured, hfound⟩ := decodeTlvForData_indefinite hwf huncaught rest hroom
    refine ⟨?_, ?_⟩
    · rw [hscan (fuel + 1) drop_zero (Nat.le_refl _) (by omega) (by omega), Nat.zero_add]
    · have hinner := hscan fuel drop_zero (Nat.le_refl _) (by omega) (by omega)
      rw [Nat.zero_add, ← htotal, ← hcontents] at hinner
      have hend : ((Ber.indefinite id items).bytes ++ rest).drop
          (id.length + 1 + (Ber.bytesList items).length) = 0x00 :: 0x00 :: rest := by
        rw [← drop_drop, hcontents, drop_left]
        rfl
      obtain ⟨node', tlv', hdecode, hset, hbuf, hsize⟩ := @decodeForFlags_indefinite node h cls tag
        (id.length + 1) _ (Ber.bytesList items).length _ rest (Nat.succ_ne_zero _) hstructured
        (Nat.le_refl _) (by omega) fuel hinner hend
      refine ⟨_, node', tlv', hfound, decodeAnything_of_forFlags hdecode, hset, ?_⟩
      rw [hbuf, hsize, ← hbytes, take_left]

/-- An `ANY` node of its own. -/
def bareAny : Node := .mk { row := { kind := .any } } []

theorem plainAny_bare : PlainAny bareAny := ⟨⟨rfl, rfl⟩, rfl, rfl⟩

/-- An octet string of one octet. -/
def oneOctet : Ber := .primitive [0x04] [0x01] [0xff]

/-- `30 80 04 01 ff 00 00` is taken as it is, whatever follows. -/
theorem indefinite_right_sample : IndefiniteRight 10 bareAny [0x30] [oneOctet] [0x05] := by
  have hinner : oneOctet.WellFormed := by
    rw [oneOctet, Ber.WellFormed]
    exact ⟨⟨0x00, 4, by decide, by decide, by decide⟩, by decide⟩
  have hwf : (Ber.indefinite [0x30] [oneOctet]).WellFormed := by
    rw [Ber.WellFormed, Ber.WellFormedList, Ber.WellFormedList]
    exact ⟨⟨0x20, 16, by decide, by decide, by decide⟩, hinner, trivial⟩
  have hbytes : (Ber.indefinite [0x30] [oneOctet]).bytes = [0x30, 0x80, 0x04, 0x01, 0xff, 0x00, 0x00] := by
    decide
  have hroom : (Ber.indefinite [0x30] [oneOctet]).bytes.length ≤
      gint ((Ber.indefinite [0x30] [oneOctet]).bytes ++ [0x05]).length := by
    rw [hbytes]
    decide
  apply (indefinite_right_iff 10 bareAny plainAny_bare [0x30] [oneOctet] hwf [0x05] (by rw [hbytes]; decide)).2
  refine ⟨hroom, by decide, ?_⟩
  rw [forall_mem_singleton]
  exact ⟨by decide, by decide⟩

/-- In `30 80 30 80 00 00 00 00` the end of the inner element is taken for that of the outer one. -/
theorem nested_indefinite_not_right :
    (Ber.indefinite [0x30] [.indefinite [0x30] []]).WellFormed ∧
      (Ber.indefinite [0x30] [.indefinite [0x30] []]).bytes =
        [0x30, 0x80, 0x30, 0x80, 0x00, 0x00, 0x00, 0x00] ∧
      anodeDecodeIndefiniteLen 10 [0x30, 0x80, 0x00, 0x00, 0x00, 0x00] 6 0 = .ok (some 2) ∧
      ¬ IndefiniteRight 10 bareAny [0x30] [.indefinite [0x30] []] [] := by
  have hid : Ber.IdentifierOf true [0x30] := ⟨0x20, 16, by decide, by decide, by decide⟩
  have hrun : anodeDecodeIndefiniteLen 10 [0x30, 0x80, 0x00, 0x00, 0x00, 0x00] 6 0 = .ok (some 2) := by
    decide +kernel
  refine ⟨?_, by decide, hrun, ?_⟩
  · rw [Ber.WellFormed, Ber.WellFormedList, Ber.WellFormedList, Ber.WellFormed, Ber.WellFormedList]
    exact ⟨hid, ⟨hid, trivial⟩, trivial⟩
  · rintro ⟨hscan, -⟩
    have hscan' : anodeDecodeIndefiniteLen 10 [0x30, 0x80, 0x00, 0x00, 0x00, 0x00] 6 0 = .ok (some 4) := hscan
    rw [hrun] at hscan'
    exact absurd (Option.some.inj (Except.ok.inj hscan')) (by decide)

end MateKeyring.Asn1x
