import MateKeyring.Asn1x.Encode
import MateKeyring.Asn1x.Headers

/-!
# Raw elements

`egg_asn1x_element_length` and `egg_asn1x_element_content` read the same header. The first of them compares
what the header says with the bytes that are there, the second does not: `elementContent_agrees_iff`.
-/

set_option autoImplicit false

namespace MateKeyring.Asn1x

open Lib Accumulate List

/-- `egg_asn1x_element_content`: where the content is and how many bytes it has; `none` is `NULL`. -/
def eggAsn1xElementContent (data : Bytes) : Checked (Option (Nat × Nat)) := do
  match ← anodeDecodeClsTag data data.length with
  | none => pure none
  | some (_, _, cb) => do
      cAssert (cb ≤ data.length)
      let len ← anodeDecodeLength (data.drop cb) (data.length - cb)
      if len.1 < 0 then pure none else pure (some (cb + len.2, len.1.toNat))

/-! ## What a header says -/

/-- The number of the octets of a tag that is read. -/
def tagSize : Bytes → Option Nat
  | [] => none
  | b :: rest =>
    if rest = [] then none
    else if b &&& 0x1f ≠ 0x1f then some 1
    else if Caught 32 128 0 (tagGroups rest).1 then none
    else if (tagGroups rest).2 then some (1 + (tagGroups rest).1.length)
    else none

/-- A long tag that goes on to the end of the octets. -/
def GoesOn : Bytes → Prop
  | [] => False
  | b :: rest =>
    rest ≠ [] ∧ b &&& 0x1f = 0x1f ∧ ¬ Caught 32 128 0 (tagGroups rest).1 ∧ (tagGroups rest).2 = false

/-- The octets of a long tag go on to the end of the bytes. -/
def RunsOff (data : Bytes) : Prop := GoesOn (inside data) ∧ (inside data).length = data.length

/-- The number of the octets of a definite length that is read, and the length, of which `octets` count. -/
def lengthSaid (octets : Bytes) : Bytes → Option (Nat × Nat)
  | [] => some (0, 0)
  | b :: _ =>
    if b &&& 128 = 0 then some (1, b.toNat)
    else if b &&& 0x7f = 0 then none
    else
      let digits := (octets.drop 1).take (b &&& 0x7f).toNat
      if Caught 32 256 0 (digits.map UInt8.toNat) then none
      else some (1 + digits.length, (gint (BigEndian.decode digits)).toNat)

/-- The size of a header, and the size of the content that it says; no length at all says that there is no
content. -/
def headerSays (data : Bytes) : Option (Nat × Nat) :=
  (tagSize (inside data)).bind fun cb =>
    if gint (data.drop cb).length = 0 then some (cb, 0)
    else (lengthSaid (inside (data.drop cb)) (data.drop cb)).map fun said => (cb + said.1, said.2)

/-- The tag that is read has the size that its octets have. -/
theorem decodeClsTag_size (data : Bytes) (h : ¬ RunsOff data) :
    ∃ r, anodeDecodeClsTag data data.length = .ok r ∧ r.map (fun tag => tag.2.2) = tagSize (inside data) ∧
      ∀ cb, tagSize (inside data) = some cb → cb ≤ data.length := by
  have hle := gint_le data.length
  rcases Int.lt_or_le (gint data.length) 2 with hfew | htwo
  · have hlength := length_inside data
    have hnone : tagSize (inside data) = none := by
      generalize inside data = octets at hlength ⊢
      cases octets with
      | nil => rfl
      | cons b rest =>
        rw [length_cons] at hlength
        rw [tagSize, if_pos (length_eq_zero_iff.1 (by omega))]
    refine ⟨none, by rw [anodeDecodeClsTag, if_pos hfew], hnone.symm, fun cb hcb => ?_⟩
    rw [hnone] at hcb
    cases hcb
  · obtain ⟨k, hk⟩ : ∃ k : Nat, gint data.length = (k + 1 : Nat) := ⟨(gint data.length).toNat - 1, by omega⟩
    obtain ⟨b, rest, rfl, hinside⟩ := inside_cons hk
    have hdecode := decodeClsTag_eq b rest hk (by omega)
    have hroom : k ≤ rest.length := by
      rw [hk, length_cons] at hle
      omega
    have hne : rest.take k ≠ [] := by
      apply length_pos_iff.1
      rw [length_take]
      omega
    have hgroups := length_tagGroups_le (rest.take k)
    rw [length_take] at hgroups
    rw [hinside, tagSize, if_neg hne, hdecode, length_cons]
    by_cases hshort : b &&& 0x1f ≠ 0x1f
    · rw [if_pos hshort, if_pos hshort]
      refine ⟨_, rfl, rfl, fun cb hcb => ?_⟩
      cases hcb
      omega
    · rw [if_neg hshort, if_neg hshort]
      by_cases hcaught : Caught 32 128 0 (tagGroups (rest.take k)).1
      · rw [if_pos hcaught, if_pos hcaught]
        exact ⟨_, rfl, rfl, fun cb hcb => by cases hcb⟩
      · rw [if_neg hcaught, if_neg hcaught]
        cases hends : (tagGroups (rest.take k)).2 with
        | true =>
          rw [if_pos rfl, if_pos rfl]
          refine ⟨_, rfl, rfl, fun cb hcb => ?_⟩
          cases hcb
          omega
        | false =>
          -- the octets do not run off, so that there are more than count
          have hover : ¬ rest.length ≤ k := by
            intro hover
            apply h
            rw [RunsOff, hinside, GoesOn]
            refine ⟨⟨hne, not_not.1 hshort, hcaught, hends⟩, ?_⟩
            rw [length_cons, length_cons, length_take]
            omega
          rw [if_neg Bool.false_ne_true, if_neg Bool.false_ne_true, if_neg hover]
          exact ⟨_, rfl, rfl, fun cb hcb => by cases hcb⟩

/-- A tag that runs off is read too far. -/
theorem decodeClsTag_runsOff {data : Bytes} (h : RunsOff data) :
    anodeDecodeClsTag data data.length = .error .outOfBounds := by
  have hlength := length_inside data
  rw [RunsOff] at h
  generalize hoctets : inside data = octets at h hlength
  obtain ⟨hgoes, hall⟩ := h
  cases octets with
  | nil => exact hgoes.elim
  | cons c more =>
    obtain ⟨hne, hlong, hcaught, hends⟩ := hgoes
    have hpos := length_pos_iff.2 hne
    rw [length_cons] at hlength
    obtain ⟨b, rest, rfl, hinside⟩ := @inside_cons data more.length (by omega)
    obtain ⟨rfl, hmore⟩ := List.cons.inj (hoctets.symm.trans hinside)
    have hcount : gint (c :: rest).length = (more.length + 1 : Nat) := by omega
    have hdecode := decodeClsTag_eq c rest hcount hpos
    rw [← hmore, if_neg (not_not.2 hlong), if_neg hcaught, hends, if_neg Bool.false_ne_true] at hdecode
    rw [length_cons, length_cons] at hall
    rw [hdecode, if_pos (by omega)]

/-- The length that is read is the one that is said. -/
theorem decodeLength_said (data : Bytes) :
    ∃ len cb, anodeDecodeLength data data.length = .ok (len, cb) ∧
      (if gint data.length = 0 then some (0, 0) else lengthSaid (inside data) data) =
        if 0 ≤ len then some (cb, len.toNat) else none := by
  have hle := gint_le data.length
  by_cases hzero : gint data.length = 0
  · exact ⟨0, 0, by rw [anodeDecodeLength, if_pos hzero], by rw [if_pos hzero]; rfl⟩
  · cases data with
    | nil => exact absurd rfl hzero
    | cons b rest =>
      have htake := take_inside b rest (b &&& 0x7f).toNat
      have hdecode := decodeLength_eq b rest hzero hle
      rw [if_neg hzero, hdecode, lengthSaid, htake]
      by_cases hshort : b &&& 128 = 0
      · refine ⟨_, _, by rw [if_pos hshort], ?_⟩
        rw [if_pos hshort, if_pos (Int.natCast_nonneg _), Int.toNat_natCast]
      · rw [if_neg hshort, if_neg hshort]
        by_cases hindefinite : b &&& 0x7f = 0
        · refine ⟨_, _, by rw [if_pos hindefinite], ?_⟩
          rw [if_pos hindefinite, if_neg (by decide)]
        · rw [if_neg hindefinite, if_neg hindefinite]
          generalize hdigits : rest.take (min (b &&& 0x7f).toNat (gint (b :: rest).length - 1).toNat) = digits
          by_cases hcaught : Caught 32 256 0 (digits.map UInt8.toNat)
          · refine ⟨_, _, by rw [if_pos hcaught], ?_⟩
            rw [if_pos hcaught, if_neg (by decide)]
          · have hnonneg : 0 ≤ gint (BigEndian.decode digits) := by
              have hvalue := value_eq_decode 0 digits
              have h := wordOf_nonneg hcaught (Int.le_refl 0)
              rw [hvalue, Nat.zero_mul, Nat.zero_add] at h
              exact h
            refine ⟨_, _, by rw [if_neg hcaught], ?_⟩
            rw [if_neg hcaught, if_pos hnonneg]

/-! ## The helpers -/

/-- The length behind the tag is indefinite. -/
def Indefinite (data : Bytes) : Prop :=
  ∃ cb, tagSize (inside data) = some cb ∧ (inside data)[cb]? = some 0x80

/-- Both helpers return; the content is inside of the bytes and ends where the element does; and there is a
content exactly if there is an element of a definite length. -/
def HelpersAgree (data : Bytes) : Prop :=
  ∃ content length, eggAsn1xElementContent data = .ok content ∧ eggAsn1xElementLength data = .ok length ∧
    (∀ off n, content = some (off, n) → off + n ≤ data.length ∧ length = some (off + n)) ∧
    (content.isSome = true ↔ length.isSome = true ∧ ¬ Indefinite data)

/-- Nothing is read behind the bytes, and what the header says fits into them and into an `int`. -/
def HeaderFits (data : Bytes) : Prop :=
  ¬ RunsOff data ∧ ∀ off n, headerSays data = some (off, n) → off + n ≤ data.length ∧ off + n < 2 ^ 31

/-- What the helpers return where the tag does not run off. -/
theorem helpers_eq {data : Bytes} (h : ¬ RunsOff data) :
    eggAsn1xElementContent data = .ok (headerSays data) ∧
      eggAsn1xElementLength data = .ok ((headerSays data).bind fun said =>
        if 0 ≤ gint (said.1 + said.2 : Nat) ∧ (gint (said.1 + said.2 : Nat)).toNat ≤ data.length then
          some (gint (said.1 + said.2 : Nat)).toNat
        else none) := by
  obtain ⟨r, htag, hsize, hroom⟩ := decodeClsTag_size data h
  rw [eggAsn1xElementContent, eggAsn1xElementLength, headerSays, htag, ← hsize]
  cases r with
  | none => exact ⟨rfl, rfl⟩
  | some tag =>
    obtain ⟨cls, tag, cb⟩ := tag
    have hcb := hroom cb hsize.symm
    have hlength : (data.drop cb).length = data.length - cb := length_drop
    obtain ⟨len, cb2, hlen, hsaid⟩ := decodeLength_said (data.drop cb)
    rw [hlength] at hlen hsaid
    rw [ok_bind, ok_bind]
    dsimp only
    rw [cAssert_of_true hcb, ok_bind, ok_bind, hlen, ok_bind, ok_bind]
    rw [Option.map_some, Option.bind_some, hlength]
    have hdenotes : (if gint (data.length - cb : Nat) = 0 then some (cb, 0)
        else (lengthSaid (inside (data.drop cb)) (data.drop cb)).map fun said => (cb + said.1, said.2)) =
          if 0 ≤ len then some (cb + cb2, len.toNat) else none := by
      have hmap := congrArg (Option.map fun said : Nat × Nat => (cb + said.1, said.2)) hsaid
      by_cases hzero : gint (data.length - cb : Nat) = 0
      · rw [if_pos hzero] at hmap ⊢
        rw [Option.map_some, Nat.add_zero] at hmap
        rw [hmap]
        split <;> rfl
      · rw [if_neg hzero] at hmap ⊢
        rw [hmap]
        split <;> rfl
    rw [hdenotes]
    rcases Int.lt_or_le len 0 with hneg | hnonneg
    · rw [if_pos hneg, if_neg (Int.not_le.2 hneg), if_neg (Int.not_le.2 hneg)]
      exact ⟨rfl, rfl⟩
    · have hsum : len + (cb + cb2 : Nat) = (cb + cb2 + len.toNat : Nat) := by omega
      rw [if_neg (Int.not_lt.2 hnonneg), if_pos hnonneg, if_pos hnonneg, hsum, Option.bind_some]
      exact ⟨rfl, rfl⟩

/-- An indefinite length says nothing. -/
theorem headerSays_of_indefinite {data : Bytes} (h : Indefinite data) : headerSays data = none := by
  obtain ⟨cb, hcb, hoctet⟩ := h
  have hlength := length_inside data
  obtain ⟨hlt, -⟩ := List.getElem?_eq_some_iff.1 hoctet
  have hget : data[cb]? = some 0x80 := by
    rw [inside] at hoctet hlt
    rw [getElem?_take_of_lt] at hoctet
    · exact hoctet
    · rw [length_take] at hlt
      omega
  have hdrop : ∃ rest, data.drop cb = 0x80 :: rest := by
    obtain ⟨hlt', hoctet'⟩ := List.getElem?_eq_some_iff.1 hget
    exact ⟨_, by rw [drop_eq_getElem_cons hlt', hoctet']⟩
  obtain ⟨rest, hrest⟩ := hdrop
  have hleft : gint (data.drop cb).length ≠ 0 := by
    rw [length_drop, gint_sub (by omega)]
    omega
  rw [headerSays, hcb, Option.bind_some, if_neg hleft, hrest, lengthSaid, if_neg (by decide),
    if_pos (by decide), Option.map_none]

/-- The helpers agree exactly if the header fits. -/
theorem elementContent_agrees_iff (data : Bytes) : HelpersAgree data ↔ HeaderFits data := by
  rw [HelpersAgree, HeaderFits]
  by_cases hruns : RunsOff data
  · refine iff_of_false ?_ (fun hfits => hfits.1 hruns)
    rintro ⟨content, length, hcontent, -⟩
    rw [eggAsn1xElementContent, decodeClsTag_runsOff hruns] at hcontent
    exact nomatch hcontent
  · obtain ⟨hcontent, hlength⟩ := helpers_eq hruns
    rw [hcontent, hlength, and_iff_right hruns]
    cases hdenotes : headerSays data with
    | none =>
      refine iff_of_true ⟨none, none, rfl, rfl, fun off n h => (nomatch h), ?_⟩ (fun off n h => nomatch h)
      simp
    | some said =>
      obtain ⟨off, n⟩ := said
      have hdefinite : ¬ Indefinite data := by
        intro hindefinite
        rw [headerSays_of_indefinite hindefinite] at hdenotes
        exact nomatch hdenotes
      have hle := gint_le (off + n)
      have hself := gint_eq_self_iff (off + n)
      rw [Option.bind_some]
      constructor
      · rintro ⟨content, length, hc, hl, hinside, -⟩ off' n' heq
        obtain ⟨rfl, rfl⟩ := Prod.mk.inj (Option.some.inj heq)
        obtain ⟨hroom, hsome⟩ := hinside _ _ (Except.ok.inj hc).symm
        have htotal := (Except.ok.inj hl).trans hsome
        refine ⟨hroom, hself.1 ?_⟩
        split at htotal
        · rename_i hnonneg
          have := Option.some.inj htotal
          dsimp only at hnonneg this
          omega
        · exact nomatch htotal
      · intro hfits
        obtain ⟨hroom, hlt⟩ := hfits off n rfl
        have hgint := hself.2 hlt
        rw [hgint, Int.toNat_natCast, if_pos ⟨Int.natCast_nonneg _, hroom⟩]
        refine ⟨_, _, rfl, rfl, ?_, ?_⟩
        · intro off' n' heq
          obtain ⟨rfl, rfl⟩ := Prod.mk.inj (Option.some.inj heq)
          exact ⟨hroom, rfl⟩
        · simp [hdefinite]

/-- A header that says that one byte follows, and none does. -/
theorem elementContent_outside :
    eggAsn1xElementContent [0x04, 0x01] = .ok (some (2, 1)) ∧ ¬ HelpersAgree [0x04, 0x01] := by
  have hcontent : eggAsn1xElementContent [0x04, 0x01] = .ok (some (2, 1)) := by decide
  refine ⟨hcontent, ?_⟩
  rintro ⟨content, length, hc, -, hinside, -⟩
  rw [hcontent] at hc
  have hroom := (hinside 2 1 (Except.ok.inj hc).symm).1
  exact absurd hroom (by decide)

end MateKeyring.Asn1x
