import MateKeyring.Lib.Accumulate
import MateKeyring.Asn1x.Tlv

/-!
# What headers denote

`tagOctets` and `lengthOctets` are the tag and the length that octets denote, whatever their number.
`anode_decode_cls_tag` and `anode_decode_length` accumulate them in an `int` and give up when it becomes
smaller. `decodeClsTag_eq` and `decodeLength_eq` say what they return for any bytes, and
`header_sound_iff` for which bytes that is what the octets denote:

* a long tag whose octets all have their high bit set is read one octet too far;
* a long length whose octets end early is that of the octets that are there;
* no octet at all is the length zero;
* not every overflow makes the `int` smaller.
-/

set_option autoImplicit false

namespace MateKeyring.Asn1x

open Lib Accumulate BigEndian List

theorem gint_eq_wordOf (x : Int) : gint x = wordOf 32 x := rfl

theorem gint_le (n : Nat) : gint n ≤ n := by
  rw [gint, Int.bmod_def]
  omega

/-- What is left of the bytes that count. -/
theorem gint_sub {n k : Nat} (h : k ≤ gint n) : gint (n - k : Nat) = gint n - k := by
  have hle := gint_le n
  have hhigh := @Int.bmod_lt (n : Int) (2 ^ 32) (by decide)
  have hcast : ((n - k : Nat) : Int) = n - k := by omega
  rw [gint] at h hle
  rw [gint, gint, hcast, ← Int.bmod_sub_bmod]
  exact Int.bmod_eq_of_le (by omega) (by omega)

/-! ## Octets -/

/-- The groups of a long tag up to its last octet, and whether there is a last octet. -/
def tagGroups : Bytes → List Nat × Bool
  | [] => ([], false)
  | b :: rest =>
    if b &&& 128 ≠ 0 then ((b &&& 0x7f).toNat :: (tagGroups rest).1, (tagGroups rest).2)
    else ([(b &&& 0x7f).toNat], true)

/-- The class and the tag that octets denote, and the number of the octets. -/
def tagOctets : Bytes → Option (UInt8 × Nat × Nat)
  | [] => none
  | b :: rest =>
    if b &&& 0x1f ≠ 0x1f then some (b &&& 0xe0, (b &&& 0x1f).toNat, 1)
    else if (tagGroups rest).2 then
      some (b &&& 0xe0, value 128 0 (tagGroups rest).1, 1 + (tagGroups rest).1.length)
    else none

/-- The length that octets denote, which is `-1` where it is indefinite, and the number of the octets. -/
def lengthOctets : Bytes → Option (Int × Nat)
  | [] => none
  | b :: rest =>
    if b &&& 128 = 0 then some (b.toNat, 1)
    else if b &&& 0x7f = 0 then some (-1, 1)
    else if (b &&& 0x7f).toNat ≤ rest.length then
      some (decode (rest.take (b &&& 0x7f).toNat), 1 + (b &&& 0x7f).toNat)
    else none

theorem value_eq_decode (v : Nat) (bytes : Bytes) :
    value 256 v (bytes.map UInt8.toNat) = v * 256 ^ bytes.length + decode bytes := by
  induction bytes generalizing v with
  | nil => rw [map_nil, value, decode, length_nil, Nat.pow_zero, Nat.mul_one, Nat.add_zero]
  | cons b bytes ih =>
    rw [map_cons, value, ih, decode, length_cons, Nat.pow_succ]
    ring

theorem length_tagGroups_le (octets : Bytes) : (tagGroups octets).1.length ≤ octets.length := by
  induction octets with
  | nil => exact Nat.le_refl 0
  | cons b octets ih =>
    rw [tagGroups]
    split
    · exact Nat.succ_le_succ ih
    · exact Nat.succ_le_succ (Nat.zero_le _)

/-- A tag that ends early ends where it does in more octets. -/
theorem tagGroups_take {octets : Bytes} {k : Nat} (h : (tagGroups (octets.take k)).2 = true) :
    tagGroups (octets.take k) = tagGroups octets := by
  induction octets generalizing k with
  | nil => rw [take_nil]
  | cons b octets ih =>
    cases k with
    | zero => exact absurd h Bool.false_ne_true
    | succ k =>
      rw [take_succ_cons, tagGroups] at h ⊢
      rw [tagGroups]
      split
      · rename_i hgoes
        rw [if_pos hgoes] at h
        rw [ih h]
      · rfl

/-! ## What is read -/

/-- The loop of a long tag, where `k` octets are left inside of the bounds. -/
theorem longTag_eq (rest : Bytes) (punt k : Nat) (acc : Int) :
    longTag (punt + k : Nat) rest punt acc =
      match accumulate 32 128 acc (tagGroups (rest.take k)).1 with
      | none => .ok none
      | some ris =>
        if (tagGroups (rest.take k)).2 then .ok (some (ris, punt + (tagGroups (rest.take k)).1.length))
        else if rest.length ≤ k then .error .outOfBounds
        else .ok none := by
  induction rest generalizing punt k acc with
  | nil =>
    rw [longTag, if_pos (by omega), take_nil]
    rfl
  | cons b rest ih =>
    cases k with
    | zero =>
      have hend : longTag (punt + 0 : Nat) rest (punt + 1) (gint (acc * 128 + (b &&& 0x7f).toNat)) =
          .ok none := by
        cases rest with
        | nil => rw [longTag, if_neg (by omega)]
        | cons c rest => rw [longTag, if_neg (by omega)]
      rw [longTag, if_pos (by omega), take_zero]
      dsimp only
      rw [hend, if_pos (show ((punt + 0 : Nat) : Int) ≤ punt from Int.le_refl _)]
      simp [tagGroups, accumulate]
    | succ k =>
      have hplace : (punt + (k + 1) : Nat) = (punt + 1 + k : Nat) := by omega
      rw [longTag, if_pos (by omega), take_succ_cons, tagGroups]
      by_cases hgoes : b &&& 128 ≠ 0
      · rw [if_pos hgoes, if_pos hgoes, hplace, ih]
        rw [accumulate, gint_eq_wordOf]
        simp only [Nat.cast_ofNat, length_cons, Nat.add_le_add_iff_right, Nat.add_assoc,
          Nat.add_comm 1]
        by_cases hless : wordOf 32 (acc * 128 + (b &&& 0x7f).toNat) < acc
        · rw [if_pos hless, if_pos hless]
        · rw [if_neg hless, if_neg hless]
      · rw [if_neg hgoes, if_neg hgoes, if_neg (by omega)]
        rw [accumulate, gint_eq_wordOf]
        simp only [Nat.cast_ofNat]
        by_cases hless : wordOf 32 (acc * 128 + (b &&& 0x7f).toNat) < acc
        · rw [if_pos hless, if_pos hless]
        · rw [if_neg hless, if_neg hless]
          rfl

/-- The loop of a long length, which takes `j` octets. -/
theorem longLength_run (m : Int) (k : Nat) (rest : Bytes) (punt j : Nat) (acc : Int)
    (hj : j = min (k + 1 - punt) (m - punt).toNat) (hroom : j ≤ rest.length) :
    longLength m k rest punt acc =
      .ok (match accumulate 32 256 acc ((rest.take j).map UInt8.toNat) with
        | none => (-2, 0)
        | some ans => (ans, punt + j)) := by
  induction rest generalizing punt j acc with
  | nil =>
    obtain rfl : j = 0 := by simpa using hroom
    rw [longLength, if_neg (by omega)]
    rfl
  | cons b rest ih =>
    cases j with
    | zero =>
      rw [longLength, if_neg (by omega)]
      rfl
    | succ j =>
      rw [length_cons] at hroom
      rw [longLength, if_pos (by omega), take_succ_cons, map_cons, accumulate, gint_eq_wordOf]
      simp only [Nat.cast_ofNat]
      by_cases hless : wordOf 32 (acc * 256 + b.toNat) < acc
      · rw [if_pos hless, if_pos hless]
      · have hmore := ih (punt + 1) j (wordOf 32 (acc * 256 + b.toNat)) (by omega) (by omega)
        rw [if_neg hless, if_neg hless, hmore, Nat.add_assoc, Nat.add_comm 1]

/-- What `anode_decode_cls_tag` returns for bytes of which `gint n` count. -/
theorem decodeClsTag_eq (b : UInt8) (rest : Bytes) {n k : Nat} (hn : gint n = (k + 1 : Nat))
    (hk : 0 < k) :
    anodeDecodeClsTag (b :: rest) n =
      if b &&& 0x1f ≠ 0x1f then .ok (some (b &&& 0xe0, (b &&& 0x1f).toNat, 1))
      else if Caught 32 128 0 (tagGroups (rest.take k)).1 then .ok none
      else if (tagGroups (rest.take k)).2 then
        .ok (some (b &&& 0xe0, (gint (value 128 0 (tagGroups (rest.take k)).1)).toNat,
          1 + (tagGroups (rest.take k)).1.length))
      else if rest.length ≤ k then .error .outOfBounds
      else .ok none := by
  have hpeek : peek (b :: rest) 0 = .ok b := rfl
  have hloop := longTag_eq rest 1 k (wordOf 32 (0 : Nat))
  rw [accumulate_eq, Nat.add_comm 1 k] at hloop
  rw [anodeDecodeClsTag, if_neg (by omega), hpeek, ok_bind, hn]
  by_cases hshort : b &&& 0x1f ≠ 0x1f
  · rw [if_pos hshort, if_pos hshort]
    rfl
  · have hzero : wordOf 32 (0 : Nat) = 0 := rfl
    rw [hzero] at hloop
    rw [if_neg hshort, if_neg hshort, drop_succ_cons, drop_zero, hloop]
    by_cases hcaught : Caught 32 128 0 (tagGroups (rest.take k)).1
    · rw [if_pos hcaught, if_pos hcaught]
      rfl
    · rw [if_neg hcaught, if_neg hcaught]
      dsimp only
      by_cases hends : (tagGroups (rest.take k)).2 = true
      · rw [if_pos hends, if_pos hends, ok_bind, Option.map_some, pure_eq_ok, gint_eq_wordOf]
      · rw [if_neg hends, if_neg hends]
        split <;> rfl

/-- What `anode_decode_length` returns for bytes of which `gint n` count. -/
theorem decodeLength_eq (b : UInt8) (rest : Bytes) {n : Nat} (hn : gint n ≠ 0)
    (hroom : gint n ≤ (rest.length + 1 : Nat)) :
    anodeDecodeLength (b :: rest) n =
      if b &&& 128 = 0 then .ok (b.toNat, 1)
      else if b &&& 0x7f = 0 then .ok (-1, 1)
      else
        let octets := rest.take (min (b &&& 0x7f).toNat (gint n - 1).toNat)
        if Caught 32 256 0 (octets.map UInt8.toNat) then .ok (-2, 0)
        else .ok (gint (decode octets), 1 + octets.length) := by
  have hpeek : peek (b :: rest) 0 = .ok b := rfl
  have hlength : (rest.take (min (b &&& 0x7f).toNat (gint n - 1).toNat)).length =
      min (b &&& 0x7f).toNat (gint n - 1).toNat := by
    rw [length_take]
    omega
  have hloop := longLength_run (gint n) (b &&& 0x7f).toNat rest 1
    (min (b &&& 0x7f).toNat (gint n - 1).toNat) (wordOf 32 (0 : Nat)) (by omega) (by omega)
  have hvalue := value_eq_decode 0 (rest.take (min (b &&& 0x7f).toNat (gint n - 1).toNat))
  rw [Nat.zero_mul, Nat.zero_add] at hvalue
  rw [accumulate_eq, hvalue] at hloop
  rw [anodeDecodeLength, if_neg hn, hpeek, ok_bind]
  by_cases hshort : b &&& 128 = 0
  · rw [if_pos hshort, if_pos hshort]
    rfl
  · rw [if_neg hshort, if_neg hshort]
    by_cases hindefinite : b &&& 0x7f = 0
    · rw [if_pos hindefinite, if_pos hindefinite]
      rfl
    · have hzero : wordOf 32 (0 : Nat) = 0 := rfl
      rw [hzero] at hloop
      rw [if_neg hindefinite, if_neg hindefinite, drop_succ_cons, drop_zero, hloop]
      dsimp only
      rw [hlength]
      generalize rest.take (min (b &&& 0x7f).toNat (gint n - 1).toNat) = octets
      by_cases hcaught : Caught 32 256 0 (octets.map UInt8.toNat)
      · rw [if_pos hcaught, if_pos hcaught]
      · rw [if_neg hcaught, if_neg hcaught]
        rfl

/-! ## Which headers are read right -/

/-- The octets that count: their number is an `int`. -/
def inside (data : Bytes) : Bytes := data.take (gint data.length).toNat

/-- `anode_decode_cls_tag` fails or gives the tag that the octets denote, and reads no other octets. -/
def TagSound (data : Bytes) : Prop :=
  ∃ r, anodeDecodeClsTag data data.length = .ok r ∧ ∀ tag, r = some tag → tagOctets data = some tag

/-- `anode_decode_length` fails or gives the length that the octets denote, and reads no other octets. -/
def LengthSound (data : Bytes) : Prop :=
  ∃ len cb, anodeDecodeLength data data.length = .ok (len, cb) ∧
    (len < -1 ∨ lengthOctets data = some (len, cb))

/-- A tag in octets, `more` being whether there are others behind them: there are not two octets, or the tag
is short, or its overflow is caught, or it ends and is below `2 ^ 31`. One that does not end is refused if
there are more octets. -/
def TagRightIn (more : Prop) : Bytes → Prop
  | [] => True
  | b :: rest =>
    rest = [] ∨ b &&& 0x1f ≠ 0x1f ∨ Caught 32 128 0 (tagGroups rest).1 ∨
      ((tagGroups rest).2 = true ∧ value 128 0 (tagGroups rest).1 < 2 ^ 31) ∨
      ((tagGroups rest).2 = false ∧ more)

/-- Bytes whose tag `anode_decode_cls_tag` handles right. -/
def TagRight (data : Bytes) : Prop := TagRightIn ((inside data).length < data.length) (inside data)

/-- A length in bytes of which `octets` count: it is short or indefinite, or its overflow is caught, or all of
its octets are there and it is below `2 ^ 31`. -/
def LengthRightIn (octets : Bytes) : Bytes → Prop
  | [] => True
  | b :: _ =>
    b &&& 128 = 0 ∨ b &&& 0x7f = 0 ∨
      Caught 32 256 0 (((octets.drop 1).take (b &&& 0x7f).toNat).map UInt8.toNat) ∨
      ((b &&& 0x7f).toNat < octets.length ∧
        decode ((octets.drop 1).take (b &&& 0x7f).toNat) < 2 ^ 31)

/-- Bytes whose length `anode_decode_length` handles right; there is one of them at least. -/
def LengthRight (data : Bytes) : Prop := gint data.length ≠ 0 ∧ LengthRightIn (inside data) data

theorem gint_eq_self_iff (n : Nat) : gint n = n ↔ n < 2 ^ 31 := wordOf_eq_self_iff (by decide)

/-- The octets that count are all there are, or there are two gigabytes of them. -/
theorem length_inside (data : Bytes) : (inside data).length = (gint data.length).toNat := by
  have hle := gint_le data.length
  rw [inside, length_take]
  omega

theorem inside_cons {data : Bytes} {k : Nat} (h : gint data.length = (k + 1 : Nat)) :
    ∃ b rest, data = b :: rest ∧ inside data = b :: rest.take k := by
  cases data with
  | nil =>
    have hzero : gint ([] : Bytes).length = 0 := rfl
    omega
  | cons b rest =>
    refine ⟨b, rest, rfl, ?_⟩
    rw [inside, h, Int.toNat_natCast, take_succ_cons]

/-- A tag is handled right or not as `TagRight` says. -/
theorem tagSound_iff (data : Bytes) : TagSound data ↔ TagRight data := by
  have hle := gint_le data.length
  rcases Int.lt_or_le (gint data.length) 2 with hfew | htwo
  · -- fewer than two octets are refused
    have hlength := length_inside data
    have hsound : TagSound data := by
      refine ⟨none, ?_, fun tag htag => by cases htag⟩
      rw [anodeDecodeClsTag, if_pos hfew]
    refine iff_of_true hsound ?_
    rw [TagRight]
    generalize inside data = octets at hlength ⊢
    cases octets with
    | nil => exact trivial
    | cons b rest =>
      rw [length_cons] at hlength
      exact .inl (length_eq_zero_iff.1 (by omega))
  · obtain ⟨k, hk⟩ : ∃ k : Nat, gint data.length = (k + 1 : Nat) := ⟨(gint data.length).toNat - 1, by omega⟩
    obtain ⟨b, rest, rfl, hinside⟩ := inside_cons hk
    have hdecode := decodeClsTag_eq b rest hk (by omega)
    have hroom : k ≤ rest.length := by
      rw [hk, length_cons] at hle
      omega
    have hne : rest.take k ≠ [] := by
      apply length_pos_iff.1
      rw [length_take]
      omega
    have hmore : (b :: rest.take k).length < (b :: rest).length ↔ k < rest.length := by
      rw [length_cons, length_cons, length_take]
      omega
    rw [TagRight, hinside, TagSound, hdecode, TagRightIn, hmore]
    by_cases hshort : b &&& 0x1f ≠ 0x1f
    · refine iff_of_true ⟨_, by rw [if_pos hshort], ?_⟩ (.inr (.inl hshort))
      intro tag htag
      rw [tagOctets, if_pos hshort, ← htag]
    · rw [if_neg hshort]
      by_cases hcaught : Caught 32 128 0 (tagGroups (rest.take k)).1
      · refine iff_of_true ⟨none, by rw [if_pos hcaught], fun tag htag => by cases htag⟩ ?_
        exact .inr (.inr (.inl hcaught))
      · rw [if_neg hcaught]
        cases hends : (tagGroups (rest.take k)).2 with
        | true =>
          have hnonneg : 0 ≤ gint (value 128 0 (tagGroups (rest.take k)).1) :=
            wordOf_nonneg hcaught (Int.le_refl _)
          have hself := gint_eq_self_iff (value 128 0 (tagGroups (rest.take k)).1)
          have hsame := tagGroups_take hends
          rw [if_pos rfl]
          constructor
          · rintro ⟨r, hr, hsound⟩
            have htag := hsound _ (Except.ok.inj hr).symm
            rw [tagOctets, if_neg hshort, ← hsame, if_pos hends] at htag
            have hvalue := congrArg (fun t => t.2.1) (Option.some.inj htag)
            dsimp only at hvalue
            exact .inr (.inr (.inr (.inl ⟨rfl, hself.1 (by omega)⟩)))
          · rintro (hnil | hlong | hcaught' | ⟨-, hlt⟩ | ⟨hfalse, -⟩)
            · exact absurd hnil hne
            · exact absurd hlong hshort
            · exact absurd hcaught' hcaught
            · refine ⟨_, rfl, fun tag htag => ?_⟩
              rw [← Option.some.inj htag, tagOctets, if_neg hshort, ← hsame, if_pos hends, hself.2 hlt,
                Int.toNat_natCast]
            · cases hfalse
        | false =>
          -- the octets that count all have their high bit set
          rw [if_neg Bool.false_ne_true]
          rcases Nat.lt_or_ge k rest.length with hless | hover
          · rw [if_neg (by omega)]
            exact iff_of_true ⟨none, rfl, fun tag htag => by cases htag⟩
              (.inr (.inr (.inr (.inr ⟨rfl, hless⟩))))
          · rw [if_pos hover]
            refine iff_of_false ?_ ?_
            · rintro ⟨r, hr, -⟩
              cases hr
            · rintro (hnil | hlong | hcaught' | ⟨htrue, -⟩ | ⟨-, hless⟩)
              · exact absurd hnil hne
              · exact absurd hlong hshort
              · exact absurd hcaught' hcaught
              · cases htrue
              · omega

theorem lengthOctets_pos {data : Bytes} {len : Int} {cb : Nat} (h : lengthOctets data = some (len, cb)) :
    0 < cb := by
  cases data with
  | nil => exact nomatch h
  | cons b rest =>
    rw [lengthOctets] at h
    split at h
    · have := congrArg Prod.snd (Option.some.inj h)
      omega
    · split at h
      · have := congrArg Prod.snd (Option.some.inj h)
        omega
      · split at h
        · have := congrArg Prod.snd (Option.some.inj h)
          omega
        · exact nomatch h

/-- The octets of a long length that count. -/
theorem take_inside (b : UInt8) (rest : Bytes) (k : Nat) :
    ((inside (b :: rest)).drop 1).take k = rest.take (min k (gint (b :: rest).length - 1).toNat) := by
  have hpred : (gint (b :: rest).length - 1).toNat = (gint (b :: rest).length).toNat - 1 := by omega
  rw [inside, hpred]
  cases (gint (b :: rest).length).toNat with
  | zero => simp
  | succ m => rw [take_succ_cons, drop_succ_cons, drop_zero, take_take, Nat.add_sub_cancel]

/-- A length is handled right or not as `LengthRight` says. -/
theorem lengthSound_iff (data : Bytes) : LengthSound data ↔ LengthRight data := by
  have hle := gint_le data.length
  have hlength := length_inside data
  rw [LengthRight]
  by_cases hzero : gint data.length = 0
  · -- no octet is taken for the length zero
    refine iff_of_false ?_ (fun hright => hright.1 hzero)
    rintro ⟨len, cb, hdecode, hsound⟩
    rw [anodeDecodeLength, if_pos hzero] at hdecode
    cases hdecode
    rcases hsound with hneg | hoctets
    · exact absurd hneg (by decide)
    · exact absurd (lengthOctets_pos hoctets) (Nat.lt_irrefl 0)
  · cases data with
    | nil => exact absurd rfl hzero
    | cons b rest =>
      have htake := take_inside b rest (b &&& 0x7f).toNat
      have hdecode := decodeLength_eq b rest hzero hle
      rw [and_iff_right hzero, LengthSound, hdecode, LengthRightIn, htake]
      by_cases hshort : b &&& 128 = 0
      · refine iff_of_true ⟨_, _, by rw [if_pos hshort], .inr ?_⟩ (.inl hshort)
        rw [lengthOctets, if_pos hshort]
      · rw [if_neg hshort]
        by_cases hindefinite : b &&& 0x7f = 0
        · refine iff_of_true ⟨_, _, by rw [if_pos hindefinite], .inr ?_⟩ (.inr (.inl hindefinite))
          rw [lengthOctets, if_neg hshort, if_pos hindefinite]
        · rw [if_neg hindefinite]
          generalize hm : gint (b :: rest).length = m at hle hlength hzero ⊢
          rw [length_cons] at hle
          by_cases hcaught : Caught 32 256 0 ((rest.take (min (b &&& 0x7f).toNat (m - 1).toNat)).map UInt8.toNat)
          · refine iff_of_true ⟨-2, 0, by rw [if_pos hcaught], .inl (by decide)⟩ ?_
            exact .inr (.inr (.inl hcaught))
          · have hoctets : (rest.take (min (b &&& 0x7f).toNat (m - 1).toNat)).length =
                min (b &&& 0x7f).toNat (m - 1).toNat := by
              rw [length_take]
              omega
            have hnonneg : 0 ≤ gint (decode (rest.take (min (b &&& 0x7f).toNat (m - 1).toNat))) := by
              have hvalue := value_eq_decode 0 (rest.take (min (b &&& 0x7f).toNat (m - 1).toNat))
              have h := wordOf_nonneg hcaught (Int.le_refl 0)
              rw [hvalue, Nat.zero_mul, Nat.zero_add] at h
              exact h
            rw [if_neg hcaught, hoctets]
            constructor
            · rintro ⟨len, cb, heq, hsound⟩
              obtain ⟨rfl, rfl⟩ := Prod.mk.inj (Except.ok.inj heq)
              rcases hsound with hneg | hsound
              · omega
              · rw [lengthOctets, if_neg hshort, if_neg hindefinite] at hsound
                split at hsound
                · obtain ⟨hvalue, hcount⟩ := Prod.mk.inj (Option.some.inj hsound)
                  have hall : min (b &&& 0x7f).toNat (m - 1).toNat = (b &&& 0x7f).toNat := by omega
                  rw [hall] at hvalue ⊢
                  refine .inr (.inr (.inr ⟨?_, (gint_eq_self_iff _).1 hvalue.symm⟩))
                  have hpos : (b &&& 0x7f).toNat ≠ 0 := fun h => hindefinite (UInt8.toNat_inj.1 h)
                  omega
                · cases hsound
            · rintro (hshort' | hindefinite' | hcaught' | ⟨hroom, hlt⟩)
              · exact absurd hshort' hshort
              · exact absurd hindefinite' hindefinite
              · exact absurd hcaught' hcaught
              · have hall : min (b &&& 0x7f).toNat (m - 1).toNat = (b &&& 0x7f).toNat := by omega
                rw [hall] at hlt ⊢
                refine ⟨_, _, rfl, .inr ?_⟩
                rw [lengthOctets, if_neg hshort, if_neg hindefinite, if_pos (by omega),
                  (gint_eq_self_iff _).2 hlt]

/-! ## Headers that were written -/

theorem tagDigits_lt (fuel tag : Nat) : ∀ b ∈ tagDigits fuel tag, b.toNat < 128 := by
  induction fuel generalizing tag with
  | zero => exact fun b hb => absurd hb not_mem_nil
  | succ fuel ih =>
    rw [tagDigits]
    split
    · exact fun b hb => absurd hb not_mem_nil
    · rw [forall_mem_cons]
      refine ⟨?_, ih _⟩
      rw [UInt8.toNat_ofNat']
      omega

/-- The groups of a long tag have its value. -/
theorem value_tagDigits (fuel : Nat) {tag : Nat} (h : tag < 128 ^ fuel) :
    value 128 0 ((tagDigits fuel tag).reverse.map UInt8.toNat) = tag := by
  induction fuel generalizing tag with
  | zero =>
    have hzero : tag = 0 := by simpa using h
    subst hzero
    rfl
  | succ fuel ih =>
    rw [tagDigits]
    split
    · rename_i hzero
      subst hzero
      rfl
    · have hlt : tag / 128 < 128 ^ fuel := by
        rw [Nat.pow_succ] at h
        exact Nat.div_lt_of_lt_mul (by rwa [Nat.mul_comm])
      rw [reverse_cons, map_append, value_append, ih hlt, map_singleton, value, value,
        UInt8.toNat_ofNat']
      omega

/-- An octet of a long tag: its group, and whether another follows. -/
theorem tagOctet {b : UInt8} (h : b.toNat < 128) :
    (b &&& 128 = 0 ∧ (b &&& 0x7f).toNat = b.toNat) ∧
      ((b + 128) &&& 128 ≠ 0 ∧ ((b + 128) &&& 0x7f).toNat = b.toNat) := by
  have hall : ∀ bits : Fin 128, (UInt8.ofNat bits.val &&& 128 = 0 ∧
      (UInt8.ofNat bits.val &&& 0x7f).toNat = (UInt8.ofNat bits.val).toNat) ∧
      ((UInt8.ofNat bits.val + 128) &&& 128 ≠ 0 ∧
        ((UInt8.ofNat bits.val + 128) &&& 0x7f).toNat = (UInt8.ofNat bits.val).toNat) := by
    decide +kernel
  have hb := hall ⟨b.toNat, h⟩
  rwa [UInt8.ofNat_toNat] at hb

/-- The groups of a long tag are found in front of anything. -/
theorem tagGroups_mark (groups : Bytes) (hne : groups ≠ []) (hlt : ∀ b ∈ groups, b.toNat < 128)
    (rest : Bytes) : tagGroups (markDigits groups ++ rest) = (groups.map UInt8.toNat, true) := by
  induction groups with
  | nil => exact absurd rfl hne
  | cons b groups ih =>
    rw [forall_mem_cons] at hlt
    obtain ⟨⟨hlast, hbits⟩, hgoes, hbits'⟩ := tagOctet hlt.1
    cases groups with
    | nil =>
      rw [markDigits, singleton_append, tagGroups, if_neg (not_not.2 hlast), hbits]
      rfl
    | cons c groups =>
      rw [markDigits, cons_append, tagGroups, if_pos hgoes, ih (cons_ne_nil _ _) hlt.2, hbits']
      · rfl
      · exact fun h => nomatch h

theorem length_markDigits (groups : Bytes) : (markDigits groups).length = groups.length := by
  induction groups with
  | nil => rfl
  | cons b groups ih =>
    cases groups with
    | nil => rfl
    | cons c groups =>
      rw [markDigits, length_cons, ih, length_cons, length_cons, length_cons]
      exact fun h => nomatch h

theorem length_tagDigits (fuel tag : Nat) : (tagDigits fuel tag).length ≤ fuel := by
  induction fuel generalizing tag with
  | zero => exact Nat.le_refl _
  | succ fuel ih =>
    rw [tagDigits]
    split
    · exact Nat.zero_le _
    · exact Nat.succ_le_succ (ih _)

theorem tagDigits_ne_nil {fuel tag : Nat} (hfuel : 0 < fuel) (htag : 0 < tag) : tagDigits fuel tag ≠ [] := by
  cases fuel with
  | zero => omega
  | succ fuel =>
    rw [tagDigits, if_neg (by omega)]
    exact cons_ne_nil _ _

/-- The first octet of a long tag. -/
theorem longByte (cls : UInt8) :
    ((cls &&& 0xe0) + 31) &&& 0xe0 = cls &&& 0xe0 ∧ ((cls &&& 0xe0) + 31) &&& 0x1f = 0x1f := by
  have hall : ∀ c : Fin 256, ((UInt8.ofFin c &&& 0xe0) + 31) &&& 0xe0 = UInt8.ofFin c &&& 0xe0 ∧
      ((UInt8.ofFin c &&& 0xe0) + 31) &&& 0x1f = 0x1f := by
    decide +kernel
  exact hall cls.toFin

theorem length_anodeEncodeLength_le (len : Nat) : (anodeEncodeLength len).length ≤ 9 := by
  rw [anodeEncodeLength]
  split
  · rw [length_singleton]
    decide
  · have := length_lengthDigits 8 len
    rw [length_cons, length_reverse]
    omega

/-- What was written is read, and all of it. -/
def HeaderRoundTrip (cls : UInt8) (tag len : Nat) : Prop :=
  ∃ cb1 cb2, anodeDecodeClsTag (anodeEncodeClsTagLen cls tag len) (anodeEncodeClsTagLen cls tag len).length =
      .ok (some (cls, tag, cb1)) ∧
    anodeDecodeLength ((anodeEncodeClsTagLen cls tag len).drop cb1)
      ((anodeEncodeClsTagLen cls tag len).length - cb1) = .ok (len, cb2) ∧
    cb1 + cb2 = (anodeEncodeClsTagLen cls tag len).length

theorem headerRoundTrip {cls : UInt8} {tag len : Nat} (hcls : cls &&& 0xe0 = cls) (htag : tag < 2 ^ 31)
    (hlen : len < 2 ^ 31) : HeaderRoundTrip cls tag len := by
  have hpos := length_anodeEncodeLength_pos len
  have hle := length_anodeEncodeLength_le len
  have hread : ∀ n, n = (anodeEncodeLength len).length →
      anodeDecodeLength (anodeEncodeLength len) n = .ok (len, (anodeEncodeLength len).length) := by
    intro n hn
    have h := decodeLength_encode len n [] hlen (by omega) (by omega)
    rwa [append_nil] at h
  rw [HeaderRoundTrip]
  rcases Nat.lt_or_ge tag 31 with hshort | hlong
  · have hlength := length_anodeEncodeClsTagLen cls hshort len
    have htagRead := @decodeClsTag_header cls tag (1 + (anodeEncodeLength len).length) len [] hshort
      (by omega) (by omega)
    have hdrop := drop_one_header cls hshort len []
    rw [append_nil, append_nil] at hdrop
    rw [append_nil, hcls] at htagRead
    rw [hlength]
    exact ⟨1, _, htagRead, by rw [hdrop]; exact hread _ (by omega), rfl⟩
  · obtain ⟨hclass, hlow⟩ := longByte cls
    have hgroups := length_tagDigits 10 tag
    have hne : (tagDigits 10 tag).reverse ≠ [] :=
      fun h => tagDigits_ne_nil (by decide) (by omega) (reverse_eq_nil_iff.1 h)
    have hmark := tagGroups_mark (tagDigits 10 tag).reverse hne
      (fun b hb => tagDigits_lt 10 tag b (mem_reverse.1 hb)) (anodeEncodeLength len)
    have hvalue : value 128 0 ((tagDigits 10 tag).reverse.map UInt8.toNat) = tag :=
      value_tagDigits 10 (Nat.lt_trans htag (by decide))
    have hencode : anodeEncodeClsTagLen cls tag len = ((cls &&& 0xe0) + 31) ::
        (markDigits (tagDigits 10 tag).reverse ++ anodeEncodeLength len) := by
      rw [anodeEncodeClsTagLen, if_neg (by omega)]
      rfl
    have hmarked := length_markDigits (tagDigits 10 tag).reverse
    generalize hrest : markDigits (tagDigits 10 tag).reverse = marked at hmark hencode hmarked
    have hlength : (marked ++ anodeEncodeLength len).length = marked.length + (anodeEncodeLength len).length :=
      length_append
    rw [length_reverse] at hmarked
    have hcount : gint ((marked ++ anodeEncodeLength len).length + 1 : Nat) =
        ((marked ++ anodeEncodeLength len).length + 1 : Nat) := gint_of_lt (by omega)
    have hdecode := decodeClsTag_eq ((cls &&& 0xe0) + 31) (marked ++ anodeEncodeLength len) hcount (by omega)
    have hcaught : ¬ Caught 32 128 0 ((tagDigits 10 tag).reverse.map UInt8.toNat) :=
      not_caught_of_lt (by decide) (by decide) (by rw [hvalue]; exact htag)
    rw [take_length, hmark, if_neg (not_not.2 hlow), if_neg hcaught, if_pos rfl, hvalue,
      (gint_eq_self_iff tag).2 htag, Int.toNat_natCast, hclass, hcls, length_map, length_reverse,
      ← hmarked] at hdecode
    refine ⟨1 + marked.length, (anodeEncodeLength len).length, ?_, ?_, ?_⟩
    · rw [hencode, length_cons, hcls]
      exact hdecode
    · rw [hencode, Nat.add_comm 1, drop_succ_cons, drop_left, length_cons]
      exact hread _ (by omega)
    · rw [hencode, length_cons, hlength]
      omega

/-- `anode_decode_cls_tag` and `anode_decode_length` handle bytes right exactly if these are `TagRight` and
`LengthRight`; and what `anode_encode_cls_tag_len` writes they give back. -/
theorem header_sound_iff (data : Bytes) (cls : UInt8) (tag len : Nat) :
    (TagSound data ↔ TagRight data) ∧ (LengthSound data ↔ LengthRight data) ∧
      (cls &&& 0xe0 = cls → tag < 2 ^ 31 → len < 2 ^ 31 → HeaderRoundTrip cls tag len) :=
  ⟨tagSound_iff data, lengthSound_iff data, fun hcls htag hlen => headerRoundTrip hcls htag hlen⟩

theorem header_sound_sample :
    (TagSound [0x82, 0x01] ↔ TagRight [0x82, 0x01]) ∧ (LengthSound [0x82, 0x01] ↔ LengthRight [0x82, 0x01]) ∧
      HeaderRoundTrip 0xa0 1000 300 := by
  obtain ⟨htag, hlength, hboth⟩ := header_sound_iff [0x82, 0x01] 0xa0 1000 300
  exact ⟨htag, hlength, hboth (by decide) (by decide) (by decide)⟩

/-- Of the two octets that are to follow the length has one, and it is the length. -/
theorem truncated_length_unsound :
    anodeDecodeLength [0x82, 0x01] 2 = .ok (1, 2) ∧ lengthOctets [0x82, 0x01] = none ∧
      ¬ LengthSound [0x82, 0x01] := by
  have hdecode : anodeDecodeLength [0x82, 0x01] 2 = .ok (1, 2) := by decide +kernel
  have hoctets : lengthOctets [0x82, 0x01] = none := by decide
  refine ⟨hdecode, hoctets, ?_⟩
  rintro ⟨len, cb, hread, hsound⟩
  have hread' : anodeDecodeLength [0x82, 0x01] 2 = .ok (len, cb) := hread
  rw [hdecode] at hread'
  cases hread'
  rw [hoctets] at hsound
  exact hsound.elim (by decide) (fun h => nomatch h)

end MateKeyring.Asn1x
