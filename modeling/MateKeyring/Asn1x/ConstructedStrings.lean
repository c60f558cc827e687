import MateKeyring.Asn1x.Indefinite

/-!
# Constructed strings

An `OCTET STRING` may be split into chunks. `anode_decode_struct_string` reads them in a loop without an
exit: the loop is left only where a chunk cannot be read or has another tag, and both are failures. At the
end of the contents the tag it is given is zero. So no constructed string is ever decoded
(`constructed_string_undecoded`), whatever the chunks, the tagging and the form of the length are.
-/

set_option autoImplicit false

namespace MateKeyring.Asn1x

open Lib Accumulate List

variable {chunks : List Bytes} {node : Node} {e : Ber} {tlv : Atlv} {fuel : Nat} {n : Nat}

/-! ## Encodings -/

namespace Ber

/-- The elements among the contents. -/
def items : Ber → List Ber
  | .primitive _ _ _ => []
  | .constructed _ _ items => items
  | .indefinite _ items => items

/-- A chunk of an octet string. -/
structure IsChunk (content : Bytes) (e : Ber) : Prop where
  id : e.id = [0x04]
  structured : e.structured = false
  body : e.body = content

/-- A constructed encoding of some chunks, of either form. -/
structure Wraps (chunks : List Bytes) (e : Ber) : Prop where
  wellFormed : e.WellFormed
  structured : e.structured = true
  items : List.Forall₂ IsChunk chunks e.items

/-- The tag of an element is the one that a node asks for. -/
def HasTagOf (node : Node) (e : Ber) : Prop :=
  ∃ cls tag, tagOctets e.id = some (cls, tag, e.id.length) ∧ anodeCalcTag node = some tag

end Ber

/-- A constructed encoding of some chunks for the definition of a node: with the tag of the node, and where
that is explicit around the string with its own tag. -/
inductive StringFor (node : Node) (chunks : List Bytes) : Ber → Prop where
  | bare (e : Ber) : anodeCalcExplicit node = false → e.HasTagOf node → e.Wraps chunks → StringFor node chunks e
  | explicit (e inner : Ber) : anodeCalcExplicit node = true → e.HasTagOf node → e.WellFormed →
      e.structured = true → e.items = [inner] → inner.id = [0x24] → inner.Wraps chunks →
      StringFor node chunks e

theorem StringFor.wellFormed (h : StringFor node chunks e) : e.WellFormed := by
  cases h with
  | bare _ _ hwraps => exact hwraps.wellFormed
  | explicit inner _ _ hwf _ _ _ _ => exact hwf

theorem StringFor.structured (h : StringFor node chunks e) : e.structured = true := by
  cases h with
  | bare _ _ hwraps => exact hwraps.structured
  | explicit inner _ _ _ hstructured _ _ _ => exact hstructured

/-- A string is decoded, and is what its chunks are together. -/
def StringDecoded (readTime : TimeReader) (fuel : Nat) (node : Node)
    (chunks : List Bytes) (data : Bytes) : Prop :=
  ∃ node', eggAsn1xDecode readTime fuel node data = .ok (true, node') ∧
    eggAsn1xGetStringAsRaw node' = .ok (some chunks.flatten)

/-! ## The loop -/

/-- The loop over the chunks is only left by a failure. -/
theorem structString_false (fuel : Nat) (outer outer' : Atlv) (data : Bytes) :
    anodeDecodeStructString fuel outer data ≠ .ok (true, outer') := by
  induction fuel generalizing outer data with
  | zero => exact fun h => nomatch h
  | succ fuel ih =>
    intro h
    rw [anodeDecodeStructString] at h
    obtain ⟨found, -, h⟩ := bind_eq_ok.1 h
    cases found with
    | none => exact nomatch h
    | some tlv =>
      dsimp only at h
      split at h
      · exact nomatch h
      · exact ih _ _ h

/-- The contents of a structured string are not decoded. -/
theorem contents_false (hkind : node.kind = .octetString) (forFlags : Decoder) (fuel : Nat) (tlv : Atlv)
    (node' : Node) (tlv' : Atlv) :
    anodeDecodeContents forFlags fuel node tlv ≠ .ok (true, node', tlv') := by
  intro h
  rw [anodeDecodeContents, hkind] at h
  obtain ⟨⟨ok, outer⟩, hrun, h⟩ := bind_eq_ok.1 h
  obtain rfl : ok = true := congrArg Prod.fst (Except.ok.inj h)
  exact structString_false _ _ _ _ hrun

variable {node' : Node} {tlv' : Atlv}

/-- A structured element is decoded into a string without an explicit tag only as one that is absent. -/
theorem size_of_bare (hkind : node.kind = .octetString) {flags : Flags}
    (hstructured : tlv.cls &&& asn1ClassStructured ≠ 0)
    (hbare : anodeCalcExplicitForFlags node flags = false)
    (h : anodeDecodeAnythingForFlags fuel node tlv flags = .ok (true, node', tlv')) :
    (tlv.off = 0 ∨ (anodeCalcTagForFlags node flags).getD tlv.tag ≠ tlv.tag) ∧ tlv'.size = 0 := by
  cases fuel with
  | zero => cases h
  | succ fuel =>
    rw [anodeDecodeAnythingForFlags, if_pos hstructured] at h
    split at h
    · rename_i hother
      refine ⟨hother, ?_⟩
      rw [anodeDecodeOptionOrDefault] at h
      split at h
      · exact (congrArg (fun r => r.2.2.size) (Except.ok.inj h)).symm
      · cases h
    · rw [anodeDecodeStructured, hbare, if_neg Bool.false_ne_true] at h
      obtain ⟨⟨ok, rest⟩, hrun, h⟩ := bind_eq_ok.1 h
      cases ok with
      | true => exact absurd hrun (contents_false hkind _ _ _ _ _)
      | false => cases h

/-! ## What is found -/

theorem decodeLength_lt {data : Bytes} (hn : n ≤ data.length) {len : Int} {cb : Nat}
    (h : anodeDecodeLength data n = .ok (len, cb)) : len < 2 ^ 31 := by
  have hle := gint_le n
  by_cases hzero : gint n = 0
  · rw [anodeDecodeLength, if_pos hzero] at h
    cases h
    decide
  · cases data with
    | nil =>
      have hpeek : peek [] 0 = .error .outOfBounds := rfl
      rw [anodeDecodeLength, if_neg hzero, hpeek] at h
      cases h
    | cons b rest =>
      rw [length_cons] at hn
      rw [decodeLength_eq b rest hzero (by omega)] at h
      split at h
      · cases h
        have := b.toNat_lt
        omega
      · split at h
        · cases h
          decide
        · dsimp only at h
          split at h
          · cases h
            decide
          · obtain ⟨rfl, -⟩ := Prod.mk.inj (Except.ok.inj h)
            exact Int.bmod_lt (by decide)

theorem eq_of_bits {b : UInt8} (hlong : ¬ b &&& 128 = 0) (hcount : b &&& 0x7f = 0) : b = 0x80 := by
  have hall : ∀ n < 256, ¬ UInt8.ofNat n &&& 128 = 0 → UInt8.ofNat n &&& 0x7f = 0 → UInt8.ofNat n = 0x80 := by
    decide +kernel
  have hb := hall b.toNat b.toNat_lt
  rw [UInt8.ofNat_toNat] at hb
  exact hb hlong hcount

/-- Only the octet `0x80` stands for an indefinite length. -/
theorem decodeLength_indefinite {data : Bytes} (hn : n ≤ data.length) {cb : Nat}
    (h : anodeDecodeLength data n = .ok (-1, cb)) : cb = 1 ∧ data.head? = some 0x80 := by
  have hle := gint_le n
  by_cases hzero : gint n = 0
  · rw [anodeDecodeLength, if_pos hzero] at h
    cases congrArg Prod.fst (Except.ok.inj h)
  · cases data with
    | nil =>
      have hpeek : peek [] 0 = .error .outOfBounds := rfl
      rw [anodeDecodeLength, if_neg hzero, hpeek] at h
      cases h
    | cons b rest =>
      rw [length_cons] at hn
      rw [decodeLength_eq b rest hzero (by omega)] at h
      split at h
      · have hlen := congrArg Prod.fst (Except.ok.inj h)
        omega
      · rename_i hlong
        split at h
        · rename_i hindefinite
          cases h
          exact ⟨rfl, congrArg some (eq_of_bits hlong hindefinite)⟩
        · dsimp only at h
          split at h
          · cases congrArg Prod.fst (Except.ok.inj h)
          · rename_i hcaught
            obtain ⟨hlen, -⟩ := Prod.mk.inj (Except.ok.inj h)
            have hvalue := value_eq_decode 0 (rest.take (min (b &&& 0x7f).toNat (gint n - 1).toNat))
            rw [Nat.zero_mul, Nat.zero_add] at hvalue
            have hnonneg := wordOf_nonneg (w := 32) hcaught (by decide)
            rw [hvalue] at hnonneg
            have : 0 ≤ gint (BigEndian.decode (rest.take (min (b &&& 0x7f).toNat (gint n - 1).toNat))) :=
              hnonneg
            omega

/-- What is found at identifier octets, whatever follows them. -/
theorem found_cases {id : Bytes} {cls : UInt8} {tag : Nat}
    (hid : tagOctets id = some (cls, tag, id.length)) {more : Bytes} (hn : n ≤ (id ++ more).length)
    (h : anodeDecodeTlvForData (id ++ more) n = .ok (some tlv)) :
    tlv.cls = cls ∧ tlv.tag = (gint tag).toNat ∧ id.length ≤ tlv.off ∧ tlv.off ≤ gint n ∧
      tlv.buf = id ++ more ∧
      ((0 ≤ tlv.len ∧ tlv.len < 2 ^ 31 ∧ tlv.size = tlv.len.toNat + tlv.off) ∨
        (tlv.len = -1 ∧ tlv.size = n ∧ tlv.off = id.length + 1 ∧ more.head? = some 0x80)) := by
  rw [anodeDecodeTlvForData_eq] at h
  obtain ⟨header, hheader, h⟩ := bind_eq_ok.1 h
  cases header with
  | none => cases h
  | some hdr =>
    have hoff := decodeClsTagLen_le hheader
    rw [anodeDecodeClsTagLen, decodeClsTag_id hid more hn] at hheader
    split at hheader
    · rw [ok_bind] at hheader
      obtain ⟨_, -, hheader⟩ := bind_eq_ok.1 hheader
      obtain ⟨⟨len, cb⟩, hlen, hheader⟩ := bind_eq_ok.1 hheader
      rw [drop_left] at hlen
      have hmore : n - id.length ≤ more.length := by
        rw [length_append] at hn
        omega
      have hlt := decodeLength_lt hmore hlen
      have hindefinite := fun heq : len = -1 => decodeLength_indefinite hmore (heq ▸ hlen)
      split at hheader
      · cases hheader
      · split at hheader
        · cases hheader
        · cases hheader
          cases h
          dsimp only at hoff ⊢
          refine ⟨rfl, rfl, Nat.le_add_right _ _, hoff, rfl, ?_⟩
          rcases Int.lt_or_le len 0 with hneg | hnonneg
          · have heq : len = -1 := by omega
            obtain ⟨hcb, hhead⟩ := hindefinite heq
            exact .inr ⟨heq, if_pos hneg, by rw [hcb], hhead⟩
          · exact .inl ⟨hnonneg, hlt, if_neg (Int.not_lt.2 hnonneg)⟩
    · cases hheader

/-- Where all of the octets of an element are taken, its contents start behind its header. -/
theorem off_of_whole (hwf : e.WellFormed)
    (h : anodeDecodeTlvForData e.bytes e.bytes.length = .ok (some tlv)) (hsize : tlv.size = e.bytes.length) :
    tlv.off = e.id.length + e.lengthPart.length := by
  have hlow : -(2 ^ 31) ≤ gint e.bytes.length := @Int.le_bmod (e.bytes.length : Int) (2 ^ 32) (by decide)
  have hhigh : gint e.bytes.length < 2 ^ 31 := @Int.bmod_lt (e.bytes.length : Int) (2 ^ 32) (by decide)
  obtain ⟨cls, tag, hid, -, -⟩ := hwf.identifier
  have hlength := hwf.length
  have hbytes := e.bytes_eq
  have hfound := h
  rw [hbytes] at hfound
  obtain ⟨-, -, -, hoff, -, hform⟩ := found_cases hid (Nat.le_refl _) hfound
  rw [← hbytes] at hoff hform
  rcases hform with ⟨hnonneg, hlt, htotal⟩ | ⟨-, -, hplace, hhead⟩
  · -- the whole length is below `2 ^ 32`, so that it is not cut off
    have hcount : gint e.bytes.length = e.bytes.length := by
      have hdef := Int.bmod_def (e.bytes.length : Int) (2 ^ 32)
      rw [gint] at hoff hhigh ⊢
      rw [hdef] at hoff ⊢
      omega
    have hmore : e.bytes ++ [] = e.bytes := append_nil _
    obtain ⟨cls', tag', -, hheader, -⟩ := decodeClsTagLen_ber hwf [] (n := e.bytes.length)
      (by rw [hmore]) (by omega)
    rw [hmore] at hheader
    rw [anodeDecodeTlvForData_eq, hheader] at h
    split at h
    · rw [ok_bind] at h
      rw [← Option.some.inj (Except.ok.inj h)]
    · cases h
  · rw [hplace]
    cases hpart : e.lengthPart with
    | nil =>
      rw [hpart] at hlength
      cases hlength
    | cons b rest =>
      rw [hpart, cons_append, head?_cons] at hhead
      cases hhead
      rw [hpart] at hlength
      have hread : lengthOctets (0x80 :: rest) = some (-1, 1) := rfl
      rw [hread] at hlength
      rw [(Prod.mk.inj (Option.some.inj hlength)).2]

/-! ## Nothing is decoded -/

/-- A decoder that succeeds and takes some octets took no default. -/
theorem of_decodeAnything_size {forFlags : Decoder} {node : Node} {tlv : Atlv}
    (h : anodeDecodeAnything forFlags node tlv = .ok (true, node', tlv')) (hsize : tlv'.size ≠ 0) :
    forFlags node tlv node.flags = .ok (true, node', tlv') := by
  rw [anodeDecodeAnything] at h
  obtain ⟨⟨ok, rest⟩, hrun, h⟩ := bind_eq_ok.1 h
  cases ok with
  | true => exact hrun.trans h
  | false =>
    rw [if_neg Bool.false_ne_true, pure_eq_ok, anodeDecodeOptionOrDefault] at h
    split at h
    · exact absurd (congrArg (fun r => r.2.2.size) (Except.ok.inj h)).symm hsize
    · cases h

/-- What an element with an explicit tag is decoded from. -/
theorem of_explicit {forFlags : Decoder} {node : Node} {tlv : Atlv} {flags : Flags}
    (hexplicit : anodeCalcExplicitForFlags node flags = true)
    (h : anodeDecodeStructured forFlags fuel node tlv flags = .ok (true, node', tlv')) :
    ∃ ctlv inner outer, anodeDecodeTlvForContents tlv (tlv.buf.drop tlv.off) = .ok (some ctlv) ∧
      forFlags node ctlv { flags with tag := false } = .ok (true, inner, outer) ∧
      (0 ≤ tlv.len → tlv'.size = tlv.size) := by
  rw [anodeDecodeStructured, hexplicit, if_pos rfl] at h
  obtain ⟨⟨ok, rest⟩, hrun, h⟩ := bind_eq_ok.1 h
  cases ok with
  | false => cases h
  | true =>
    have hsize : 0 ≤ tlv.len → tlv'.size = tlv.size := by
      intro hnonneg
      dsimp only at h
      rw [if_pos rfl, decide_eq_true hnonneg, anodeDecodeFilled] at h
      split at h
      · cases h
      · rw [if_pos rfl] at h
        split at h
        · rw [of_finish h]
        · cases h
    rw [anodeDecodeExplicit] at hrun
    split at hrun
    · cases hrun
    · obtain ⟨found, hfound, hrun⟩ := bind_eq_ok.1 hrun
      cases found with
      | none => cases hrun
      | some ctlv =>
        obtain ⟨⟨ok, inner, outer⟩, hinner, hrun⟩ := bind_eq_ok.1 hrun
        cases ok with
        | false => cases hrun
        | true =>
          exact ⟨ctlv, inner, outer, of_step hfound, hinner, hsize⟩

/-- A structured octet string is found inside of the contents. -/
theorem found_inside {outer ctlv : Atlv} {more : Bytes} (hsize : outer.size = outer.buf.length)
    (hcontents : outer.buf.drop outer.off = 0x24 :: more)
    (h : anodeDecodeTlvForContents outer (0x24 :: more) = .ok (some ctlv)) :
    ctlv.cls = 0x20 ∧ ctlv.tag = 4 ∧ ctlv.off ≠ 0 := by
  have hlength := congrArg List.length hcontents
  rw [length_drop, length_cons] at hlength
  have hplace : distance outer.buf (0x24 :: more) = outer.off := by
    rw [distance, length_cons]
    omega
  rw [anodeDecodeTlvForContents, hplace, if_neg (by omega), if_neg (by omega)] at h
  obtain ⟨found, hfound, h⟩ := bind_eq_ok.1 h
  cases found with
  | none => cases h
  | some tlv =>
    have hid : tagOctets [0x24] = some (0x20, 4, [(0x24 : UInt8)].length) := by decide
    have hfound' : anodeDecodeTlvForData ([0x24] ++ more) (outer.size - outer.off) = .ok (some tlv) := hfound
    obtain ⟨hcls, htag, hoff, -, -, -⟩ := found_cases hid (by
      rw [length_append]
      have : [(0x24 : UInt8)].length = 1 := rfl
      omega) hfound'
    have hfour : (gint (4 : Nat)).toNat = 4 := by decide
    rw [hfour] at htag
    have hnotEnd : anodeCheckIndefiniteEnd ⟨tlv.cls, tlv.tag, tlv.off, tlv.len⟩ = false := by
      rw [anodeCheckIndefiniteEnd, htag, hcls]
      rfl
    dsimp only at h
    rw [hnotEnd, if_neg Bool.false_ne_true] at h
    cases h
    exact ⟨hcls, htag, Nat.ne_of_gt hoff⟩

theorem Ber.drop_header (e : Ber) : e.bytes.drop (e.id.length + e.lengthPart.length) = e.body := by
  rw [e.bytes_eq, ← drop_drop, drop_left, drop_left]

/-- The contents of an element start with those of the only element inside. -/
theorem Ber.body_of_items {e inner : Ber} (h : e.items = [inner]) : ∃ more, e.body = inner.bytes ++ more := by
  cases e with
  | primitive id len content => exact nomatch h
  | constructed id len items =>
    obtain rfl : items = [inner] := h
    exact ⟨[], rfl⟩
  | indefinite id items =>
    obtain rfl : items = [inner] := h
    exact ⟨Ber.endOfContents, by rw [Ber.body, Ber.bytesList, Ber.bytesList, append_nil]⟩

/-- All of the octets of a constructed string are never taken. -/
theorem constructed_not_taken (hkind : node.kind = .octetString) (h : StringFor node chunks e)
    (hfound : anodeDecodeTlvForData e.bytes e.bytes.length = .ok (some tlv))
    (hdecode : anodeDecodeAnythingForFlags fuel node tlv node.flags = .ok (true, node', tlv')) :
    tlv'.size ≠ e.bytes.length := by
  obtain ⟨cls, tag, hid, hstructured, -⟩ := h.wellFormed.identifier
  have hfound' := hfound
  rw [e.bytes_eq] at hfound'
  obtain ⟨hcls, -, -, -, hbuf, hform⟩ := found_cases hid (Nat.le_refl _) hfound'
  rw [← e.bytes_eq] at hbuf hform
  have hbit : tlv.cls &&& asn1ClassStructured ≠ 0 := by
    rw [hcls]
    rw [h.structured] at hstructured
    exact bne_iff_ne.1 hstructured
  have hpos : 0 < e.bytes.length := by
    have := lengthOctets_pos h.wellFormed.length
    rw [e.bytes_eq, length_append, length_append]
    omega
  intro hwhole
  cases h with
  | bare hbare _ _ =>
    have := (size_of_bare hkind hbit hbare hdecode).2
    omega
  | explicit inner hexplicit _ hwf _ hitems hinnerId hwraps =>
    cases fuel with
    | zero => exact nomatch hdecode
    | succ fuel =>
      rw [anodeDecodeAnythingForFlags, if_pos hbit] at hdecode
      split at hdecode
      · rw [anodeDecodeOptionOrDefault] at hdecode
        split at hdecode
        · have hzero := congrArg (fun r => r.2.2.size) (Except.ok.inj hdecode)
          dsimp only at hzero
          omega
        · exact nomatch hdecode
      · obtain ⟨ctlv, inner', outer', hcontents, hinner, hsame⟩ := of_explicit hexplicit hdecode
        have hsize : tlv.size = e.bytes.length := by
          rcases hform with ⟨hnonneg, -, -⟩ | ⟨-, hend, -, -⟩
          · rw [← hsame hnonneg, hwhole]
          · exact hend
        have hoff := off_of_whole hwf hfound hsize
        obtain ⟨more, hbody⟩ := Ber.body_of_items hitems
        have hdrop : tlv.buf.drop tlv.off = 0x24 :: (inner.lengthPart ++ inner.body ++ more) := by
          rw [hbuf, hoff, e.drop_header, hbody, inner.bytes_eq, hinnerId]
          rfl
        rw [hdrop] at hcontents
        obtain ⟨hctag, htag, hcoff⟩ := found_inside (by rw [hsize, hbuf]) hdrop hcontents
        have hcbit : ctlv.cls &&& asn1ClassStructured ≠ 0 := by
          rw [hctag]
          decide
        have hbare : anodeCalcExplicitForFlags node { node.flags with tag := false } = false := by
          rw [anodeCalcExplicitForFlags, Bool.false_and]
        have hcalc : anodeCalcTagForFlags node { node.flags with tag := false } = some 4 := by
          rw [anodeCalcTagForFlags, if_neg Bool.false_ne_true, hkind]
          rfl
        rcases (size_of_bare hkind hcbit hbare hinner).1 with hzero | hother
        · exact hcoff hzero
        · rw [hcalc, Option.getD_some, htag] at hother
          exact hother rfl

/-- A definition without the values. -/
theorem stringFor_clear (h : StringFor node chunks e) : StringFor (eggAsn1xClear node) chunks e := by
  cases node with
  | mk an children =>
    rw [eggAsn1xClear]
    cases h with
    | bare hbare htag hwraps => exact .bare e hbare htag hwraps
    | explicit inner hexplicit htag hwf hstructured hitems hid hwraps =>
      exact .explicit e inner hexplicit htag hwf hstructured hitems hid hwraps

theorem kind_clear (node : Node) : (eggAsn1xClear node).kind = node.kind := by
  cases node with
  | mk an children =>
    rw [eggAsn1xClear]
    rfl

/-- No constructed encoding of an octet string is decoded. -/
theorem constructed_string_undecoded (readTime : TimeReader) (fuel : Nat) (node : Node)
    (hkind : node.kind = .octetString) (chunks : List Bytes) (e : Ber)
    (h : StringFor node chunks e) : ¬ StringDecoded readTime fuel node chunks e.bytes := by
  rintro ⟨node', hdecode, -⟩
  rw [eggAsn1xDecode] at hdecode
  split at hdecode
  · cases hdecode
  · rename_i hsome
    obtain ⟨found, hfound, hdecode⟩ := bind_eq_ok.1 hdecode
    cases found with
    | none => cases hdecode
    | some tlv =>
      obtain ⟨⟨ok, asn, tlv'⟩, hrun, hdecode⟩ := bind_eq_ok.1 hdecode
      dsimp only at hdecode
      split at hdecode
      · rename_i htaken
        rw [Bool.and_eq_true, beq_iff_eq] at htaken
        obtain ⟨rfl, hsize⟩ := htaken
        have hpos := length_pos_iff.2 hsome
        exact constructed_not_taken ((kind_clear node).trans hkind) (stringFor_clear h) (of_step hfound)
          (of_decodeAnything_size hrun (by omega)) hsize
      · cases hdecode

/-- An `OCTET STRING` node of its own. -/
def bareOctetString : Node := .mk { row := { kind := .octetString } } []

/-- The string `ab` in two chunks. -/
def twoChunks : Ber := .constructed [0x24] [0x06] [.primitive [0x04] [0x01] [0x61], .primitive [0x04] [0x01] [0x62]]

theorem constructed_string_sample :
    ¬ StringDecoded (fun _ _ => false) 10 bareOctetString [[0x61], [0x62]] twoChunks.bytes := by
  have hchunk : ∀ c : UInt8, (Ber.primitive [0x04] [0x01] [c]).WellFormed := by
    intro c
    rw [Ber.WellFormed]
    exact ⟨⟨0x00, 4, by decide, by decide, by decide⟩, rfl⟩
  have hwf : twoChunks.WellFormed := by
    rw [twoChunks, Ber.WellFormed, Ber.WellFormedList, Ber.WellFormedList, Ber.WellFormedList]
    exact ⟨⟨0x20, 4, by decide, by decide, by decide⟩, by decide, hchunk 0x61, hchunk 0x62, trivial⟩
  have hwraps : twoChunks.Wraps [[0x61], [0x62]] :=
    ⟨hwf, rfl, .cons ⟨rfl, rfl, rfl⟩ (.cons ⟨rfl, rfl, rfl⟩ .nil)⟩
  exact constructed_string_undecoded (fun _ _ => false) 10 bareOctetString rfl [[0x61], [0x62]] twoChunks
    (.bare twoChunks rfl ⟨0x20, 4, by decide, by decide⟩ hwraps)

/-- The string `ab` in two chunks is refused, and so is an empty one without a chunk. -/
theorem two_chunks_refused :
    (eggAsn1xDecode (fun _ _ => false) 10 bareOctetString
      [0x24, 0x06, 0x04, 0x01, 0x61, 0x04, 0x01, 0x62]).map Prod.fst = .ok false ∧
    (eggAsn1xDecode (fun _ _ => false) 10 bareOctetString [0x24, 0x00]).map Prod.fst = .ok false ∧
    ¬ StringDecoded (fun _ _ => false) 10 bareOctetString [[0x61], [0x62]]
      [0x24, 0x06, 0x04, 0x01, 0x61, 0x04, 0x01, 0x62] := by
  have hrefused : (eggAsn1xDecode (fun _ _ => false) 10 bareOctetString
      [0x24, 0x06, 0x04, 0x01, 0x61, 0x04, 0x01, 0x62]).map Prod.fst = .ok false := by decide +kernel
  refine ⟨hrefused, by decide +kernel, ?_⟩
  rintro ⟨node', hdecode, -⟩
  rw [hdecode] at hrefused
  exact nomatch hrefused

end MateKeyring.Asn1x
