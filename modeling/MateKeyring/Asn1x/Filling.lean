import MateKeyring.Asn1x.Encode

/-!
# Trees that are filled with values

What a tree carries, apart from how it came into the tree. A `Value` says of a node that it is absent, that
it is an element with some contents, or that it is a `SEQUENCE` of the values of its children. `Fits` says
which values a blank tree can carry. Of such a value

* `eggAsn1xDecode_value` says that decoding its bytes into the blank tree gives `filled`, and
* `eggAsn1xEncode_value`, in the module about loading, says that encoding the tree that was `loaded` with it
  gives its bytes.

So a value that was written into one tree can be read from another of the same definition.
-/

set_option autoImplicit false

namespace MateKeyring.Asn1x

open Lib List

variable {content : Bytes} {cls : UInt8} {node : Node} {tag : Nat} {an base : Anode}
  {outer : Atlv}

/-! ## Values -/

/-- What a node is filled with. -/
inductive Value where
  | absent
  | element (cls : UInt8) (tag : Nat) (content : Bytes)
  | sequence (items : List Value)

namespace Value

mutual

/-- The encoding of a value. -/
def bytes : Value → Bytes
  | absent => []
  | .element cls tag content => Asn1x.element cls tag content
  | .sequence items => Asn1x.element asn1ClassStructured 16 (bytesList items)

/-- The encodings of some values, one after the other. -/
def bytesList : List Value → Bytes
  | [] => []
  | v :: vs => v.bytes ++ bytesList vs

end

mutual

/-- The number of calls that are nested in the decoding of a value. -/
def depth : Value → Nat
  | absent => 0
  | .element _ _ _ => 0
  | .sequence items => depthList items + 1

/-- The greatest of the depths. -/
def depthList : List Value → Nat
  | [] => 0
  | v :: vs => max v.depth (depthList vs)

end

/-- Whether there is no value. -/
def isAbsent : Value → Bool
  | absent => true
  | .element _ _ _ => false
  | .sequence _ => false

end Value

/-- The `Atlv` of an element that was found in front of `rest`. -/
def foundTlv (cls : UInt8) (tag : Nat) (content rest : Bytes) : Atlv where
  cls := cls
  tag := tag
  off := (anodeEncodeClsTagLen cls tag content.length).length
  len := content.length
  buf := element cls tag content ++ rest
  size := (element cls tag content).length

/-- The `Atlv` of a value that was found in front of `rest`. -/
def Value.tlv (rest : Bytes) : Value → Atlv
  | .absent => endTlv rest
  | .element cls tag content => foundTlv cls tag content rest
  | .sequence items => foundTlv asn1ClassStructured 16 (Value.bytesList items) rest

/-! ## Which values fit -/

/-- Whether contents pass the checks of the type of a node. -/
def contentValid (node : Node) (content : Bytes) : Bool :=
  match node.kind with
  | .integer =>
    !content.isEmpty && (!node.flags.list ||
      match anodeReadIntegerAsUlong content with
      | none => false
      | some value => listed node value)
  | .octetString => anodeValidateSize node content.length
  | .objectId => (anodeReadObjectId content).isSome
  | .any => true
  | _ => false

/-- Whether the class and the tag of an element are those of the type of a node. -/
def headerFits (node : Node) (cls : UInt8) (tag : Nat) : Bool :=
  match node.kind with
  | .any => cls &&& 0xe0 == cls
  | kind => cls == asn1ClassUniversal && universalTag kind node.flags == some tag

/-- A node without a value. -/
def Node.Unset (node : Node) : Prop := node.an.tlv = none ∧ node.an.enc = none

mutual

/-- Whether a blank node can carry a value. -/
def Fits : Node → Value → Prop
  | node, .absent =>
    node.Unset ∧ node.flags.option = true ∧ anodeEncodePrepare true node = .ok (false, node) ∧
      traverseAndSortSetOf node = .ok node
  | node, .element cls tag content =>
    node.Unset ∧ node.children = [] ∧ node.flags.tag = false ∧ 0 < tag ∧ tag < 31 ∧
      headerFits node cls tag = true ∧ contentValid node content = true
  | node, .sequence items =>
    node.Unset ∧ node.kind = .sequence ∧ node.flags.tag = false ∧ items.all Value.isAbsent = false ∧
      FitsList node.children items

/-- Whether the children can carry the items. Nothing follows an item that is absent. -/
def FitsList : List Node → List Value → Prop
  | [], [] => True
  | child :: children, v :: vs =>
    Fits child v ∧ (v.isAbsent → vs.all Value.isAbsent) ∧ FitsList children vs
  | _, _ => False

end

/-! ## Elements that are found -/

theorem length_element (cls : UInt8) (tag : Nat) (content : Bytes) :
    (element cls tag content).length =
      (anodeEncodeClsTagLen cls tag content.length).length + content.length := by
  rw [element, length_append]

theorem length_element_pos (cls : UInt8) (htag : tag < 31) (content : Bytes) :
    0 < (anodeEncodeClsTagLen cls tag content.length).length := by
  rw [length_anodeEncodeClsTagLen cls htag]
  omega

theorem drop_foundTlv (cls : UInt8) (tag : Nat) (content rest : Bytes) :
    (foundTlv cls tag content rest).buf.drop (foundTlv cls tag content rest).off = content ++ rest := by
  rw [foundTlv, element, append_assoc, drop_left]

@[simp] theorem content_foundTlv (cls : UInt8) (tag : Nat) (content rest : Bytes) :
    (foundTlv cls tag content rest).content = content := by
  rw [Atlv.content, drop_foundTlv]
  exact take_left

@[simp] theorem stop_foundTlv (cls : UInt8) (tag : Nat) (content rest : Bytes) :
    (foundTlv cls tag content rest).stop = rest := by
  rw [Atlv.stop, foundTlv, drop_left]

theorem decodeTlvForData_found {cls : UInt8} {tag n : Nat} (content rest : Bytes)
    (hcls : cls &&& 0xe0 = cls) (htag : tag < 31) (hn : (element cls tag content).length ≤ n)
    (hn' : n < 2 ^ 31) :
    anodeDecodeTlvForData (element cls tag content ++ rest) n =
      .ok (some (foundTlv cls tag content rest)) := by
  rw [length_element] at hn
  have hheader := decodeClsTagLen_header cls (content ++ rest) htag hn hn'
  rw [anodeDecodeTlvForData_eq, element, append_assoc, hheader, ok_bind]
  dsimp only
  have hdefinite : ¬ ((content.length : Int) < 0) := by omega
  rw [if_neg hdefinite, hcls, foundTlv, length_element, element, append_assoc, Int.toNat_natCast,
    Nat.add_comm content.length]
  rfl

/-- The contents of an element below two gigabytes are in its bytes. -/
theorem element_inj {content content' : Bytes} (hcls : cls &&& 0xe0 = cls) (htag : tag < 31)
    (hlt : (element cls tag content).length < 2 ^ 31)
    (h : element cls tag content = element cls tag content') : content = content' := by
  have hleft := decodeTlvForData_found content [] hcls htag (Nat.le_refl _) hlt
  have hright := decodeTlvForData_found content' [] hcls htag (Nat.le_of_eq (congrArg List.length h).symm) hlt
  rw [← h, hleft] at hright
  have htlv := Option.some.inj (Except.ok.inj hright)
  calc content = (foundTlv cls tag content []).content := (content_foundTlv cls tag content []).symm
    _ = (foundTlv cls tag content' []).content := by rw [htlv]
    _ = content' := content_foundTlv cls tag content' []

/-- What is left of the contents behind `pre`. -/
theorem distance_of_append {buf pre rest : Bytes} (h : buf = pre ++ rest) :
    distance buf rest = pre.length := by
  rw [distance, h, length_append]
  omega

theorem decodeTlvForContents_found (pre content rest : Bytes) (hcls : cls &&& 0xe0 = cls)
    (htag : tag < 31) (htag' : 0 < tag) (hbuf : outer.buf = pre ++ (element cls tag content ++ rest))
    (hsize : pre.length + (element cls tag content).length ≤ outer.size) (hlt : outer.size < 2 ^ 31) :
    anodeDecodeTlvForContents outer (element cls tag content ++ rest) =
      .ok (some (foundTlv cls tag content rest)) := by
  have hpos := length_element_pos cls htag content
  have hlen := length_element cls tag content
  rw [anodeDecodeTlvForContents, distance_of_append hbuf, if_neg (by omega), if_neg (by omega),
    decodeTlvForData_found content rest hcls htag (by omega) (by omega), ok_bind]
  -- a tag of zero would be the end of indefinite contents
  have hend : anodeCheckIndefiniteEnd ⟨cls, tag, (anodeEncodeClsTagLen cls tag content.length).length,
      content.length⟩ = false := by
    rw [anodeCheckIndefiniteEnd]
    simp only [Bool.and_eq_false_iff, beq_eq_false_iff_ne, ne_eq]
    exact .inl (.inr (by omega))
  dsimp only [foundTlv] at hend ⊢
  rw [hend]
  rfl

/-! ## Decoding a value -/

mutual

/-- The blank node once a value in front of `rest` was decoded into it. -/
def filled : Value → Node → Bytes → Node
  | .absent, node, _ => node
  | .element cls tag content, node, rest =>
    .mk { node.an with tlv := some (foundTlv cls tag content rest) } node.children
  | .sequence items, node, rest =>
    .mk { node.an with tlv := some (foundTlv asn1ClassStructured 16 (Value.bytesList items) rest) }
      (filledList items node.children rest)

/-- The children once the items in front of `rest` were decoded into them. -/
def filledList : List Value → List Node → Bytes → List Node
  | v :: vs, child :: children, rest =>
    filled v child (Value.bytesList vs ++ rest) :: filledList vs children rest
  | _, children, _ => children

end

theorem clrTlv_of_unset (h : node.Unset) : node.clrTlv = node := by
  cases node with
  | mk an children =>
    have htlv : an.tlv = none := h.1
    rw [Node.clrTlv, ← htlv]

/-- The tag of an element that fits is the one that is looked for. -/
theorem calcTag_of_headerFits (hflags : node.flags.tag = false) (h : headerFits node cls tag = true) :
    (anodeCalcTagForFlags node node.flags).getD tag = tag ∧ cls &&& 0xe0 = cls := by
  rw [anodeCalcTagForFlags, hflags, if_neg Bool.false_ne_true]
  rw [headerFits] at h
  split at h
  · rename_i hkind
    rw [hkind]
    exact ⟨rfl, beq_iff_eq.1 h⟩
  · rw [Bool.and_eq_true, beq_iff_eq, beq_iff_eq] at h
    rw [h.2, h.1]
    exact ⟨rfl, rfl⟩

/-- The types of the nodes that carry an element. -/
theorem kind_of_contentValid (h : contentValid node content = true) :
    node.kind = .integer ∨ node.kind = .octetString ∨ node.kind = .objectId ∨ node.kind = .any := by
  rw [contentValid] at h
  split at h
  · rename_i hkind
    exact .inl hkind
  · rename_i hkind
    exact .inr (.inl hkind)
  · rename_i hkind
    exact .inr (.inr (.inl hkind))
  · rename_i hkind
    exact .inr (.inr (.inr hkind))
  · exact absurd h Bool.false_ne_true

/-- An element that fits is decoded, whether it is structured or not. -/
theorem decodeElement (hfits : Fits node (.element cls tag content)) (rest : Bytes)
    (forFlags : Decoder) (fuel : Nat) (flags : Flags) (hflags : flags.tag = false) :
    (if cls &&& asn1ClassStructured ≠ 0 then
        anodeDecodeStructured forFlags fuel node (foundTlv cls tag content rest) flags
      else anodeDecodePrimitive forFlags node (foundTlv cls tag content rest)) =
      .ok (true, filled (.element cls tag content) node rest, foundTlv cls tag content rest) := by
  rw [Fits] at hfits
  obtain ⟨hunset, -, -, -, htag, hheader, hvalid⟩ := hfits
  have hlen : ¬ ((foundTlv cls tag content rest).len < 0) := Int.not_lt.2 (Int.natCast_nonneg _)
  have hfinish : finish node (foundTlv cls tag content rest) =
      .ok (true, filled (.element cls tag content) node rest, foundTlv cls tag content rest) := by
    rw [finish, Node.setTlvData, if_pos ⟨hunset.1, by omega⟩, filled]
    rfl
  split
  · rename_i hstructured
    have hany : node.kind = .any := by
      rw [headerFits] at hheader
      split at hheader
      · rename_i hkind
        exact hkind
      · rw [Bool.and_eq_true, beq_iff_eq] at hheader
        rw [hheader.1] at hstructured
        exact absurd rfl hstructured
    have hexplicit : anodeCalcExplicitForFlags node flags = false := by
      rw [anodeCalcExplicitForFlags, hflags, Bool.false_and]
    have hlast : (foundTlv cls tag content rest).off + (foundTlv cls tag content rest).len.toNat =
        (foundTlv cls tag content rest).size := by
      rw [foundTlv, length_element]
      rfl
    rw [anodeDecodeStructured, hexplicit, if_neg Bool.false_ne_true, anodeDecodeContents, hany]
    rw [anodeDecodeStructAny, if_neg hlen, ok_bind, pure_eq_ok, ok_bind]
    dsimp only
    rw [if_pos rfl, anodeDecodeFilled, if_neg hlen]
    rw [if_pos (by simp only [decide_eq_true_eq]; omega), if_pos hlast]
    exact hfinish
  · rw [anodeDecodePrimitive, if_neg hlen]
    rcases kind_of_contentValid hvalid with hkind | hkind | hkind | hkind <;> rw [hkind] <;> exact hfinish

theorem bytesList_of_absent {vs : List Value} (h : vs.all Value.isAbsent = true) : Value.bytesList vs = [] := by
  induction vs with
  | nil => rfl
  | cons v vs ih =>
    rw [all_cons, Bool.and_eq_true] at h
    cases v with
    | absent => exact ih h.2
    | element cls tag content => exact absurd h.1 Bool.false_ne_true
    | sequence items => exact absurd h.1 Bool.false_ne_true

variable {v : Value}

/-- The next value among the contents of `outer`, where `pre` was read. -/
theorem decodeTlvForContents_value (hfits : Fits node v) (pre more rest : Bytes)
    (habsent : v.isAbsent = true → more = []) (hbuf : outer.buf = pre ++ (v.bytes ++ (more ++ rest)))
    (hsize : outer.size = pre.length + (v.bytes ++ more).length) (hlt : outer.size < 2 ^ 31) :
    anodeDecodeTlvForContents outer (v.bytes ++ (more ++ rest)) = .ok (some (v.tlv (more ++ rest))) := by
  rw [length_append] at hsize
  cases v with
  | absent =>
    have hmore := habsent rfl
    subst hmore
    rw [anodeDecodeTlvForContents, distance_of_append hbuf, if_pos (by simpa [Value.bytes] using hsize.symm)]
    rfl
  | element cls tag content =>
    rw [Fits] at hfits
    obtain ⟨-, -, hflags, htag', htag, hheader, -⟩ := hfits
    rw [Value.bytes] at hbuf hsize ⊢
    exact decodeTlvForContents_found pre content (more ++ rest) (calcTag_of_headerFits hflags hheader).2
      htag htag' hbuf (by omega) hlt
  | sequence items =>
    rw [Value.bytes] at hbuf hsize ⊢
    exact decodeTlvForContents_found pre (Value.bytesList items) (more ++ rest) (by decide) (by decide)
      (by decide) hbuf (by omega) hlt

theorem stop_tlv (v : Value) (rest : Bytes) : (v.tlv rest).stop = rest := by
  cases v with
  | absent => rfl
  | element cls tag content => exact stop_foundTlv cls tag content rest
  | sequence items => exact stop_foundTlv _ _ _ rest

/-- How far the contents of `outer` were read once the value behind `pre` was. -/
theorem contentLen_value (pre rest : Bytes) (hbuf : outer.buf = pre ++ (v.bytes ++ rest))
    (hoff : outer.off ≤ pre.length) (hlt : pre.length + v.bytes.length < 2 ^ 31) :
    contentLen outer (v.tlv rest) = ((pre ++ v.bytes).length : Int) - outer.off := by
  have hplace : (v.tlv rest).buf = v.bytes ++ rest ∧ (v.tlv rest).size = v.bytes.length := by
    cases v with
    | absent => exact ⟨rfl, rfl⟩
    | element cls tag content => exact ⟨rfl, rfl⟩
    | sequence items => exact ⟨rfl, rfl⟩
  rw [contentLen, hplace.1, hplace.2, distance_of_append hbuf, length_append]
  have hnat : ((pre.length + v.bytes.length : Nat) : Int) - outer.off =
      ((pre.length + v.bytes.length - outer.off : Nat) : Int) := by omega
  rw [hnat, gint_of_lt (by omega)]

/-- The flags of a node are enough once the element was found. -/
theorem decodeAnything_of_forFlags {forFlags : Decoder} {node node' : Node} {tlv tlv' : Atlv}
    (h : forFlags node tlv node.flags = .ok (true, node', tlv')) :
    anodeDecodeAnything forFlags node tlv = .ok (true, node', tlv') := by
  rw [anodeDecodeAnything, h]
  rfl

/-- An element with the tag that is looked for is decoded by its form. -/
theorem decodeForFlags_found (content rest : Bytes) (fuel : Nat) {flags : Flags} (htag : tag < 31)
    (hmatch : (anodeCalcTagForFlags node flags).getD tag = tag) :
    anodeDecodeAnythingForFlags (fuel + 1) node (foundTlv cls tag content rest) flags =
      if cls &&& asn1ClassStructured ≠ 0 then
        anodeDecodeStructured (anodeDecodeAnythingForFlags fuel) fuel node (foundTlv cls tag content rest)
          flags
      else anodeDecodePrimitive (anodeDecodeAnythingForFlags fuel) node (foundTlv cls tag content rest) := by
  have hoff := length_element_pos cls htag content
  rw [anodeDecodeAnythingForFlags, if_neg]
  · rfl
  · rintro (hzero | hother)
    · exact absurd hzero (Nat.pos_iff_ne_zero.1 hoff)
    · exact hother hmatch

/-- A sequence whose contents were decoded to their end is decoded. -/
theorem decodeSequence {children : List Node} (hunset : node.Unset) (hkind : node.kind = .sequence)
    (hflags : node.flags.tag = false) (rest : Bytes) (fuel : Nat)
    (h : anodeDecodeSequenceOrSet (anodeDecodeAnythingForFlags fuel) node.children
        { foundTlv asn1ClassStructured 16 content rest with len := 0 } (content ++ rest) =
      .ok (true, children, foundTlv asn1ClassStructured 16 content rest)) :
    anodeDecodeAnythingForFlags (fuel + 1) node (foundTlv asn1ClassStructured 16 content rest) node.flags =
      .ok (true, .mk { node.an with tlv := some (foundTlv asn1ClassStructured 16 content rest) } children,
        foundTlv asn1ClassStructured 16 content rest) := by
  have htag : (anodeCalcTagForFlags node node.flags).getD 16 = 16 := by
    rw [anodeCalcTagForFlags, hflags, if_neg Bool.false_ne_true, hkind]
    rfl
  have hexplicit : anodeCalcExplicitForFlags node node.flags = false := by
    rw [anodeCalcExplicitForFlags, hflags, Bool.false_and]
  have hdefinite : ¬ ((foundTlv asn1ClassStructured 16 content rest).len < 0) :=
    Int.not_lt.2 (Int.natCast_nonneg _)
  have hlast : (foundTlv asn1ClassStructured 16 content rest).off +
      (foundTlv asn1ClassStructured 16 content rest).len.toNat =
        (foundTlv asn1ClassStructured 16 content rest).size := by
    rw [foundTlv, length_element]
    rfl
  rw [decodeForFlags_found content rest fuel (by decide) htag, if_pos (by decide), anodeDecodeStructured,
    hexplicit, if_neg Bool.false_ne_true, anodeDecodeContents, hkind]
  rw [drop_foundTlv, h, ok_bind, pure_eq_ok, ok_bind]
  dsimp only
  rw [if_pos rfl, anodeDecodeFilled, if_neg hdefinite]
  rw [if_pos (by simp only [decide_eq_true_eq]; omega), if_pos hlast, finish, Node.setTlvData,
    if_pos ⟨hunset.1, by dsimp only; omega⟩]
  rfl

mutual

/-- A value that fits is decoded. -/
theorem decode_value : ∀ (v : Value) (node : Node), Fits node v → ∀ (rest : Bytes) (fuel : Nat),
    v.depth < fuel → v.bytes.length < 2 ^ 31 →
      anodeDecodeAnything (anodeDecodeAnythingForFlags fuel) node (v.tlv rest) =
        .ok (true, filled v node rest, v.tlv rest)
  | _, _, _, _, 0, hfuel, _ => absurd hfuel (Nat.not_lt_zero _)
  | .absent, node, hfits, rest, fuel + 1, _, _ => by
    rw [Fits] at hfits
    obtain ⟨hunset, hoption, -, -⟩ := hfits
    apply decodeAnything_of_forFlags
    rw [anodeDecodeAnythingForFlags, Value.tlv, if_pos (.inl rfl), anodeDecodeOptionOrDefault, hoption,
      Bool.true_or, if_pos rfl, clrTlv_of_unset hunset, filled]
    rfl
  | .element cls tag content, node, hfits, rest, fuel + 1, _, _ => by
    have hfits' := hfits
    rw [Fits] at hfits'
    obtain ⟨-, -, hflags, -, htag, hheader, -⟩ := hfits'
    have hdecode := decodeElement hfits rest (anodeDecodeAnythingForFlags fuel) fuel node.flags hflags
    apply decodeAnything_of_forFlags
    rw [Value.tlv, decodeForFlags_found content rest fuel htag (calcTag_of_headerFits hflags hheader).1]
    exact hdecode
  | .sequence items, node, hfits, rest, fuel + 1, hfuel, hsize => by
    rw [Fits] at hfits
    obtain ⟨hunset, hkind, hflags, -, hlist⟩ := hfits
    rw [Value.bytes] at hsize
    rw [Value.depth] at hfuel
    have hlength := length_element asn1ClassStructured 16 (Value.bytesList items)
    -- nothing of the contents was read yet
    have hchildren := decode_values items node.children hlist
      (anodeEncodeClsTagLen asn1ClassStructured 16 (Value.bytesList items).length) rest
      { foundTlv asn1ClassStructured 16 (Value.bytesList items) rest with len := 0 } fuel (by omega)
      (append_assoc _ _ _) hlength hsize (Nat.le_refl _) (Int.sub_self _).symm
    have hfull : ((element asn1ClassStructured 16 (Value.bytesList items)).length : Int) -
        ((anodeEncodeClsTagLen asn1ClassStructured 16 (Value.bytesList items).length).length : Int) =
          (Value.bytesList items).length := by
      omega
    dsimp only [foundTlv] at hchildren
    rw [hfull] at hchildren
    apply decodeAnything_of_forFlags
    exact decodeSequence hunset hkind hflags rest fuel hchildren

/-- The items that fit are decoded, one after the other. -/
theorem decode_values : ∀ (vs : List Value) (children : List Node), FitsList children vs →
    ∀ (pre rest : Bytes) (outer : Atlv) (fuel : Nat), Value.depthList vs < fuel →
      outer.buf = pre ++ (Value.bytesList vs ++ rest) →
      outer.size = pre.length + (Value.bytesList vs).length → outer.size < 2 ^ 31 →
      outer.off ≤ pre.length → outer.len = (pre.length : Int) - outer.off →
      anodeDecodeSequenceOrSet (anodeDecodeAnythingForFlags fuel) children outer
          (Value.bytesList vs ++ rest) =
        .ok (true, filledList vs children rest, { outer with len := (outer.size : Int) - outer.off })
  | [], [], _, pre, rest, outer, fuel, _, _, hsize, _, _, hlen => by
    rw [Value.bytesList, length_nil, Nat.add_zero] at hsize
    have hread : (outer.size : Int) - outer.off = outer.len := by rw [hlen, hsize]
    rw [anodeDecodeSequenceOrSet, hread, cAssert_of_true (by omega)]
    rfl
  | [], _ :: _, hfits, _, _, _, _, _, _, _, _, _, _ => by
    simp only [FitsList] at hfits
  | _ :: _, [], hfits, _, _, _, _, _, _, _, _, _, _ => by
    simp only [FitsList] at hfits
  | v :: vs, child :: children, hfits, pre, rest, outer, fuel, hfuel, hbuf, hsize, hlt, hoff, _ => by
    rw [FitsList] at hfits
    obtain ⟨hchild, habsent, hrest⟩ := hfits
    rw [Value.depthList] at hfuel
    rw [Value.bytesList] at hbuf hsize
    rw [append_assoc] at hbuf
    have hsize' := hsize
    rw [length_append] at hsize'
    have hfound := decodeTlvForContents_value hchild pre (Value.bytesList vs) rest
      (fun h => bytesList_of_absent (habsent h)) hbuf hsize hlt
    have hvalue := decode_value v child hchild (Value.bytesList vs ++ rest) fuel (by omega) (by omega)
    have hread := contentLen_value pre (Value.bytesList vs ++ rest) hbuf hoff (by omega)
    have hmore := decode_values vs children hrest (pre ++ v.bytes) rest
      { outer with len := ((pre ++ v.bytes).length : Int) - outer.off } fuel (by omega)
      (by rw [append_assoc]; exact hbuf)
      (by rw [length_append]; dsimp only; omega) hlt
      (by rw [length_append]; dsimp only; omega) rfl
    rw [Value.bytesList, append_assoc, anodeDecodeSequenceOrSet, hfound, step_ok, ok_bind]
    dsimp only
    rw [hvalue, ok_bind]
    rw [if_pos rfl, stop_tlv, hread, hmore, filledList]
    rfl

end

/-! ## Validation -/

/-- A node that has a value with some contents in memory. -/
structure Holding (an base : Anode) (cls : UInt8) (content : Bytes) : Prop where
  row : an.row = base.row
  join : an.join = base.join
  opts : an.opts = base.opts
  tlv : ∃ tlv, an.tlv = some tlv ∧ tlv.isNull = false ∧ tlv.cls = cls ∧ tlv.len = content.length ∧
    tlv.content = content

mutual

/-- A tree that carries a value, `base` being the blank tree. -/
def Carries : Value → (base node : Node) → Prop
  | .absent, base, node => node = base
  | .element cls _ content, base, node =>
    Holding node.an base.an cls content ∧ node.children = base.children
  | .sequence items, base, node =>
    Holding node.an base.an asn1ClassStructured (Value.bytesList items) ∧
      CarriesList items base.children node.children

/-- The children carry the items. -/
def CarriesList : List Value → (bases nodes : List Node) → Prop
  | [], [], nodes => nodes = []
  | v :: vs, base :: bases, nodes =>
    ∃ node rest, nodes = node :: rest ∧ Carries v base node ∧ CarriesList vs bases rest
  | _, _, _ => False

end

/-- What is looked at of a node besides its value does not change. -/
theorem Holding.kind_eq (h : Holding an base cls content) (children children' : List Node) :
    (Node.mk an children).kind = (Node.mk base children').kind := by
  rw [Node.kind, Node.kind]
  dsimp only [Node.an]
  rw [h.row, h.join]

theorem Holding.flags_eq (h : Holding an base cls content) (children children' : List Node) :
    (Node.mk an children).flags = (Node.mk base children').flags := by
  rw [Node.flags, Node.flags]
  dsimp only [Node.an]
  rw [h.row, h.join]

theorem anodeParseSize_congr {a b : Node} (h : a.an.opts = b.an.opts) (fuel : Nat)
    (text : Option Bytes) : anodeParseSize a fuel text = anodeParseSize b fuel text := by
  have hlookup : ∀ text, anodeOptLookupName a .integer text = anodeOptLookupName b .integer text := by
    intro text
    rw [anodeOptLookupName, anodeOptLookupName, h]
  induction fuel generalizing text with
  | zero => rfl
  | succ fuel ih =>
    cases text with
    | none => rfl
    | some text => simp only [anodeParseSize, hlookup, ih]

theorem anodeValidateSize_congr {a b : Node} (hopts : a.an.opts = b.an.opts) (hflags : a.flags = b.flags)
    (length : Nat) : anodeValidateSize a length = anodeValidateSize b length := by
  have hlookup : anodeOptLookup a .size = anodeOptLookup b .size := by
    rw [anodeOptLookup, anodeOptLookup, hopts]
  simp only [anodeValidateSize, hflags, hlookup, anodeParseSize_congr hopts, hopts]

theorem Holding.contentValid_eq (h : Holding an base cls content) (children children' : List Node) :
    contentValid (.mk an children) content = contentValid (.mk base children') content := by
  have hopts : (Node.mk an children).an.opts = (Node.mk base children').an.opts := h.opts
  have hlisted : ∀ value, listed (.mk an children) value = listed (.mk base children') value := by
    intro value
    rw [listed, listed, anodeOptsLookup, anodeOptsLookup, hopts]
  simp only [contentValid, h.kind_eq children children', h.flags_eq children children', hlisted,
    anodeValidateSize_congr hopts (h.flags_eq children children')]

section Validate

variable (readTime : TimeReader)

/-- The contents of an element are checked. -/
theorem validate_holding {children children' : List Node} (h : Holding an base cls content)
    (hfits : Fits (.mk base children') (.element cls tag content)) :
    anodeValidateAnything readTime (.mk an children) = .ok true := by
  rw [Fits] at hfits
  obtain ⟨-, -, -, -, -, hheader, hvalid⟩ := hfits
  rw [← h.contentValid_eq children children'] at hvalid
  obtain ⟨tlv, htlv, hnull, hcls, hlen, hcontent⟩ := h.tlv
  have hkindEq := h.kind_eq children children'
  rw [anodeValidateAnything, htlv]
  dsimp only
  rw [hnull, if_neg Bool.false_ne_true]
  rcases kind_of_contentValid hvalid with hkind | hkind | hkind | hkind
  · rw [contentValid, hkind] at hvalid
    rw [hkind, anodeValidateInteger, hlen, hcontent]
    simp only [Bool.and_eq_true, Bool.not_eq_true', isEmpty_eq_false_iff, Bool.or_eq_true] at hvalid
    have hpos := length_pos_iff.2 hvalid.1
    dsimp only
    rw [if_neg (by omega)]
    split
    · rename_i hlist
      rw [hlist] at hvalid
      exact congrArg Except.ok (hvalid.2.resolve_left (by decide))
    · rfl
  · rw [contentValid, hkind] at hvalid
    have hplain : cls = asn1ClassUniversal := by
      rw [headerFits, ← hkindEq, hkind] at hheader
      simp only [Bool.and_eq_true, beq_iff_eq] at hheader
      exact hheader.1
    rw [hkind, anodeValidateString, anodeReadString, hcls, hplain]
    rw [if_neg (by decide), ok_bind, hcontent]
    exact congrArg Except.ok hvalid
  · rw [contentValid, hkind] at hvalid
    rw [hkind, hcontent]
    exact congrArg Except.ok hvalid
  · rw [hkind]

mutual

/-- A tree that carries a value that fits is valid. -/
theorem validate_carries : ∀ (v : Value) (base node : Node), Fits base v → Carries v base node →
    anodeValidateAnything readTime node = .ok true
  | .absent, base, node, hfits, hcarries => by
    rw [Carries] at hcarries
    rw [Fits] at hfits
    subst hcarries
    obtain ⟨hunset, hoption, -⟩ := hfits
    cases node with
    | mk an children =>
      have htlv : an.tlv = none := hunset.1
      rw [anodeValidateAnything, htlv]
      rw [hoption]
      rfl
  | .element cls tag content, base, node, hfits, hcarries => by
    rw [Carries] at hcarries
    cases base with
    | mk ban bchildren =>
      cases node with
      | mk an children => exact validate_holding readTime hcarries.1 hfits
  | .sequence items, base, node, hfits, hcarries => by
    rw [Carries] at hcarries
    rw [Fits] at hfits
    obtain ⟨-, hkind, -, -, hlist⟩ := hfits
    cases base with
    | mk ban bchildren =>
      cases node with
      | mk an children =>
        obtain ⟨tlv, htlv, hnull, -⟩ := hcarries.1.tlv
        have hsequence : (Node.mk an children).kind = .sequence :=
          (hcarries.1.kind_eq children bchildren).trans hkind
        have heach := validate_carriesList items bchildren children hlist hcarries.2
        have htlv' : an.tlv = some tlv := htlv
        rw [anodeValidateAnything, htlv']
        dsimp only
        rw [hnull, if_neg Bool.false_ne_true, hsequence]
        exact heach

/-- Children that carry items that fit are valid. -/
theorem validate_carriesList : ∀ (vs : List Value) (bases nodes : List Node), FitsList bases vs →
    CarriesList vs bases nodes → anodeValidateEach readTime nodes = .ok true
  | [], [], nodes, _, hcarries => by
    rw [CarriesList] at hcarries
    rw [hcarries]
    rfl
  | [], _ :: _, _, hfits, _ => by
    simp only [FitsList] at hfits
  | _ :: _, [], _, hfits, _ => by
    simp only [FitsList] at hfits
  | v :: vs, base :: bases, nodes, hfits, hcarries => by
    rw [FitsList] at hfits
    rw [CarriesList] at hcarries
    obtain ⟨node, rest, rfl, hnode, hrest⟩ := hcarries
    rw [anodeValidateEach, validate_carries v base node hfits.1 hnode, ok_bind, if_pos rfl]
    exact validate_carriesList vs bases rest hfits.2.2 hrest

end

end Validate

theorem holding_found (an : Anode) (cls : UInt8) (tag : Nat) (content rest : Bytes) :
    Holding { an with tlv := some (foundTlv cls tag content rest) } an cls content :=
  ⟨rfl, rfl, rfl, foundTlv cls tag content rest, rfl, rfl, rfl, rfl, content_foundTlv cls tag content rest⟩

mutual

/-- What is decoded from a value carries it. -/
theorem carries_filled : ∀ (v : Value) (node : Node), Fits node v → ∀ rest : Bytes,
    Carries v node (filled v node rest)
  | .absent, node, _, rest => by
    rw [Carries, filled]
  | .element cls tag content, node, _, rest => by
    rw [Carries, filled]
    exact ⟨holding_found node.an cls tag content rest, rfl⟩
  | .sequence items, node, hfits, rest => by
    rw [Fits] at hfits
    rw [Carries, filled]
    exact ⟨holding_found node.an _ 16 _ rest, carries_filledList items node.children hfits.2.2.2.2 rest⟩

theorem carries_filledList : ∀ (vs : List Value) (children : List Node), FitsList children vs →
    ∀ rest : Bytes, CarriesList vs children (filledList vs children rest)
  | [], [], _, rest => by
    rw [CarriesList]
    rfl
  | [], _ :: _, hfits, _ => by
    simp only [FitsList] at hfits
  | _ :: _, [], hfits, _ => by
    simp only [FitsList] at hfits
  | v :: vs, child :: children, hfits, rest => by
    rw [FitsList] at hfits
    rw [CarriesList, filledList]
    exact ⟨_, _, rfl, carries_filled v child hfits.1 _, carries_filledList vs children hfits.2.2 rest⟩

end

/-- Decoding the bytes of a value that fits gives a tree that carries it. -/
theorem eggAsn1xDecode_value (readTime : TimeReader) (hfits : Fits node v)
    (hpresent : v.isAbsent = false) (hclear : eggAsn1xClear node = node) {fuel : Nat}
    (hfuel : v.depth < fuel) (hsize : v.bytes.length < 2 ^ 31) :
    eggAsn1xDecode readTime fuel node v.bytes = .ok (true, filled v node []) := by
  have hdecode := decode_value v node hfits [] fuel hfuel hsize
  have hvalid := validate_carries readTime v node _ hfits (carries_filled v node hfits [])
  have hfound : anodeDecodeTlvForData v.bytes v.bytes.length = .ok (some (v.tlv [])) ∧ v.bytes ≠ [] ∧
      (v.tlv []).size = v.bytes.length := by
    cases v with
    | absent => exact absurd hpresent (by decide)
    | element cls tag content =>
      rw [Fits] at hfits
      obtain ⟨-, -, hflags, -, htag, hheader, -⟩ := hfits
      rw [Value.bytes] at hsize ⊢
      have hpos := length_element_pos cls htag content
      have hlength := length_element cls tag content
      have h := decodeTlvForData_found content [] (calcTag_of_headerFits hflags hheader).2 htag
        (Nat.le_refl _) hsize
      rw [append_nil] at h
      exact ⟨h, length_pos_iff.1 (by omega), rfl⟩
    | sequence items =>
      rw [Value.bytes] at hsize ⊢
      have hpos := length_element_pos asn1ClassStructured (show 16 < 31 by decide)
        (Value.bytesList items)
      have hlength := length_element asn1ClassStructured 16 (Value.bytesList items)
      have h := @decodeTlvForData_found asn1ClassStructured 16 _ (Value.bytesList items) []
        (by decide) (by decide) (Nat.le_refl _) hsize
      rw [append_nil] at h
      exact ⟨h, length_pos_iff.1 (by omega), rfl⟩
  obtain ⟨htlv, hne, hlast⟩ := hfound
  rw [eggAsn1xDecode, if_neg hne]
  rw [hclear, htlv, step_ok, ok_bind]
  dsimp only
  rw [hdecode, ok_bind]
  rw [hlast, beq_self_eq_true, Bool.and_true, if_pos rfl, hvalid, step_ok, ok_bind]
  rfl

end MateKeyring.Asn1x
