import MateKeyring.Asn1x.Filling

/-!
# Trees that are loaded with values

The setters give a node its `Atlv` and its encoder (`loaded`), `anodeEncodePrepare` gives them to the
sequences around it (`sized`), and `anodeEncodeBuild` puts the bytes in place (`built`).
`eggAsn1xEncode_value` says that what comes out is the encoding of the value.
-/

set_option autoImplicit false

namespace MateKeyring.Asn1x

open Lib List

variable {node : Node} {children : List Node} {v : Value} {tag : Nat}

/-- The `Atlv` of contents that are not yet in a buffer. -/
def nullTlv (cls : UInt8) (tag : Nat) (content : Bytes) : Atlv where
  cls := cls
  tag := tag
  off := (anodeEncodeClsTagLen cls tag content.length).length
  len := content.length
  buf := []
  size := 0
  isNull := true

/-- A node with contents that are not yet in a buffer. -/
def Node.load (node : Node) (cls : UInt8) (tag : Nat) (content : Bytes) (enc : Enc)
    (children : List Node) : Node :=
  .mk { node.an with tlv := some (nullTlv cls tag content), enc := some enc } children

/-- A node with contents in a buffer of its own. -/
def Node.build (node : Node) (cls : UInt8) (tag : Nat) (content : Bytes) (enc : Enc)
    (children : List Node) : Node :=
  .mk { node.an with
        tlv := some ((nullTlv cls tag content).built (element cls tag content)),
        enc := some enc } children

mutual

/-- The blank tree once the setters were called. -/
def loaded : Value → Node → Node
  | .absent, node => node
  | .element cls tag content, node => node.load cls tag content (.simple content) node.children
  | .sequence items, node => .mk node.an (loadedList items node.children)

def loadedList : List Value → List Node → List Node
  | v :: vs, child :: children => loaded v child :: loadedList vs children
  | _, children => children

end

mutual

/-- The tree once it was prepared. -/
def sized : Value → Node → Node
  | .absent, node => node
  | .element cls tag content, node => node.load cls tag content (.simple content) node.children
  | .sequence items, node =>
    node.load asn1ClassStructured 16 (Value.bytesList items) .structured (sizedList items node.children)

def sizedList : List Value → List Node → List Node
  | v :: vs, child :: children => sized v child :: sizedList vs children
  | _, children => children

end

mutual

/-- The tree once it was built. -/
def built : Value → Node → Node
  | .absent, node => node
  | .element cls tag content, node => node.build cls tag content (.simple content) node.children
  | .sequence items, node =>
    node.build asn1ClassStructured 16 (Value.bytesList items) .structured (builtList items node.children)

def builtList : List Value → List Node → List Node
  | v :: vs, child :: children => built v child :: builtList vs children
  | _, children => children

end

/-! ## Preparing -/

/-- A node that fits an element is prepared as a simple one. -/
theorem prepare_simple {an : Anode}
    (hkind : (Node.mk an children).kind = .integer ∨ (Node.mk an children).kind = .octetString ∨
      (Node.mk an children).kind = .objectId ∨ (Node.mk an children).kind = .any) :
    anodeEncodePrepare true (.mk an children) = .ok (anodeEncodePrepareSimple (.mk an children)) := by
  rcases hkind with hkind | hkind | hkind | hkind <;> rw [anodeEncodePrepare, hkind]

theorem tlv_sized_eq_none_iff (hfits : Fits node v) :
    (sized v node).tlv = none ↔ v.isAbsent = true := by
  cases v with
  | absent =>
    rw [Fits] at hfits
    rw [sized]
    exact iff_of_true hfits.1.1 rfl
  | element cls tag content =>
    rw [sized]
    exact iff_of_false (Option.some_ne_none _) Bool.false_ne_true
  | sequence items =>
    rw [sized]
    exact iff_of_false (Option.some_ne_none _) Bool.false_ne_true

/-- The room that a value takes. -/
theorem tlv_sized_of_present (node : Node) (h : v.isAbsent = false) :
    ∃ tlv, (sized v node).tlv = some tlv ∧ tlv.off + tlv.len.toNat = v.bytes.length := by
  cases v with
  | absent => exact absurd h (by decide)
  | element cls tag content =>
    rw [sized, Value.bytes, length_element]
    exact ⟨nullTlv cls tag content, rfl, rfl⟩
  | sequence items =>
    rw [sized, Value.bytes, length_element]
    exact ⟨nullTlv asn1ClassStructured 16 (Value.bytesList items), rfl, rfl⟩

/-- What preparing gives for each of the children. -/
def preparedList : List Value → List Node → List (Bool × Node)
  | v :: vs, child :: children => (!v.isAbsent, sized v child) :: preparedList vs children
  | _, _ => []

theorem preparedList_spec : ∀ (vs : List Value) (children : List Node), FitsList children vs →
    (preparedList vs children).map Prod.snd = sizedList vs children ∧
      (preparedList vs children).any Prod.fst = !vs.all Value.isAbsent ∧
      childrenSize (preparedList vs children) = (Value.bytesList vs).length
  | [], [], _ => ⟨rfl, rfl, rfl⟩
  | [], _ :: _, hfits => by
    simp only [FitsList] at hfits
  | _ :: _, [], hfits => by
    simp only [FitsList] at hfits
  | v :: vs, child :: children, hfits => by
    rw [FitsList] at hfits
    obtain ⟨hmap, hany, hroom⟩ := preparedList_spec vs children hfits.2.2
    refine ⟨by rw [preparedList, map_cons, hmap, sizedList], ?_, ?_⟩
    · rw [preparedList, any_cons, hany, all_cons, Bool.not_and]
    · rw [childrenSize] at hroom
      rw [childrenSize, preparedList, Value.bytesList, length_append, ← hroom]
      cases habsent : v.isAbsent with
      | true =>
        have hbytes : v.bytes = [] := by
          cases v with
          | absent => rfl
          | element cls tag content => exact absurd habsent Bool.false_ne_true
          | sequence items => exact absurd habsent Bool.false_ne_true
        simp only [filterMap_cons, Bool.not_true, Bool.false_eq_true, if_false, hbytes, length_nil, Nat.zero_add]
      | false =>
        obtain ⟨tlv, htlv, hplace⟩ := tlv_sized_of_present child habsent
        simp only [filterMap_cons, Bool.not_false, if_true, htlv, map_cons, sum_cons, hplace]

/-- A sequence of `n` bytes is given its place. -/
theorem encodeTlvAndEnc_sequence (children : List Node) (content : Bytes)
    (hkind : node.kind = .sequence) (hflags : node.flags.tag = false) (hlt : content.length < 2 ^ 31) :
    anodeEncodeTlvAndEnc (.mk node.an children) content.length .structured =
      .ok (node.load asn1ClassStructured 16 content .structured children) := by
  have hkind' : (Node.mk node.an children).kind = .sequence := hkind
  have hflags' : (Node.mk node.an children).flags.tag = false := hflags
  have hexplicit : anodeCalcExplicit (.mk node.an children) = false := by
    rw [anodeCalcExplicit, anodeCalcExplicitForFlags, hflags', Bool.false_and]
  have htag : anodeCalcTag (.mk node.an children) = some 16 := by
    rw [anodeCalcTag, anodeCalcTagForFlags, hflags', if_neg Bool.false_ne_true, hkind']
    rfl
  rw [anodeEncodeTlvAndEnc, hkind']
  dsimp only [encodeClass]
  rw [encodeTag, hflags', if_neg Bool.false_ne_true, explicitLength, hexplicit, if_neg Bool.false_ne_true, htag]
  dsimp only
  rw [gint_of_lt hlt, cAssert_of_true (Int.natCast_nonneg _), ok_bind]
  rfl

mutual

/-- A tree that was loaded is prepared. -/
theorem prepare_loaded : ∀ (v : Value) (node : Node), Fits node v → v.bytes.length < 2 ^ 31 →
    anodeEncodePrepare true (loaded v node) = .ok (!v.isAbsent, sized v node)
  | .absent, node, hfits, _ => by
    rw [Fits] at hfits
    rw [loaded, sized]
    exact hfits.2.2.1
  | .element cls tag content, node, hfits, _ => by
    rw [Fits] at hfits
    have hkind := kind_of_contentValid hfits.2.2.2.2.2.2
    rw [loaded, sized, Node.load]
    exact prepare_simple hkind
  | .sequence items, node, hfits, hsize => by
    rw [Fits] at hfits
    obtain ⟨-, hkind, hflags, hpresent, hlist⟩ := hfits
    rw [Value.bytes, length_element] at hsize
    have hkind' : (Node.mk node.an (loadedList items node.children)).kind = .sequence := hkind
    have heach := prepare_loadedList items node.children hlist (by omega)
    obtain ⟨hmap, hany, hroom⟩ := preparedList_spec items node.children hlist
    rw [loaded, sized, anodeEncodePrepare, hkind']
    dsimp only
    rw [heach, ok_bind, prepareStructured, hany, hpresent, if_pos (by decide), hmap, hroom,
      encodeTlvAndEnc_sequence _ _ hkind hflags (by omega), ok_bind]
    rfl

theorem prepare_loadedList : ∀ (vs : List Value) (children : List Node), FitsList children vs →
    (Value.bytesList vs).length < 2 ^ 31 →
      anodeEncodePrepareEach true (loadedList vs children) = .ok (preparedList vs children)
  | [], [], _, _ => rfl
  | [], _ :: _, hfits, _ => by
    simp only [FitsList] at hfits
  | _ :: _, [], hfits, _ => by
    simp only [FitsList] at hfits
  | v :: vs, child :: children, hfits, hsize => by
    rw [FitsList] at hfits
    rw [Value.bytesList, length_append] at hsize
    rw [loadedList, preparedList, anodeEncodePrepareEach, prepare_loaded v child hfits.1 (by omega), ok_bind,
      prepare_loadedList vs children hfits.2.2 (by omega), ok_bind]
    rfl

end

/-! ## Sorting -/

mutual

/-- There is no `SET OF` among what was prepared. -/
theorem sort_sized : ∀ (v : Value) (node : Node), Fits node v →
    traverseAndSortSetOf (sized v node) = .ok (sized v node)
  | .absent, node, hfits => by
    rw [Fits] at hfits
    rw [sized]
    exact hfits.2.2.2
  | .element cls tag content, node, hfits => by
    rw [Fits] at hfits
    obtain ⟨-, hchildren, -, -, -, -, hvalid⟩ := hfits
    have hkind : node.kind ≠ .setOf := by
      rcases kind_of_contentValid hvalid with hkind | hkind | hkind | hkind <;> rw [hkind] <;> decide
    rw [sized, Node.load, hchildren, traverseAndSortSetOf, traverseAndSortSetOfList, ok_bind, if_neg]
    · rfl
    · exact hkind
  | .sequence items, node, hfits => by
    rw [Fits] at hfits
    obtain ⟨-, hkind, -, -, hlist⟩ := hfits
    rw [sized, Node.load, traverseAndSortSetOf, sort_sizedList items node.children hlist, ok_bind, if_neg]
    · rfl
    · have hkind' : node.kind ≠ .setOf := by
        rw [hkind]
        decide
      exact hkind'

theorem sort_sizedList : ∀ (vs : List Value) (children : List Node), FitsList children vs →
    traverseAndSortSetOfList (sizedList vs children) = .ok (sizedList vs children)
  | [], [], _ => rfl
  | [], _ :: _, hfits => by
    simp only [FitsList] at hfits
  | _ :: _, [], hfits => by
    simp only [FitsList] at hfits
  | v :: vs, child :: children, hfits => by
    rw [FitsList] at hfits
    rw [sizedList, traverseAndSortSetOfList, sort_sized v child hfits.1, ok_bind,
      sort_sizedList vs children hfits.2.2, ok_bind]
    rfl

end

theorem splitBuilt_of_unset (h : ∀ child ∈ children, child.tlv = none) :
    splitBuilt children = .ok ([], children) := by
  induction children with
  | nil => rfl
  | cons child children ih =>
    rw [forall_mem_cons] at h
    rw [splitBuilt, ih h.2, ok_bind, h.1]
    rfl

/-- The children of a `SET OF` without values stay as they are. -/
theorem sortChildren_of_unset (h : ∀ child ∈ children, child.tlv = none) :
    sortChildren children = .ok children := by
  rw [sortChildren, splitBuilt_of_unset h, ok_bind]
  rw [reverse_nil, mergeSort_nil, map_nil, append_nil]
  rfl

mutual

/-- A tree without values. -/
def Blank : Node → Prop
  | .mk an children => an.tlv = none ∧ an.enc = none ∧ BlankList children

def BlankList : List Node → Prop
  | [] => True
  | child :: rest => Blank child ∧ BlankList rest

end

mutual

theorem rollback_blank : ∀ node : Node, Blank node → anodeEncodeRollback node = node
  | .mk ⟨row, join, opts, tlv, enc, chosen⟩ children, h => by
    rw [Blank] at h
    obtain ⟨htlv, henc, hchildren⟩ := h
    subst htlv henc
    rw [anodeEncodeRollback, rollback_blankList children hchildren]
    rfl

theorem rollback_blankList : ∀ children : List Node, BlankList children →
    anodeEncodeRollbackList children = children
  | [], _ => rfl
  | child :: rest, h => by
    rw [BlankList] at h
    rw [anodeEncodeRollbackList, rollback_blank child h.1, rollback_blankList rest h.2]

end

theorem tlv_of_blankList (h : BlankList children) : ∀ child ∈ children, child.tlv = none := by
  induction children with
  | nil => exact fun child hchild => absurd hchild not_mem_nil
  | cons child rest ih =>
    rw [BlankList] at h
    rw [forall_mem_cons]
    refine ⟨?_, ih h.2⟩
    cases child with
    | mk an children =>
      rw [Blank] at h
      exact h.1.1

mutual

/-- There is nothing to sort in a tree without values. -/
theorem sort_blank : ∀ node : Node, Blank node → traverseAndSortSetOf node = .ok node
  | .mk an children, h => by
    have hnode := rollback_blank (.mk an children) h
    rw [Blank] at h
    rw [traverseAndSortSetOf, sort_blankList children h.2.2, ok_bind]
    split
    · rw [sortChildren_of_unset (tlv_of_blankList h.2.2), ok_bind, hnode]
      rfl
    · rfl

theorem sort_blankList : ∀ children : List Node, BlankList children →
    traverseAndSortSetOfList children = .ok children
  | [], _ => rfl
  | child :: rest, h => by
    rw [BlankList] at h
    rw [traverseAndSortSetOfList, sort_blank child h.1, ok_bind, sort_blankList rest h.2, ok_bind]
    rfl

end

/-! ## Building -/

/-- The header of a node without an explicit tag. -/
theorem buildHeader_load (cls : UInt8) (tag : Nat) (content : Bytes) (enc : Enc) (children : List Node)
    (hflags : node.flags.tag = false) :
    buildHeader (node.load cls tag content enc children) (nullTlv cls tag content)
        (element cls tag content).length =
      .ok (some (anodeEncodeClsTagLen cls tag content.length)) := by
  have hexplicit : anodeCalcExplicit (node.load cls tag content enc children) = false := by
    have hflags' : (node.load cls tag content enc children).flags.tag = false := hflags
    rw [anodeCalcExplicit, anodeCalcExplicitForFlags, hflags', Bool.false_and]
  have hlen : (nullTlv cls tag content).len + ((nullTlv cls tag content).off : Int) =
      (element cls tag content).length := by
    rw [length_element]
    dsimp only [nullTlv]
    omega
  rw [buildHeader, explicitHeader, hexplicit, if_neg Bool.false_ne_true, ok_bind]
  dsimp only
  rw [nil_append, cAssert_of_true (by rfl), ok_bind, cAssert_of_true hlen, ok_bind]
  rfl

/-- A node is built from its contents. -/
theorem build_load (cls : UInt8) (tag : Nat) (content : Bytes) (enc : Enc)
    {children children' : List Node} (hflags : node.flags.tag = false) (hkind : node.kind ≠ .choice)
    (hcontents : encodeContents enc children content.length = .ok (some (content, children'))) :
    anodeEncodeBuild (node.load cls tag content enc children) (element cls tag content).length =
      .ok (some (element cls tag content, node.build cls tag content enc children')) := by
  have hnode : encodeNode (node.load cls tag content enc children) =
      some (node.load cls tag content enc children) := by
    have hkind' : (node.load cls tag content enc children).kind ≠ .choice := hkind
    rw [encodeNode, if_neg hkind']
  have hheader := buildHeader_load cls tag content enc children hflags
  rw [Node.load] at hnode hheader ⊢
  rw [anodeEncodeBuild, hnode]
  dsimp only
  rw [hheader, ok_bind]
  dsimp only
  have hlen : (nullTlv cls tag content).len.toNat = content.length := rfl
  rw [hlen, hcontents, ok_bind]
  rfl

mutual

/-- A tree that was prepared is built. -/
theorem build_sized : ∀ (v : Value) (node : Node), Fits node v → v.isAbsent = false →
    anodeEncodeBuild (sized v node) v.bytes.length = .ok (some (v.bytes, built v node))
  | .absent, _, _, hpresent => absurd hpresent (by decide)
  | .element cls tag content, node, hfits, _ => by
    rw [Fits] at hfits
    obtain ⟨-, -, hflags, -, -, -, hvalid⟩ := hfits
    have hkind : node.kind ≠ .choice := by
      rcases kind_of_contentValid hvalid with hkind | hkind | hkind | hkind <;> rw [hkind] <;> decide
    rw [sized, built, Value.bytes]
    apply build_load cls tag content _ hflags hkind
    rw [encodeContents, encodeSimple, if_pos (Nat.le_refl _), take_length]
    rfl
  | .sequence items, node, hfits, _ => by
    rw [Fits] at hfits
    obtain ⟨-, hkind, hflags, -, hlist⟩ := hfits
    have hkind' : node.kind ≠ .choice := by
      rw [hkind]
      decide
    rw [sized, built, Value.bytes]
    apply build_load _ _ _ _ hflags hkind'
    rw [encodeContents]
    exact build_sizedList items node.children hlist

theorem build_sizedList : ∀ (vs : List Value) (children : List Node), FitsList children vs →
    buildEach (sizedList vs children) (Value.bytesList vs).length =
      .ok (some (Value.bytesList vs, builtList vs children))
  | [], [], _ => by
    rw [sizedList, builtList, Value.bytesList, buildEach]
    · rfl
    · simp
    · simp
  | [], _ :: _, hfits => by
    simp only [FitsList] at hfits
  | _ :: _, [], hfits => by
    simp only [FitsList] at hfits
  | v :: vs, child :: children, hfits => by
    rw [FitsList] at hfits
    obtain ⟨hchild, -, hrest⟩ := hfits
    have hmore := build_sizedList vs children hrest
    rw [sizedList, builtList, Value.bytesList, buildEach, length_append]
    cases habsent : v.isAbsent with
    | true =>
      rw [(tlv_sized_eq_none_iff hchild).2 habsent]
      cases v with
      | absent =>
        dsimp only [Value.bytes, length_nil]
        rw [Nat.zero_add, hmore, ok_bind, sized, built]
        rfl
      | element cls tag content => exact absurd habsent Bool.false_ne_true
      | sequence items => exact absurd habsent Bool.false_ne_true
    | false =>
      obtain ⟨tlv, htlv, hroom⟩ := tlv_sized_of_present child habsent
      rw [htlv]
      dsimp only
      rw [hroom, cAssert_of_true (Nat.le_add_right _ _), ok_bind, build_sized v child hchild habsent,
        ok_bind]
      dsimp only
      rw [Nat.add_sub_cancel_left, hmore, ok_bind]
      rfl

end

theorem content_built (cls : UInt8) (tag : Nat) (content : Bytes) :
    ((nullTlv cls tag content).built (element cls tag content)).content = content := by
  have hdrop : (element cls tag content).drop (anodeEncodeClsTagLen cls tag content.length).length =
      content := by
    rw [element, drop_left]
  have hlen : ((nullTlv cls tag content).built (element cls tag content)).len.toNat = content.length := rfl
  have hbuf : ((nullTlv cls tag content).built (element cls tag content)).buf.drop
      ((nullTlv cls tag content).built (element cls tag content)).off = content := hdrop
  rw [Atlv.content, hlen, hbuf, take_length]

theorem holding_built (node : Node) (cls : UInt8) (tag : Nat) (content : Bytes) (enc : Enc)
    (children : List Node) : Holding (node.build cls tag content enc children).an node.an cls content :=
  ⟨rfl, rfl, rfl, _, rfl, rfl, rfl, rfl, content_built cls tag content⟩

mutual

/-- The tree that was built carries the value. -/
theorem carries_built : ∀ (v : Value) (node : Node), Fits node v → Carries v node (built v node)
  | .absent, node, _ => by
    rw [Carries, built]
  | .element cls tag content, node, _ => by
    rw [Carries, built]
    exact ⟨holding_built node cls tag content _ _, rfl⟩
  | .sequence items, node, hfits => by
    rw [Fits] at hfits
    rw [Carries, built]
    exact ⟨holding_built node _ 16 _ _ _, carries_builtList items node.children hfits.2.2.2.2⟩

theorem carries_builtList : ∀ (vs : List Value) (children : List Node), FitsList children vs →
    CarriesList vs children (builtList vs children)
  | [], [], _ => by
    rw [CarriesList]
    rfl
  | [], _ :: _, hfits => by
    simp only [FitsList] at hfits
  | _ :: _, [], hfits => by
    simp only [FitsList] at hfits
  | v :: vs, child :: children, hfits => by
    rw [FitsList] at hfits
    rw [CarriesList, builtList]
    exact ⟨_, _, rfl, carries_built v child hfits.1, carries_builtList vs children hfits.2.2⟩

end

/-- Encoding a tree that was loaded with a value gives the bytes of the value. -/
theorem eggAsn1xEncode_value (readTime : TimeReader) (hfits : Fits node v)
    (hpresent : v.isAbsent = false) (hsize : v.bytes.length < 2 ^ 31) :
    eggAsn1xEncode readTime (loaded v node) = .ok (some v.bytes) := by
  have hvalid := validate_carries readTime v node _ hfits (carries_built v node hfits)
  obtain ⟨tlv, htlv, hroom⟩ := tlv_sized_of_present node hpresent
  rw [eggAsn1xEncode, prepare_loaded v node hfits hsize, ok_bind, hpresent]
  dsimp only
  rw [if_pos (by decide), sort_sized v node hfits, ok_bind, htlv]
  dsimp only
  rw [hroom, build_sized v node hfits hpresent, ok_bind]
  dsimp only
  rw [hvalid, ok_bind]
  rfl

/-! ## Setting -/

/-- The setters load a node. -/
theorem encodeTlvAndEnc_load {content : Bytes}
    (hfits : Fits node (.element asn1ClassUniversal tag content)) (hkind : node.kind ≠ .any)
    (hlt : content.length < 2 ^ 31) :
    anodeEncodeTlvAndEnc node content.length (.simple content) =
      .ok (loaded (.element asn1ClassUniversal tag content) node) := by
  rw [Fits] at hfits
  obtain ⟨-, -, hflags, -, -, hheader, hvalid⟩ := hfits
  have hcls : encodeClass node.kind = some asn1ClassUniversal := by
    rcases kind_of_contentValid hvalid with h | h | h | h
    · rw [h]; rfl
    · rw [h]; rfl
    · rw [h]; rfl
    · exact absurd h hkind
  have htag : anodeCalcTag node = some tag := by
    rw [anodeCalcTag, anodeCalcTagForFlags, hflags, if_neg Bool.false_ne_true]
    rw [headerFits] at hheader
    split at hheader
    · rename_i hany
      exact absurd hany hkind
    · simp only [Bool.and_eq_true, beq_iff_eq] at hheader
      exact hheader.2
  have hexplicit : anodeCalcExplicit node = false := by
    rw [anodeCalcExplicit, anodeCalcExplicitForFlags, hflags, Bool.false_and]
  rw [anodeEncodeTlvAndEnc, hcls]
  dsimp only
  rw [encodeTag, hflags, if_neg Bool.false_ne_true, explicitLength, hexplicit, if_neg Bool.false_ne_true, htag]
  dsimp only
  rw [gint_of_lt hlt, cAssert_of_true (Int.natCast_nonneg _), ok_bind, loaded]
  rfl

/-- `egg_asn1x_set_raw_element` loads an `ANY` node with an element. -/
theorem setRawElement_load {cls : UInt8} {content : Bytes} {fuel : Nat}
    (hfits : Fits node (.element cls tag content)) (hkind : node.kind = .any) (hfuel : 0 < fuel)
    (hsize : (element cls tag content).length < 2 ^ 31) :
    eggAsn1xSetRawElement fuel (element cls tag content) node =
      .ok (true, loaded (.element cls tag content) node) := by
  have hfits' := hfits
  rw [Fits] at hfits'
  obtain ⟨hunset, -, hflags, -, htag, hheader, -⟩ := hfits'
  have hpos := length_element_pos cls htag content
  have hlength := length_element cls tag content
  have hne : element cls tag content ≠ [] := length_pos_iff.1 (by omega)
  have hclear : Node.mk node.an.clear node.children = node := by
    obtain ⟨⟨row, join, opts, tlv, enc, chosen⟩, children⟩ := node
    obtain rfl : tlv = none := hunset.1
    obtain rfl : enc = none := hunset.2
    rfl
  have hfound := decodeTlvForData_found content [] (calcTag_of_headerFits hflags hheader).2 htag
    (Nat.le_refl _) hsize
  rw [append_nil] at hfound
  obtain ⟨fuel, rfl⟩ : ∃ k, fuel = k + 1 := ⟨fuel - 1, by omega⟩
  have hmatch : (anodeCalcTagForFlags node
      { node.flags with tag := false, default := false, option := false }).getD tag = tag := by
    rw [anodeCalcTagForFlags, if_neg Bool.false_ne_true, hkind]
    rfl
  have hdecode := decodeElement hfits [] (anodeDecodeAnythingForFlags fuel) fuel
    { node.flags with tag := false, default := false, option := false } rfl
  have hexplicit : anodeCalcExplicit (filled (.element cls tag content) node []) = false := by
    have hflags' : (filled (.element cls tag content) node []).flags.tag = false := by
      rw [filled]
      exact hflags
    rw [anodeCalcExplicit, anodeCalcExplicitForFlags, hflags', Bool.false_and]
  rw [eggAsn1xSetRawElement, if_neg hne]
  rw [hclear, hfound, step_ok, ok_bind]
  dsimp only
  rw [decodeForFlags_found content [] fuel htag hmatch, hdecode, ok_bind]
  have hlast : (foundTlv cls tag content []).size = (element cls tag content).length := rfl
  have hrest : (foundTlv cls tag content []).buf.drop (foundTlv cls tag content []).off = content := by
    rw [drop_foundTlv, append_nil]
  rw [hlast, beq_self_eq_true, Bool.and_true, if_pos rfl, setRawDecoded, hexplicit]
  have htlv : (filled (.element cls tag content) node []).tlv = some (foundTlv cls tag content []) := by
    rw [filled]
    rfl
  rw [htlv]
  rw [hrest, loaded]
  rfl

/-- The length of an element with something behind it. -/
theorem eggAsn1xElementLength_element (cls : UInt8) (htag : tag < 31) (content rest : Bytes)
    (hlt : (element cls tag content ++ rest).length < 2 ^ 31) :
    eggAsn1xElementLength (element cls tag content ++ rest) = .ok (some (element cls tag content).length) := by
  have hpos := length_anodeEncodeLength_pos content.length
  have hheader := length_anodeEncodeClsTagLen cls htag content.length
  have hlength := length_element cls tag content
  rw [length_append] at hlt
  have hassoc : element cls tag content ++ rest =
      anodeEncodeClsTagLen cls tag content.length ++ (content ++ rest) := by
    rw [element, append_assoc]
  have htotal : (element cls tag content ++ rest).length = (element cls tag content).length + rest.length :=
    length_append
  rw [eggAsn1xElementLength, htotal, hassoc,
    decodeClsTag_header cls content.length (content ++ rest) htag (by omega) (by omega), ok_bind]
  dsimp only
  rw [cAssert_of_true (by omega), ok_bind, drop_one_header cls htag,
    decodeLength_encode content.length _ (content ++ rest) (by omega) (by omega) (by omega), ok_bind]
  have hsum : (content.length : Int) + ((1 + (anodeEncodeLength content.length).length : Nat) : Int) =
      ((element cls tag content).length : Nat) := by
    omega
  rw [if_pos (Int.natCast_nonneg _), hsum, gint_of_lt (by omega), Int.toNat_natCast,
    if_pos ⟨Int.natCast_nonneg _, by omega⟩]
  rfl

end MateKeyring.Asn1x
