import MateKeyring.Lib.Ring
import MateKeyring.Egg.SecurePools

/-!
# The cells of a block

`Tiles` says that cells lie one after another in a part of a block, each between its two guard words.
It is local: a cell that is `Untouched`, with its bounds and the bytes between them, keeps its place,
and a part of the block may be divided anew while the cells on both sides of it stay
(`Tiles.splice`). The neighbors of a cell are found through the guards. The operations on the ring of
the unused cells are those of the ring of links (`secInsertCellRing_spec`, `secRemoveCellRing_spec`).
-/

set_option autoImplicit false

namespace MateKeyring.Egg

open List
open Function (update_of_ne update_self)
open Lib (Ring)

variable {cs : List ItemPtr} {rs : List ItemPtr} {ring : Option ItemPtr} {s e : Nat} {w : Nat}
  {a : Nat}

variable {mem mem' : Nat → MemVal} {cells cells' : ItemPtr → Cell} {c : ItemPtr}

/-! ## Words -/

/-- The word is a pointer to the cell. -/
def Guard (mem : Nat → MemVal) (w : Nat) (c : ItemPtr) : Prop :=
  ∀ i < 8, mem (8 * w + i) = .fragment c i

theorem readWord_eq_some : readWord mem w = some c ↔ Guard mem w c := by
  unfold readWord
  split
  · next b hb =>
      refine ⟨(fun h => by cases h), fun h => ?_⟩
      have := h 0 (by omega)
      rw [Nat.add_zero, hb] at this
      cases this
  · next cell i hb =>
      split
      · next hall =>
          have hcell : Guard mem w cell := fun i hi => hall i (mem_range.2 hi)
          constructor
          · intro h
            cases h
            exact hcell
          · intro h
            have hzero := (h 0 (by omega)).symm.trans (hcell 0 (by omega))
            cases hzero
            rfl
      · next hnot =>
          refine ⟨(fun h => by cases h), fun h => absurd (fun i hi => ?_) hnot⟩
          have hzero := h 0 (by omega)
          rw [Nat.add_zero, hb] at hzero
          cases hzero
          exact h i (mem_range.1 hi)

theorem Guard.congr (h : Guard mem w c) (hmem : ∀ a, 8 * w ≤ a → a < 8 * w + 8 → mem' a = mem a) :
    Guard mem' w c := by
  intro i hi
  rw [hmem (8 * w + i) (by omega) (by omega)]
  exact h i hi

theorem guard_writeWord (mem : Nat → MemVal) (w : Nat) (c : ItemPtr) :
    Guard (writeWord mem w c) w c := by
  intro i hi
  unfold writeWord
  rw [if_pos ⟨by omega, by omega⟩]
  congr 1
  omega

theorem writeWord_of_outside {w a : Nat} (h : a < 8 * w ∨ 8 * w + 8 ≤ a) :
    writeWord mem w c a = mem a :=
  if_neg (by omega)

theorem secWriteGuards_first (mem : Nat → MemVal) (cells : ItemPtr → Cell) (c : ItemPtr)
    (hlong : 2 ≤ (cells c).nWords) : Guard (secWriteGuards mem cells c) (cells c).words c := by
  refine (guard_writeWord mem (cells c).words c).congr fun a ha ha' => ?_
  exact writeWord_of_outside (by omega)

theorem secWriteGuards_last (mem : Nat → MemVal) (cells : ItemPtr → Cell) (c : ItemPtr) :
    Guard (secWriteGuards mem cells c) ((cells c).words + (cells c).nWords - 1) c :=
  guard_writeWord _ _ _

/-- Only the two guard words are written. -/
theorem secWriteGuards_of_outside (h : a < 8 * (cells c).words ∨ 8 * (cells c).words + 8 ≤ a)
    (h' : a < 8 * ((cells c).words + (cells c).nWords - 1) ∨
      8 * ((cells c).words + (cells c).nWords - 1) + 8 ≤ a) :
    secWriteGuards mem cells c a = mem a :=
  (writeWord_of_outside h').trans (writeWord_of_outside h)

/-- The guards of a cell do not touch other words. -/
theorem Guard.secWriteGuards {d : ItemPtr} (h : Guard mem w d) (hfirst : w ≠ (cells c).words)
    (hlast : w ≠ (cells c).words + (cells c).nWords - 1) :
    Guard (Egg.secWriteGuards mem cells c) w d :=
  h.congr fun a ha ha' => secWriteGuards_of_outside (by omega) (by omega)

theorem Guard.memset {w start stop : Nat} (h : Guard mem w c) (hw : stop ≤ 8 * w ∨ 8 * w + 8 ≤ start) :
    Guard (Egg.memset mem start stop) w c :=
  h.congr fun a ha ha' => if_neg (by omega)

/-- A byte that no client wrote: zero, or a part of a pointer. -/
def Clean (v : MemVal) : Prop := v = .byte 0 ∨ ∃ c i, v = .fragment c i

theorem clean_writeWord {w a : Nat} (h : Clean (mem a)) : Clean (writeWord mem w c a) := by
  unfold writeWord
  split
  · exact .inr ⟨_, _, rfl⟩
  · exact h

theorem clean_secWriteGuards (h : Clean (mem a)) : Clean (secWriteGuards mem cells c a) :=
  clean_writeWord (clean_writeWord h)

theorem clean_memset {start stop a : Nat} (h : a < start ∨ stop ≤ a → Clean (mem a)) :
    Clean (memset mem start stop a) := by
  unfold memset
  split
  · exact .inl rfl
  · next hnot => exact h (by omega)

/-! ## Cells one after another -/

/-- A cell has its two guards. -/
structure Guarded (mem : Nat → MemVal) (c : ItemPtr) (k : Cell) : Prop where
  long : 2 ≤ k.nWords
  first : Guard mem k.words c
  last : Guard mem (k.words + k.nWords - 1) c

/-- The cells of the list lie one after another from word `s` to word `e`. -/
def Tiles (cells : ItemPtr → Cell) (mem : Nat → MemVal) : Nat → List ItemPtr → Nat → Prop
  | s, [], e => s = e
  | s, c :: cs, e =>
    (cells c).words = s ∧ Guarded mem c (cells c) ∧ Tiles cells mem (s + (cells c).nWords) cs e

/-- The bounds of a cell, with the memory that is asked for, are the same. -/
structure SameCell (k k' : Cell) : Prop where
  words : k'.words = k.words
  nWords : k'.nWords = k.nWords
  allocated : k'.allocated = k.allocated

theorem SameCell.refl (k : Cell) : SameCell k k := ⟨rfl, rfl, rfl⟩

theorem SameCell.trans {k k' k'' : Cell} (h : SameCell k k') (h' : SameCell k' k'') :
    SameCell k k'' :=
  ⟨h'.words.trans h.words, h'.nWords.trans h.nWords, h'.allocated.trans h.allocated⟩

/-- The address is between the bounds of the cell. -/
def Cell.Within (k : Cell) (a : Nat) : Prop := 8 * k.words ≤ a ∧ a < 8 * (k.words + k.nWords)

/-- The cell and all its bytes are as before. -/
structure Untouched (cells : ItemPtr → Cell) (mem : Nat → MemVal) (cells' : ItemPtr → Cell)
    (mem' : Nat → MemVal) (c : ItemPtr) : Prop where
  same : SameCell (cells c) (cells' c)
  mem : ∀ a, (cells c).Within a → mem' a = mem a

theorem Untouched.trans {cells'' : ItemPtr → Cell} {mem'' : Nat → MemVal}
    (h : Untouched cells mem cells' mem' c) (h' : Untouched cells' mem' cells'' mem'' c) :
    Untouched cells mem cells'' mem'' c where
  same := h.same.trans h'.same
  mem a ha := by
    have ha' : (cells' c).Within a := by
      simpa only [Cell.Within, h.same.words, h.same.nWords] using ha
    rw [h'.mem a ha', h.mem a ha]

theorem guarded_secWriteGuards (mem : Nat → MemVal) (hlong : 2 ≤ (cells c).nWords) :
    Guarded (secWriteGuards mem cells c) c (cells c) :=
  ⟨hlong, secWriteGuards_first mem cells c hlong, secWriteGuards_last mem cells c⟩

theorem Guarded.of_bounds {k k' : Cell} (h : Guarded mem c k) (hwords : k'.words = k.words)
    (hnWords : k'.nWords = k.nWords) : Guarded mem c k' :=
  ⟨hnWords ▸ h.long, hwords ▸ h.first, by rw [hwords, hnWords]; exact h.last⟩

/-- The guards of another cell are written. -/
theorem Guarded.secWriteGuards {k : Cell} {d : ItemPtr} (h : Guarded mem d k)
    (hapart : k.words + k.nWords ≤ (cells c).words ∨
      (cells c).words + (cells c).nWords ≤ k.words) (hlong : 1 ≤ (cells c).nWords) :
    Guarded (Egg.secWriteGuards mem cells c) d k := by
  have := h.long
  exact ⟨h.long, h.first.secWriteGuards (by omega) (by omega),
    h.last.secWriteGuards (by omega) (by omega)⟩

/-- Memory between the guards, or outside the cell, is cleared. -/
theorem Guarded.memset {k : Cell} {start stop : Nat} (h : Guarded mem c k)
    (hinside : 8 * (k.words + 1) ≤ start ∧ stop ≤ 8 * (k.words + k.nWords - 1) ∨
      stop ≤ 8 * k.words ∨ 8 * (k.words + k.nWords) ≤ start) :
    Guarded (Egg.memset mem start stop) c k := by
  have := h.long
  exact ⟨h.long, h.first.memset (by omega), h.last.memset (by omega)⟩

theorem Guarded.congr (h : Guarded mem c (cells c)) (hc : Untouched cells mem cells' mem' c) :
    Guarded mem' c (cells' c) := by
  have hlong := h.long
  refine ⟨hc.same.nWords ▸ h.long, ?_, ?_⟩
  · rw [hc.same.words]
    exact h.first.congr fun a ha ha' => hc.mem a ⟨by omega, by omega⟩
  · rw [hc.same.words, hc.same.nWords]
    exact h.last.congr fun a ha ha' => hc.mem a ⟨by omega, by omega⟩

theorem tiles_append {xs ys : List ItemPtr} :
    Tiles cells mem s (xs ++ ys) e ↔ ∃ m, Tiles cells mem s xs m ∧ Tiles cells mem m ys e := by
  induction xs generalizing s with
  | nil =>
    constructor
    · exact fun h => ⟨s, rfl, h⟩
    · rintro ⟨m, rfl, h⟩
      exact h
  | cons x xs ih =>
    rw [cons_append]
    constructor
    · rintro ⟨hs, hg, h⟩
      obtain ⟨m, hxs, hys⟩ := ih.1 h
      exact ⟨m, ⟨hs, hg, hxs⟩, hys⟩
    · rintro ⟨m, ⟨hs, hg, hxs⟩, hys⟩
      exact ⟨hs, hg, ih.2 ⟨m, hxs, hys⟩⟩

section

variable (h : Tiles cells mem s cs e)

include h

theorem Tiles.congr (hcs : ∀ c ∈ cs, Untouched cells mem cells' mem' c) :
    Tiles cells' mem' s cs e := by
  induction cs generalizing s with
  | nil => exact h
  | cons x cs ih =>
    obtain ⟨hs, hg, h⟩ := h
    have hx := hcs x mem_cons_self
    refine ⟨hx.same.words.trans hs, hg.congr hx, ?_⟩
    rw [hx.same.nWords]
    exact ih h (forall_mem_cons.1 hcs).2

theorem Tiles.le : s ≤ e := by
  induction cs generalizing s with
  | nil => exact le_of_eq h
  | cons x cs ih => exact (Nat.le_add_right _ _).trans (ih h.2.2)

theorem Tiles.bounds (hc : c ∈ cs) :
    s ≤ (cells c).words ∧ (cells c).words + (cells c).nWords ≤ e := by
  induction cs generalizing s with
  | nil => cases hc
  | cons x cs ih =>
    obtain ⟨hs, hg, h⟩ := h
    rcases mem_cons.1 hc with rfl | hc
    · exact ⟨hs.ge, hs ▸ h.le⟩
    · have := ih h hc
      exact ⟨by omega, this.2⟩

theorem Tiles.guarded (hc : c ∈ cs) : Guarded mem c (cells c) := by
  induction cs generalizing s with
  | nil => cases hc
  | cons x cs ih =>
    rcases mem_cons.1 hc with rfl | hc
    · exact h.2.1
    · exact ih h.2.2 hc

/-- Every word is in a cell. -/
theorem Tiles.cover (ha : 8 * s ≤ a) (ha' : a < 8 * e) : ∃ c ∈ cs, (cells c).Within a := by
  induction cs generalizing s with
  | nil =>
    obtain rfl : s = e := h
    omega
  | cons x cs ih =>
    obtain ⟨hs, hg, h⟩ := h
    by_cases hlt : a < 8 * (s + (cells x).nWords)
    · exact ⟨x, mem_cons_self, by omega, by omega⟩
    · obtain ⟨c, hc, hwithin⟩ := ih h (by omega)
      exact ⟨c, mem_cons_of_mem _ hc, hwithin⟩

theorem Tiles.length_le : s + 2 * cs.length ≤ e := by
  induction cs generalizing s with
  | nil => exact le_of_eq h
  | cons x cs ih =>
    have hlong := h.2.1.long
    have := ih h.2.2
    rw [length_cons]
    omega

/-- Two cells do not overlap. -/
theorem Tiles.disjoint {c d : ItemPtr} (hc : c ∈ cs) (hd : d ∈ cs) (hne : c ≠ d) :
    (cells c).words + (cells c).nWords ≤ (cells d).words ∨
      (cells d).words + (cells d).nWords ≤ (cells c).words := by
  induction cs generalizing s with
  | nil => cases hc
  | cons x cs ih =>
    obtain ⟨hs, hg, h⟩ := h
    rcases mem_cons.1 hc with hcx | hc'
    · rcases mem_cons.1 hd with hdx | hd'
      · exact absurd (hcx.trans hdx.symm) hne
      · have := (h.bounds hd').1
        subst hcx
        exact .inl (by omega)
    · rcases mem_cons.1 hd with hdx | hd'
      · have := (h.bounds hc').1
        subst hdx
        exact .inr (by omega)
      · exact ih h hc' hd'

end

/-- A part of the block, from `p` to `q`, is divided anew. The cells on both sides stay. -/
theorem Tiles.splice {xs mid' ys : List ItemPtr} (mid : List ItemPtr)
    (h : Tiles cells mem s (xs ++ (mid ++ ys)) e) (hsame : ∀ c ∈ xs ++ ys, SameCell (cells c) (cells' c))
    (hmid : ∀ p q, Tiles cells mem p mid q → s ≤ p → q ≤ e →
      Tiles cells' mem' p mid' q ∧ ∀ a, a < 8 * p ∨ 8 * q ≤ a → mem' a = mem a) :
    Tiles cells' mem' s (xs ++ (mid' ++ ys)) e ∧
      ∀ c ∈ xs ++ ys, Untouched cells mem cells' mem' c := by
  obtain ⟨p, hxs, h⟩ := tiles_append.1 h
  obtain ⟨q, hmid₀, hys⟩ := tiles_append.1 h
  obtain ⟨htiles, hmem⟩ := hmid p q hmid₀ hxs.le hys.le
  have huntouched : ∀ c ∈ xs ++ ys, Untouched cells mem cells' mem' c := by
    intro c hc
    refine ⟨hsame c hc, fun a ha => hmem a ?_⟩
    obtain ⟨hlo, hhi⟩ := ha
    rcases mem_append.1 hc with hc | hc
    · have := (hxs.bounds hc).2
      exact .inl (by omega)
    · have := (hys.bounds hc).1
      exact .inr (by omega)
  refine ⟨tiles_append.2 ⟨p, ?_, tiles_append.2 ⟨q, htiles, ?_⟩⟩, huntouched⟩
  · exact hxs.congr fun c hc => huntouched c (mem_append_left _ hc)
  · exact hys.congr fun c hc => huntouched c (mem_append_right _ hc)

/-! ## Neighbors -/

theorem Guarded.check (h : Guarded mem c (cells c)) : secCheckGuards mem cells c = .ok () := by
  unfold secCheckGuards
  rw [cAssert_of_true (readWord_eq_some.2 h.first), cAssert_of_true (readWord_eq_some.2 h.last)]
  rfl

theorem guardedCell_eq {block : Block} (hw : Guard block.mem w c) (h : Guarded block.mem c (cells c)) :
    guardedCell block cells w = .ok c := by
  unfold guardedCell
  rw [readWord_eq_some.2 hw]
  change (secCheckGuards block.mem cells c >>= fun _ => pure c) = _
  rw [h.check]
  rfl

variable {block : Block} {xs ys : List ItemPtr} {o : ItemPtr}

theorem neighborBefore_none (h : Tiles cells block.mem 0 (c :: ys) block.nWords) :
    secNeighborBefore block cells c = .ok none := by
  unfold secNeighborBefore
  rw [if_pos (.inl h.1)]

theorem neighborBefore_some (h : Tiles cells block.mem 0 (xs ++ o :: c :: ys) block.nWords) :
    secNeighborBefore block cells c = .ok (some o) := by
  obtain ⟨m, -, hm, hg, hc, hgc, hys⟩ := tiles_append.1 h
  have hlong := hg.long
  have hlongc := hgc.long
  have hle := hys.le
  unfold secNeighborBefore
  rw [if_neg]
  · have heq : (cells c).words - 1 = (cells o).words + (cells o).nWords - 1 := by omega
    rw [heq, guardedCell_eq hg.last hg]
    rfl
  · simp only [secIsValidWord, decide_eq_false_iff_not]
    omega

theorem neighborAfter_none (h : Tiles cells block.mem 0 (xs ++ [c]) block.nWords) :
    secNeighborAfter block cells c = .ok none := by
  obtain ⟨m, -, hm, hg, hend⟩ := tiles_append.1 h
  unfold secNeighborAfter
  rw [if_pos]
  have : m + (cells c).nWords = block.nWords := hend
  simp only [secIsValidWord, decide_eq_false_iff_not]
  omega

theorem neighborAfter_some (h : Tiles cells block.mem 0 (xs ++ c :: o :: ys) block.nWords) :
    secNeighborAfter block cells c = .ok (some o) := by
  obtain ⟨m, -, hm, hgc, ho, hg, hys⟩ := tiles_append.1 h
  have hlong := hg.long
  have hle := hys.le
  unfold secNeighborAfter
  rw [if_neg]
  · have heq : (cells c).words + (cells c).nWords = (cells o).words := by omega
    rw [heq, guardedCell_eq hg.first hg]
    rfl
  · simp only [secIsValidWord, decide_eq_false_iff_not]
    omega

/-! ## The ring of the unused cells -/

@[simp] theorem setNext_next (cells : ItemPtr → Cell) (p q : ItemPtr) (v : Option ItemPtr) :
    (setNext cells p v q).next = if q = p then v else (cells q).next := by
  unfold setNext
  by_cases hq : q = p
  · subst hq
    rw [update_self, if_pos rfl]
  · rw [update_of_ne hq, if_neg hq]

@[simp] theorem setNext_prev (cells : ItemPtr → Cell) (p q : ItemPtr) (v : Option ItemPtr) :
    (setNext cells p v q).prev = (cells q).prev := by
  unfold setNext
  by_cases hq : q = p
  · subst hq
    rw [update_self]
  · rw [update_of_ne hq]

@[simp] theorem setPrev_prev (cells : ItemPtr → Cell) (p q : ItemPtr) (v : Option ItemPtr) :
    (setPrev cells p v q).prev = if q = p then v else (cells q).prev := by
  unfold setPrev
  by_cases hq : q = p
  · subst hq
    rw [update_self, if_pos rfl]
  · rw [update_of_ne hq, if_neg hq]

@[simp] theorem setPrev_next (cells : ItemPtr → Cell) (p q : ItemPtr) (v : Option ItemPtr) :
    (setPrev cells p v q).next = (cells q).next := by
  unfold setPrev
  by_cases hq : q = p
  · subst hq
    rw [update_self]
  · rw [update_of_ne hq]

theorem sameCell_setNext (cells : ItemPtr → Cell) (p q : ItemPtr) (v : Option ItemPtr) :
    SameCell (cells q) (setNext cells p v q) := by
  unfold setNext
  by_cases hq : q = p
  · subst hq
    rw [update_self]
    exact ⟨rfl, rfl, rfl⟩
  · rw [update_of_ne hq]
    exact SameCell.refl _

theorem sameCell_setPrev (cells : ItemPtr → Cell) (p q : ItemPtr) (v : Option ItemPtr) :
    SameCell (cells q) (setPrev cells p v q) := by
  unfold setPrev
  by_cases hq : q = p
  · subst hq
    rw [update_self]
    exact ⟨rfl, rfl, rfl⟩
  · rw [update_of_ne hq]
    exact SameCell.refl _

theorem setNext_of_ne {p q : ItemPtr} (h : q ≠ p) (v : Option ItemPtr) :
    setNext cells p v q = cells q := update_of_ne h ..

theorem setPrev_of_ne {p q : ItemPtr} (h : q ≠ p) (v : Option ItemPtr) :
    setPrev cells p v q = cells q := update_of_ne h ..

/-- The cells of the list form the ring that begins at `ring`. -/
structure IsRing (cells : ItemPtr → Cell) (ring : Option ItemPtr) (rs : List ItemPtr) : Prop where
  nodup : rs.Nodup
  head : rs.head? = ring
  ring : Ring (fun p => (cells p).next) (fun p => (cells p).prev) rs

/-- The links of other cells do not matter. -/
theorem IsRing.congr (h : IsRing cells ring rs)
    (hrs : ∀ p ∈ rs, (cells' p).next = (cells p).next ∧ (cells' p).prev = (cells p).prev) :
    IsRing cells' ring rs :=
  ⟨h.nodup, h.head, h.ring.congr (fun p hp => (hrs p hp).1) fun p hp => (hrs p hp).2⟩

theorem IsRing.links (h : IsRing cells ring rs) (hc : c ∈ rs) :
    (∃ next ∈ rs, (cells c).next = some next ∧ (cells next).prev = some c) ∧
      ∃ prev ∈ rs, (cells c).prev = some prev ∧ (cells prev).next = some c :=
  h.ring.linked hc

theorem secInsertCellRing_spec (hr : IsRing cells ring rs) (hc : c ∉ rs) (hnext : (cells c).next = none)
    (hprev : (cells c).prev = none) :
    ∃ cells', secInsertCellRing cells ring c = .ok (cells', some c) ∧
      (∀ p, SameCell (cells p) (cells' p)) ∧
      (∃ rs', IsRing cells' (some c) rs' ∧ ∀ p, p ∈ rs' ↔ p ∈ rs ∨ p = c) ∧
      ∀ p, p ∉ rs → p ≠ c → cells' p = cells p := by
  have hring : ring ≠ some c := by
    rintro rfl
    exact hc (mem_of_mem_head? hr.head)
  unfold secInsertCellRing
  rw [cAssert_of_true hring, cAssert_of_true hnext, cAssert_of_true hprev]
  simp only [ok_bind]
  cases rs with
  | nil =>
    obtain rfl : none = ring := hr.head
    simp only [pure_eq_ok, ok_bind, setPrev_next, setNext_next, setPrev_prev, if_true,
      Option.bind_some, cAssert_of_true]
    refine ⟨_, rfl, fun p => ?_, ⟨[c], ⟨nodup_singleton c, rfl, ?_, ?_⟩, ?_⟩, ?_⟩
    · exact (sameCell_setNext ..).trans (sameCell_setPrev ..)
    · simp
    · simp
    · simp
    · intro p _ hp
      rw [setPrev_of_ne hp, setNext_of_ne hp]
  | cons first rs =>
    obtain rfl : some first = ring := hr.head
    obtain ⟨⟨next, hnextmem, hfirst, hback⟩, -⟩ := hr.links (c := first) mem_cons_self
    have hfc : first ≠ c := fun heq => hc (heq ▸ mem_cons_self)
    have hnc : next ≠ c := fun heq => hc (heq ▸ hnextmem)
    simp only [hfirst, pure_eq_ok, ok_bind, setPrev_next, setNext_next, setPrev_prev, setNext_prev,
      if_true, if_neg hfc.symm, if_neg hnc.symm, Option.bind_some, cAssert_of_true]
    refine ⟨_, rfl, fun p => ?_, ⟨c :: (rs ++ [first]), ⟨?_, rfl, ?_⟩, ?_⟩, ?_⟩
    · exact (((sameCell_setNext ..).trans (sameCell_setPrev ..)).trans
        (sameCell_setPrev ..)).trans (sameCell_setNext ..)
    · refine nodup_cons.2 ⟨fun hmem => hc ?_, ?_⟩
      · rcases mem_append.1 hmem with hmem | hmem
        · exact mem_cons_of_mem _ hmem
        · exact mem_singleton.1 hmem ▸ mem_cons_self
      · exact (perm_append_singleton first rs).nodup_iff.2 hr.nodup
    · refine hr.ring.insert hr.nodup hc hfirst ?_ ?_ ?_ ?_ ?_ ?_
      · simp [hfc.symm]
      · simp [hnc.symm]
      · simp
      · simp
      · intro x hxc hxf
        simp [hxc, hxf]
      · intro x hxc hxn
        simp [hxc, hxn]
    · intro p
      simp only [mem_cons, mem_append, not_mem_nil, or_false]
      tauto
    · intro p hp hpc
      have hpf : p ≠ first := fun heq => hp (heq ▸ mem_cons_self)
      have hpn : p ≠ next := fun heq => hp (heq ▸ hnextmem)
      rw [setNext_of_ne hpf, setPrev_of_ne hpn, setPrev_of_ne hpc, setNext_of_ne hpc]

/-- The links after a cell was taken out of a ring. -/
def unlink (cells : ItemPtr → Cell) (c next prev : ItemPtr) : ItemPtr → Cell :=
  setPrev (setNext (setNext (setPrev cells next (some prev)) prev (some next)) c none) c none

theorem unlink_ring (hr : IsRing cells ring rs) (hc : c ∈ rs) {next prev : ItemPtr}
    (hnext : (cells c).next = some next) (hprev : (cells c).prev = some prev) (hnc : next ≠ c)
    (hpc : prev ≠ c) :
    ∃ rs', IsRing (unlink cells c next prev) (if ring = some c then some next else ring) rs' ∧
      ∀ p, p ∈ rs' ↔ p ∈ rs ∧ p ≠ c := by
  have hnextp : (unlink cells c next prev prev).next = some next := by simp [unlink, hpc]
  have hprevn : (unlink cells c next prev next).prev = some prev := by simp [unlink, hnc]
  have hnexts : ∀ x, x ≠ prev → x ≠ c → (unlink cells c next prev x).next = (cells x).next := by
    intro x hx hxc
    simp [unlink, hx, hxc]
  have hprevs : ∀ x, x ≠ next → x ≠ c → (unlink cells c next prev x).prev = (cells x).prev := by
    intro x hx hxc
    simp [unlink, hx, hxc]
  cases rs with
  | nil => cases hc
  | cons first rs =>
    obtain rfl : some first = ring := hr.head
    by_cases hfirst : first = c
    · subst hfirst
      rw [if_pos rfl]
      cases rs with
      | nil => exact absurd (Option.some.inj (hnext.symm.trans hr.ring.1)) hnc
      | cons x rs =>
        obtain rfl : next = x := Option.some.inj (hnext.symm.trans hr.ring.1.1)
        have hcons := nodup_cons.1 hr.nodup
        refine ⟨next :: rs, ⟨hcons.2, rfl, ?_⟩, ?_⟩
        · exact hr.ring.removeHead hr.nodup hprev hnextp hprevn hnexts hprevs
        · intro p
          constructor
          · intro hp
            exact ⟨mem_cons_of_mem _ hp, fun heq => hcons.1 (heq ▸ hp)⟩
          · rintro ⟨hp, hne⟩
            exact (mem_cons.1 hp).resolve_left hne
    · rw [if_neg (fun heq => hfirst (Option.some.inj heq))]
      have hmem : c ∈ rs := (mem_cons.1 hc).resolve_left (Ne.symm hfirst)
      obtain ⟨l, l', rfl⟩ := append_of_mem hmem
      have hnodup := hr.nodup
      refine ⟨first :: (l ++ l'), ⟨?_, rfl, ?_⟩, ?_⟩
      · exact hnodup.sublist (((sublist_cons_self c l').append_left l).cons_cons first)
      · exact hr.ring.remove hnodup hnext hprev hnextp hprevn hnexts hprevs
      · have hperm : (first :: (l ++ c :: l')).Perm (c :: first :: (l ++ l')) :=
          (perm_middle.cons first).trans (List.Perm.swap c first _)
        have hcons := nodup_cons.1 (hperm.nodup_iff.1 hnodup)
        intro p
        rw [hperm.mem_iff]
        constructor
        · intro hp
          exact ⟨mem_cons_of_mem _ hp, fun heq => hcons.1 (heq ▸ hp)⟩
        · rintro ⟨hp, hne⟩
          exact (mem_cons.1 hp).resolve_left hne

theorem secRemoveCellRing_spec (hr : IsRing cells ring rs) (hc : c ∈ rs) :
    ∃ cells' ring', secRemoveCellRing cells ring c = .ok (cells', ring') ∧
      (∀ p, SameCell (cells p) (cells' p)) ∧ (cells' c).next = none ∧ (cells' c).prev = none ∧
      (∃ rs', IsRing cells' ring' rs' ∧ ∀ p, p ∈ rs' ↔ p ∈ rs ∧ p ≠ c) ∧
      ∀ p, p ∉ rs → cells' p = cells p := by
  obtain ⟨⟨next, hnextmem, hnext, hback⟩, prev, hprevmem, hprev, hforth⟩ := hr.links hc
  have hsame : ∀ p, SameCell (cells p) (unlink cells c next prev p) := fun p =>
    (((sameCell_setPrev ..).trans (sameCell_setNext ..)).trans (sameCell_setNext ..)).trans
      (sameCell_setPrev ..)
  have hnone : (unlink cells c next prev c).next = none ∧
      (unlink cells c next prev c).prev = none := by simp [unlink]
  have hothers : ∀ p, p ∉ rs → unlink cells c next prev p = cells p := by
    intro p hp
    have hpc : p ≠ c := fun heq => hp (heq ▸ hc)
    have hpn : p ≠ next := fun heq => hp (heq ▸ hnextmem)
    have hpp : p ≠ prev := fun heq => hp (heq ▸ hprevmem)
    rw [unlink, setPrev_of_ne hpc, setNext_of_ne hpc, setNext_of_ne hpp, setPrev_of_ne hpn]
  obtain ⟨first, rs₀, rfl⟩ : ∃ first rs₀, rs = first :: rs₀ := by
    cases rs with
    | nil => cases hc
    | cons first rs₀ => exact ⟨first, rs₀, rfl⟩
  obtain rfl : some first = ring := hr.head
  unfold secRemoveCellRing
  simp only [hnext, hprev, cAssert_of_true hback, cAssert_of_true hforth, ok_bind]
  by_cases hself : next = c
  · -- the only cell of the ring
    subst hself
    obtain rfl : prev = next := Option.some.inj (hprev.symm.trans hback)
    have hfirst : prev = first := by
      by_contra hne
      have hmem : prev ∈ rs₀ := (mem_cons.1 hc).resolve_left hne
      obtain ⟨l, l', rfl⟩ := append_of_mem hmem
      obtain ⟨-, hsecond⟩ := Lib.path_append.1 hr.ring
      cases l' with
      | nil => exact hne (Option.some.inj (hnext.symm.trans hsecond.1))
      | cons x l' =>
        obtain rfl : prev = x := Option.some.inj (hnext.symm.trans hsecond.1.1)
        have hnodup := nodup_cons.1 (nodup_append.1 (nodup_cons.1 hr.nodup).2).2.1
        exact hnodup.1 mem_cons_self
    subst hfirst
    have hempty : rs₀ = [] := by
      cases rs₀ with
      | nil => rfl
      | cons x rs₀ =>
        obtain rfl : prev = x := Option.some.inj (hnext.symm.trans hr.ring.1.1)
        exact absurd mem_cons_self (nodup_cons.1 hr.nodup).1
    subst hempty
    simp only [if_true, cAssert_of_true, ok_bind, pure_eq_ok, ne_eq, reduceCtorEq, not_false_eq_true]
    exact ⟨_, none, rfl, hsame, hnone.1, hnone.2, ⟨[], ⟨nodup_nil, rfl, trivial⟩, by simp⟩, hothers⟩
  · have hpc : prev ≠ c := fun heq => hself (Option.some.inj (hnext.symm.trans (heq ▸ hforth)))
    obtain ⟨rs', hring', hmem'⟩ := unlink_ring hr hc hnext hprev hself hpc
    by_cases hfirst : c = first
    · simp only [if_pos hfirst, if_neg hself, cAssert_of_true hpc, ok_bind, pure_eq_ok]
      have hne : some next ≠ some c := fun heq => hself (Option.some.inj heq)
      rw [cAssert_of_true hne]
      rw [if_pos (congrArg some hfirst.symm)] at hring'
      exact ⟨_, some next, rfl, hsame, hnone.1, hnone.2, ⟨rs', hring', hmem'⟩, hothers⟩
    · simp only [if_neg hfirst, ok_bind, pure_eq_ok]
      have hne : some first ≠ some c := fun heq => hfirst (Option.some.inj heq).symm
      rw [cAssert_of_true hne]
      rw [if_neg hne] at hring'
      exact ⟨_, some first, rfl, hsame, hnone.1, hnone.2, ⟨rs', hring', hmem'⟩, hothers⟩

/-- The walk along the ring finds a cell that is long enough, if there is one. -/
theorem findUnused_spec {first : ItemPtr} (hr : IsRing cells (some first) rs) (nWords : Nat) {fuel : Nat}
    (hfuel : rs.length ≤ fuel) :
    (findUnused cells first nWords fuel first = .ok none ∧ ∀ p ∈ rs, (cells p).nWords < nWords) ∨
    ∃ p ∈ rs, findUnused cells first nWords fuel first = .ok (some p) ∧ nWords ≤ (cells p).nWords := by
  obtain ⟨rs, rfl⟩ : ∃ rs₀, rs = first :: rs₀ := by
    cases rs with
    | nil => cases hr.head
    | cons x rs₀ => exact ⟨rs₀, by rw [Option.some.inj hr.head]⟩
  -- from any cell on, over the cells that are left
  have hwalk : ∀ (l : List ItemPtr) (p : ItemPtr) (fuel : Nat),
      Lib.Path (fun p => (cells p).next) (fun p => (cells p).prev) p l first → first ∉ l →
      l.length < fuel →
      (findUnused cells first nWords fuel p = .ok none ∧ ∀ q ∈ p :: l, (cells q).nWords < nWords) ∨
      ∃ q ∈ p :: l, findUnused cells first nWords fuel p = .ok (some q) ∧
        nWords ≤ (cells q).nWords := by
    intro l
    induction l with
    | nil =>
      intro p fuel hpath _ hlt
      obtain ⟨fuel, rfl⟩ := Nat.exists_eq_succ_of_ne_zero (by omega : fuel ≠ 0)
      rw [findUnused]
      by_cases hshort : (cells p).nWords < nWords
      · have hnext : (cells p).next = some first := hpath.1
        left
        rw [if_pos hshort, hnext]
        exact ⟨if_pos rfl, by simpa using hshort⟩
      · right
        rw [if_neg hshort]
        exact ⟨p, by simp, rfl, by omega⟩
    | cons x l ih =>
      intro p fuel hpath hnot hlt
      obtain ⟨fuel, rfl⟩ := Nat.exists_eq_succ_of_ne_zero (by omega : fuel ≠ 0)
      rw [findUnused]
      by_cases hshort : (cells p).nWords < nWords
      · have hnext : (cells p).next = some x := hpath.1.1
        have hx : x ≠ first := fun heq => hnot (heq ▸ mem_cons_self)
        rw [if_pos hshort, hnext]
        dsimp only
        rw [if_neg hx]
        rw [length_cons] at hlt
        rcases ih x fuel hpath.2 (fun hmem => hnot (mem_cons_of_mem _ hmem)) (by omega) with
          ⟨heq, hall⟩ | ⟨q, hq, heq, hlong⟩
        · left
          refine ⟨heq, fun q hq => ?_⟩
          rcases mem_cons.1 hq with rfl | hq
          · exact hshort
          · exact hall q hq
        · exact .inr ⟨q, mem_cons_of_mem _ hq, heq, hlong⟩
      · right
        rw [if_neg hshort]
        exact ⟨p, by simp, rfl, by omega⟩
  rw [length_cons] at hfuel
  exact hwalk rs first fuel hr.ring (nodup_cons.1 hr.nodup).1 (by omega)

end MateKeyring.Egg
