import Mathlib.Data.List.Chain
import MateKeyring.Egg.SecureCells

/-!
# A block of secure memory

`BlockOk` is the invariant of a block with the list of its cells: they tile the block, the ring has
exactly those not in use, no two of these are neighbors, the counter is right, and outside the memory
that is given out there are only zeros and pointers to cells. `Change` says what a function on the
block does to the rest: to the items in use, to the other cells in use, whose bytes stay, and which
cells are in use afterwards. It composes (`Change.trans`). Each of `sec_alloc`, `sec_free` and
`sec_realloc` is given its change.
-/

set_option autoImplicit false

namespace MateKeyring.Egg

open List
open Function (update update_eq_self update_of_ne update_self)

variable {cs : List ItemPtr} {pools : List Pool} {length : Nat} {n : Nat}

variable {mem mem' : Nat → MemVal} {cells cells' : ItemPtr → Cell} {c : ItemPtr}

variable {b : Block} {h h' : Heap}

/-! ## The invariant -/

/-- The memory given out fits in the cell, and around it no client wrote. -/
structure Kept (mem : Nat → MemVal) (k : Cell) : Prop where
  fits : k.allocated ≤ (k.nWords - 2) * 8
  clean : ∀ a, k.Within a → a < 8 * (k.words + 1) ∨ 8 * (k.words + 1) + k.allocated ≤ a →
    Clean (mem a)

theorem Kept.congr (h : Kept mem (cells c)) (hc : Untouched cells mem cells' mem' c) :
    Kept mem' (cells' c) := by
  refine ⟨?_, fun a ha hout => ?_⟩
  · rw [hc.same.allocated, hc.same.nWords]
    exact h.fits
  · have ha' : (cells c).Within a := by
      simpa only [Cell.Within, hc.same.words, hc.same.nWords] using ha
    rw [hc.same.words, hc.same.allocated] at hout
    rw [hc.mem a ha']
    exact h.clean a ha' hout

/-- What was asked for, cell by cell. -/
def sizes (cells : ItemPtr → Cell) (cs : List ItemPtr) : List Nat := cs.map fun c => (cells c).allocated

@[simp] theorem sizes_append (xs ys : List ItemPtr) :
    sizes cells (xs ++ ys) = sizes cells xs ++ sizes cells ys := map_append

@[simp] theorem sizes_cons (c : ItemPtr) (cs : List ItemPtr) :
    sizes cells (c :: cs) = (cells c).allocated :: sizes cells cs := rfl

theorem sizes_congr (h : ∀ c ∈ cs, (cells' c).allocated = (cells c).allocated) :
    sizes cells' cs = sizes cells cs := map_congr_left h

theorem countP_sizes_perm {cs cs' : List ItemPtr} (h : cs.Perm cs') :
    (sizes cells cs).countP (· ≠ 0) = (sizes cells cs').countP (· ≠ 0) :=
  (h.map _).countP_eq _

/-- No two neighbors are both unused. -/
def Apart (l : List Nat) : Prop := l.IsChain fun m n => ¬ (m = 0 ∧ n = 0)

/-- What is in a list with one more element. -/
theorem mem_middle {xs ys : List ItemPtr} {c : ItemPtr} (p : ItemPtr) :
    p ∈ xs ++ c :: ys ↔ p ∈ xs ++ ys ∨ p = c := by
  rw [perm_middle.mem_iff, mem_cons, or_comm]

/-- Two neighbors in a list without duplicates are neither each other nor one of the rest. -/
theorem nodup_pair {xs ys : List ItemPtr} {t o : ItemPtr} :
    (xs ++ t :: o :: ys).Nodup ↔ t ≠ o ∧ (∀ p ∈ xs ++ ys, p ≠ t ∧ p ≠ o) ∧ (xs ++ ys).Nodup := by
  have hperm : (xs ++ t :: o :: ys).Perm (t :: o :: (xs ++ ys)) :=
    perm_middle.trans (perm_middle.cons t)
  rw [hperm.nodup_iff, nodup_cons, nodup_cons, mem_cons, not_or]
  constructor
  · rintro ⟨⟨hto, ht⟩, ho, hnodup⟩
    exact ⟨hto, fun p hp => ⟨fun h => ht (h ▸ hp), fun h => ho (h ▸ hp)⟩, hnodup⟩
  · rintro ⟨hto, hp, hnodup⟩
    exact ⟨⟨hto, fun ht => (hp t ht).1 rfl⟩, fun ho => (hp o ho).2 rfl, hnodup⟩

theorem apart_middle {l r : List Nat} :
    Apart (l ++ n :: r) ↔ Apart l ∧ Apart r ∧
      (n = 0 → (∀ x ∈ l.getLast?, x ≠ 0) ∧ ∀ y ∈ r.head?, y ≠ 0) := by
  unfold Apart
  rw [isChain_append, isChain_cons]
  simp only [head?_cons, Option.mem_def, Option.some.injEq, forall_eq']
  constructor
  · rintro ⟨hl, ⟨hr, hrs⟩, hlast⟩
    refine ⟨hl, hrs, fun hn => ⟨fun x hx hx0 => ?_, fun y hy hy0 => ?_⟩⟩
    · exact hlast x hx ⟨hx0, hn⟩
    · exact hr y hy ⟨hn, hy0⟩
  · rintro ⟨hl, hrs, hn⟩
    refine ⟨hl, ⟨fun y hy hzero => ?_, hrs⟩, fun x hx hzero => ?_⟩
    · exact (hn hzero.1).2 y hy hzero.2
    · exact (hn hzero.2).1 x hx hzero.1

/-- The block is well formed, with these cells. -/
structure BlockOk (cells : ItemPtr → Cell) (b : Block) (cs : List ItemPtr) : Prop where
  tiles : Tiles cells b.mem 0 cs b.nWords
  nodup : cs.Nodup
  kept : ∀ c ∈ cs, Kept b.mem (cells c)
  ring : ∃ rs, IsRing cells b.unused rs ∧ ∀ c, c ∈ rs ↔ c ∈ cs ∧ (cells c).allocated = 0
  loose : ∀ c ∈ cs, (cells c).allocated ≠ 0 → (cells c).next = none ∧ (cells c).prev = none
  used : b.used = (sizes cells cs).countP (· ≠ 0)
  apart : Apart (sizes cells cs)

/-- The block depends on its own cells only. -/
theorem BlockOk.congr (h : BlockOk cells b cs) (hcs : ∀ c ∈ cs, cells' c = cells c) :
    BlockOk cells' b cs := by
  have huntouched : ∀ c ∈ cs, Untouched cells b.mem cells' b.mem c := by
    intro c hc
    refine ⟨?_, fun _ _ => rfl⟩
    rw [hcs c hc]
    exact SameCell.refl _
  have hsizes : sizes cells' cs = sizes cells cs :=
    sizes_congr fun c hc => congrArg Cell.allocated (hcs c hc)
  obtain ⟨rs, hring, hmem⟩ := h.ring
  refine ⟨h.tiles.congr huntouched, h.nodup, fun c hc => (h.kept c hc).congr (huntouched c hc),
    ⟨rs, hring.congr fun p hp => ?_, fun p => ?_⟩, fun c hc hlive => ?_, ?_, ?_⟩
  · rw [hcs p ((hmem p).1 hp).1]
    exact ⟨rfl, rfl⟩
  · rw [hmem p]
    refine and_congr_right fun hp => ?_
    rw [hcs p hp]
  · rw [hcs c hc] at hlive ⊢
    exact h.loose c hc hlive
  · rw [h.used, hsizes]
  · rw [hsizes]
    exact h.apart

/-! ## What a function on a block does to the rest -/

/-- The items in use, and what the items of other blocks hold. -/
structure PoolFrame (h : Heap) (cs : List ItemPtr) (h' : Heap) (cs' : List ItemPtr) : Prop where
  pools : PoolsOk h'.pools
  inUse : ∀ q, InUse h'.pools q ↔ (InUse h.pools q ∧ q ∉ cs) ∨ q ∈ cs'
  fresh : ∀ q ∈ cs', q ∈ cs ∨ ¬ InUse h.pools q
  cells : ∀ q, InUse h.pools q → q ∉ cs → h'.cells q = h.cells q
  blocks : h'.blocks = h.blocks
  malloced : h'.malloced = h.malloced

theorem PoolFrame.trans {h h' h'' : Heap} {cs cs' cs'' : List ItemPtr} (h₁ : PoolFrame h cs h' cs')
    (h₂ : PoolFrame h' cs' h'' cs'') : PoolFrame h cs h'' cs'' := by
  have hfresh : ∀ q, InUse h.pools q → q ∉ cs → q ∉ cs' := by
    intro q huse hq hq'
    rcases h₁.fresh q hq' with hmem | hnot
    · exact hq hmem
    · exact hnot huse
  refine ⟨h₂.pools, fun q => ?_, fun q hq => ?_, fun q huse hq => ?_, h₂.blocks.trans h₁.blocks,
    h₂.malloced.trans h₁.malloced⟩
  · rw [h₂.inUse q, h₁.inUse q]
    have := hfresh q
    tauto
  · rcases h₂.fresh q hq with hq' | hnot
    · exact h₁.fresh q hq'
    · rw [h₁.inUse q] at hnot
      tauto
  · rw [h₂.cells q ((h₁.inUse q).2 (.inl ⟨huse, hq⟩)) (hfresh q huse hq), h₁.cells q huse hq]

/-- Only links and bounds of cells of the block were changed. -/
theorem PoolFrame.of_cells (hpools : PoolsOk h.pools) (hcs : ∀ c ∈ cs, InUse h.pools c)
    (hsame : h'.pools = h.pools) (hblocks : h'.blocks = h.blocks) (hmalloced : h'.malloced = h.malloced)
    (hcells : ∀ q, q ∉ cs → h'.cells q = h.cells q) :
    PoolFrame h cs h' cs := by
  refine ⟨hsame ▸ hpools, fun q => ?_, fun q hq => .inl hq, fun q _ hq => hcells q hq, hblocks,
    hmalloced⟩
  rw [hsame]
  have := hcs q
  tauto

/-- One cell of the block is gone. -/
theorem PoolFrame.of_poolFree {cs cs' : List ItemPtr} {o : ItemPtr}
    (hpools : PoolsOk h'.pools) (hcs : ∀ p ∈ cs, InUse h.pools p)
    (huse : ∀ q, InUse h'.pools q ↔ InUse h.pools q ∧ q ≠ o) (ho : o ∈ cs)
    (hmem : ∀ q, q ∈ cs' ↔ q ∈ cs ∧ q ≠ o) (hcells : ∀ q, q ∉ cs → h'.cells q = h.cells q)
    (hblocks : h'.blocks = h.blocks) (hmalloced : h'.malloced = h.malloced) :
    PoolFrame h cs h' cs' := by
  refine ⟨hpools, fun q => ?_, fun q hq => .inl ((hmem q).1 hq).1, fun q _ hq => hcells q hq, hblocks,
    hmalloced⟩
  rw [huse q, hmem q]
  constructor
  · rintro ⟨hq, hne⟩
    by_cases hin : q ∈ cs
    · exact .inr ⟨hin, hne⟩
    · exact .inl ⟨hq, hin⟩
  · rintro (⟨hq, hnot⟩ | ⟨hq, hne⟩)
    · exact ⟨hq, fun heq => hnot (heq ▸ ho)⟩
    · exact ⟨hcs q hq, hne⟩

/-- The block with the cells `cs` becomes one with the cells `cs'`. The cells in use stay, but for
those of `old`; and those of `new` come to them. -/
structure Change (h : Heap) (b : Block) (cs : List ItemPtr) (h' : Heap) (b' : Block)
    (cs' : List ItemPtr) (old new : ItemPtr → Prop) : Prop where
  frame : PoolFrame h cs h' cs'
  ok : BlockOk h'.cells b' cs'
  item : b'.item = b.item
  words : b'.words = b.words
  nWords : b'.nWords = b.nWords
  kept : ∀ p ∈ cs, (h.cells p).allocated ≠ 0 → ¬ old p →
    p ∈ cs' ∧ Untouched h.cells b.mem h'.cells b'.mem p
  only : ∀ p ∈ cs', (h'.cells p).allocated ≠ 0 →
    new p ∨ p ∈ cs ∧ (h.cells p).allocated ≠ 0 ∧ ¬ old p

theorem Change.trans {h h' h'' : Heap} {b b' b'' : Block} {cs cs' cs'' : List ItemPtr}
    {old new old' new' : ItemPtr → Prop} (h₁ : Change h b cs h' b' cs' old new)
    (h₂ : Change h' b' cs' h'' b'' cs'' old' new') :
    Change h b cs h'' b'' cs'' (fun p => old p ∨ old' p) (fun p => new' p ∨ new p ∧ ¬ old' p) := by
  refine ⟨h₁.frame.trans h₂.frame, h₂.ok, h₂.item.trans h₁.item, h₂.words.trans h₁.words,
    h₂.nWords.trans h₁.nWords, fun p hp hlive hold => ?_, fun p hp hlive => ?_⟩
  · obtain ⟨hp', hun⟩ := h₁.kept p hp hlive fun h => hold (.inl h)
    have hlive' : (h'.cells p).allocated ≠ 0 := hun.same.allocated ▸ hlive
    obtain ⟨hp'', hun'⟩ := h₂.kept p hp' hlive' fun h => hold (.inr h)
    exact ⟨hp'', hun.trans hun'⟩
  · rcases h₂.only p hp hlive with hnew | ⟨hp', hlive', hnot'⟩
    · exact .inl (.inl hnew)
    · rcases h₁.only p hp' hlive' with hnew | ⟨hp, hlive, hnot⟩
      · exact .inl (.inr ⟨hnew, hnot'⟩)
      · exact .inr ⟨hp, hlive, fun h => h.elim hnot hnot'⟩

/-- Fewer cells need to be named. -/
theorem Change.weaken {b b' : Block} {cs cs' : List ItemPtr}
    {old new old' new' : ItemPtr → Prop} (h₁ : Change h b cs h' b' cs' old new)
    (hold : ∀ p ∈ cs, (h.cells p).allocated ≠ 0 → (old p ↔ old' p))
    (hnew : ∀ p, new p → new' p) : Change h b cs h' b' cs' old' new' := by
  refine ⟨h₁.frame, h₁.ok, h₁.item, h₁.words, h₁.nWords, fun p hp hlive hnot => ?_,
    fun p hp hlive => ?_⟩
  · exact h₁.kept p hp hlive fun h => hnot ((hold p hp hlive).1 h)
  · rcases h₁.only p hp hlive with h | ⟨hp, hlive, hnot⟩
    · exact .inl (hnew p h)
    · exact .inr ⟨hp, hlive, fun h => hnot ((hold p hp hlive).2 h)⟩

/-- A part of a block is divided anew: what is left to show is about that part. -/
theorem Change.rebuild {b b' : Block} (xs mid mid' ys : List ItemPtr)
    {old new : ItemPtr → Prop} (hb : BlockOk h.cells b (xs ++ (mid ++ ys)))
    (hframe : PoolFrame h (xs ++ (mid ++ ys)) h' (xs ++ (mid' ++ ys)))
    (hitem : b'.item = b.item) (hwords : b'.words = b.words) (hn : b'.nWords = b.nWords)
    (hsame : ∀ p ∈ xs ++ ys, SameCell (h.cells p) (h'.cells p))
    (hloose : ∀ p ∈ xs ++ ys, (h.cells p).allocated ≠ 0 → h'.cells p = h.cells p)
    (hmid : ∀ p q, Tiles h.cells b.mem p mid q → 0 ≤ p → q ≤ b.nWords →
      Tiles h'.cells b'.mem p mid' q ∧ ∀ a, a < 8 * p ∨ 8 * q ≤ a → b'.mem a = b.mem a)
    (hnodup : (xs ++ (mid' ++ ys)).Nodup)
    (hkept : ∀ p ∈ mid', Kept b'.mem (h'.cells p))
    (hring : ∃ rs, IsRing h'.cells b'.unused rs ∧ ∀ p, p ∈ rs ↔
      p ∈ xs ++ ys ∧ (h.cells p).allocated = 0 ∨ p ∈ mid' ∧ (h'.cells p).allocated = 0)
    (hloose' : ∀ p ∈ mid', (h'.cells p).allocated ≠ 0 →
      (h'.cells p).next = none ∧ (h'.cells p).prev = none)
    (hused : b'.used + (sizes h.cells mid).countP (· ≠ 0) =
      b.used + (sizes h'.cells mid').countP (· ≠ 0))
    (hapart : Apart (sizes h.cells xs ++ (sizes h'.cells mid' ++ sizes h.cells ys)))
    (hold : ∀ p ∈ mid, (h.cells p).allocated ≠ 0 → old p)
    (hold' : ∀ p ∈ xs ++ ys, (h.cells p).allocated ≠ 0 → ¬ old p)
    (hnew : ∀ p ∈ mid', (h'.cells p).allocated ≠ 0 → new p) :
    Change h b (xs ++ (mid ++ ys)) h' b' (xs ++ (mid' ++ ys)) old new := by
  obtain ⟨htiles, hun⟩ := Tiles.splice mid hb.tiles hsame hmid
  have hxs : sizes h'.cells xs = sizes h.cells xs :=
    sizes_congr fun p hp => (hsame p (mem_append_left _ hp)).allocated
  have hys : sizes h'.cells ys = sizes h.cells ys :=
    sizes_congr fun p hp => (hsame p (mem_append_right _ hp)).allocated
  have hsplit : ∀ {p : ItemPtr} {m : List ItemPtr}, p ∈ xs ++ (m ++ ys) ↔ p ∈ xs ++ ys ∨ p ∈ m := by
    intro p m
    simp only [mem_append]
    tauto
  refine ⟨hframe, ⟨hn ▸ htiles, hnodup, ?_, ?_, ?_, ?_, ?_⟩, hitem, hwords, hn, ?_, ?_⟩
  · intro p hp
    rcases hsplit.1 hp with hp | hp
    · exact (hb.kept p (hsplit.2 (.inl hp))).congr (hun p hp)
    · exact hkept p hp
  · obtain ⟨rs, hisring, hmem⟩ := hring
    refine ⟨rs, hisring, fun p => ?_⟩
    rw [hmem p, hsplit]
    constructor
    · rintro (⟨hp, hfree⟩ | ⟨hp, hfree⟩)
      · exact ⟨.inl hp, (hsame p hp).allocated.trans hfree⟩
      · exact ⟨.inr hp, hfree⟩
    · rintro ⟨hp | hp, hfree⟩
      · exact .inl ⟨hp, (hsame p hp).allocated.symm.trans hfree⟩
      · exact .inr ⟨hp, hfree⟩
  · intro p hp hlive
    rcases hsplit.1 hp with hp | hp
    · have hlive' : (h.cells p).allocated ≠ 0 := (hsame p hp).allocated ▸ hlive
      rw [hloose p hp hlive']
      exact hb.loose p (hsplit.2 (.inl hp)) hlive'
    · exact hloose' p hp hlive
  · have hold := hb.used
    simp only [sizes_append, countP_append, hxs, hys] at hold ⊢
    omega
  · rw [sizes_append, sizes_append, hxs, hys]
    exact hapart
  · intro p hp hlive hnot
    rcases hsplit.1 hp with hp | hp
    · exact ⟨hsplit.2 (.inl hp), hun p hp⟩
    · exact absurd (hold p hp hlive) hnot
  · intro p hp hlive
    rcases hsplit.1 hp with hp | hp
    · have hlive' : (h.cells p).allocated ≠ 0 := (hsame p hp).allocated ▸ hlive
      exact .inr ⟨hsplit.2 (.inl hp), hlive', hold' p hp hlive'⟩
    · exact .inl (hnew p hp hlive)

/-- Memory is stored only between the guards of a cell whose bounds stay. -/
theorem tiles_single {p q : Nat} (h : Tiles cells mem p [c] q)
    (hwords : (cells' c).words = (cells c).words) (hnWords : (cells' c).nWords = (cells c).nWords)
    (hmem : ∀ a, a < 8 * ((cells c).words + 1) ∨
      8 * ((cells c).words + (cells c).nWords - 1) ≤ a → mem' a = mem a) :
    Tiles cells' mem' p [c] q ∧ ∀ a, a < 8 * p ∨ 8 * q ≤ a → mem' a = mem a := by
  obtain ⟨hp, hg, hq⟩ := h
  have hlong := hg.long
  have hend : p + (cells c).nWords = q := hq
  refine ⟨⟨hwords.trans hp, ⟨hnWords ▸ hlong, ?_, ?_⟩, ?_⟩, fun a ha => hmem a (by omega)⟩
  · rw [hwords]
    exact hg.first.congr fun a ha ha' => hmem a (by omega)
  · rw [hwords, hnWords]
    exact hg.last.congr fun a ha ha' => hmem a (by omega)
  · change p + (cells' c).nWords = q
    rw [hnWords]
    exact hend

theorem tiles_memset {p q : Nat} (start stop : Nat) (h : Tiles cells mem p [c] q)
    (hstart : 8 * ((cells c).words + 1) ≤ start)
    (hstop : stop ≤ 8 * ((cells c).words + (cells c).nWords - 1)) :
    Tiles cells (memset mem start stop) p [c] q ∧
      ∀ a, a < 8 * p ∨ 8 * q ≤ a → memset mem start stop a = mem a :=
  tiles_single h rfl rfl fun _ _ => if_neg (by omega)

/-! ## `sec_alloc` -/

theorem le_secSizeToWords (length : Nat) : length ≤ secSizeToWords length * 8 := by
  unfold secSizeToWords
  split <;> omega

theorem secSizeToWords_lt (length : Nat) : secSizeToWords length * 8 < length + 8 := by
  unfold secSizeToWords
  split <;> omega

/-- An unused cell is taken as it is. -/
theorem take_change {xs ys : List ItemPtr} {rs : List ItemPtr}
    (hb : BlockOk h.cells b (xs ++ c :: ys)) (hpools : PoolsOk h.pools)
    (hcs : ∀ p ∈ xs ++ c :: ys, InUse h.pools p) (hfree : (h.cells c).allocated = 0) (hlen : length ≠ 0)
    (hfit : length ≤ ((h.cells c).nWords - 2) * 8)
    (hrs : ∀ p, p ∈ rs ↔ p ∈ xs ++ c :: ys ∧ (h.cells p).allocated = 0) {cells₁ : ItemPtr → Cell}
    {ring : Option ItemPtr} (hsame : ∀ p, SameCell (h.cells p) (cells₁ p)) (hnext : (cells₁ c).next = none)
    (hprev : (cells₁ c).prev = none) (hring : ∃ rs', IsRing cells₁ ring rs' ∧ ∀ p, p ∈ rs' ↔ p ∈ rs ∧ p ≠ c)
    (hothers : ∀ p, p ∉ rs → cells₁ p = h.cells p) :
    Change h b (xs ++ c :: ys)
      { h with cells := update cells₁ c { cells₁ c with allocated := length } }
      { b with used := b.used + 1, unused := ring,
               mem := memset b.mem (8 * ((cells₁ c).words + 1)) (8 * ((cells₁ c).words + 1) + length) }
      (xs ++ c :: ys) (fun _ => False) (fun p => p = c) := by
  rw [(hsame c).words]
  have hperm := nodup_cons.1 (perm_middle.nodup_iff.1 hb.nodup)
  have hne : ∀ p ∈ xs ++ ys, p ≠ c := fun p hp heq => hperm.1 (heq ▸ hp)
  have hside : ∀ p ∈ xs ++ ys, update cells₁ c { cells₁ c with allocated := length } p = cells₁ p :=
    fun p hp => update_of_ne (hne p hp) ..
  have hself : update cells₁ c { cells₁ c with allocated := length } c =
      { cells₁ c with allocated := length } := update_self ..
  have hcin : c ∈ xs ++ c :: ys := by simp
  have hmem := @mem_middle xs ys c
  have hlong := (hb.tiles.guarded hcin).long
  have hout : ∀ a, a < 8 * ((h.cells c).words + 1) ∨
      8 * ((h.cells c).words + (h.cells c).nWords - 1) ≤ a →
      memset b.mem (8 * ((h.cells c).words + 1)) (8 * ((h.cells c).words + 1) + length) a =
        b.mem a := fun a ha => if_neg (by omega)
  refine Change.rebuild xs [c] [c] ys hb ?_ rfl rfl rfl ?_ ?_ ?_ hb.nodup ?_ ?_ ?_ ?_ ?_ ?_
    (fun _ _ _ => id) ?_
  · refine PoolFrame.of_cells hpools hcs rfl rfl rfl fun q hq => ?_
    have hqc : q ≠ c := fun heq => hq (heq ▸ hcin)
    change update cells₁ c _ q = h.cells q
    rw [update_of_ne hqc]
    exact hothers q fun hmem => hq ((hrs q).1 hmem).1
  · intro p hp
    change SameCell _ (update cells₁ c _ p)
    rw [hside p hp]
    exact hsame p
  · intro p hp hlive
    change update cells₁ c _ p = _
    rw [hside p hp]
    exact hothers p fun hmem => hlive ((hrs p).1 hmem).2
  · intro p q ht _ _
    refine tiles_single ht ?_ ?_ hout
    · change (update cells₁ c _ c).words = _
      rw [hself]
      exact (hsame c).words
    · change (update cells₁ c _ c).nWords = _
      rw [hself]
      exact (hsame c).nWords
  · intro p hp
    obtain rfl := mem_singleton.1 hp
    change Kept _ (update cells₁ p _ p)
    rw [hself]
    refine ⟨?_, fun a ha _ => clean_memset fun _ => ?_⟩
    · change length ≤ ((cells₁ p).nWords - 2) * 8
      rw [(hsame p).nWords]
      exact hfit
    · have hw : (h.cells p).Within a := by
        simpa only [Cell.Within, (hsame p).words, (hsame p).nWords] using ha
      refine (hb.kept p hcin).clean a hw ?_
      rw [hfree]
      omega
  · obtain ⟨rs', hisring, hmem'⟩ := hring
    refine ⟨rs', hisring.congr fun p hp => ?_, fun p => ?_⟩
    · have hpc := ((hmem' p).1 hp).2
      change (update cells₁ c _ p).next = _ ∧ (update cells₁ c _ p).prev = _
      rw [update_of_ne hpc]
      exact ⟨rfl, rfl⟩
    · rw [hmem' p, hrs p, hmem p]
      constructor
      · rintro ⟨⟨hp | hp, hzero⟩, hpc⟩
        · exact .inl ⟨hp, hzero⟩
        · exact absurd hp hpc
      · rintro (⟨hp, hzero⟩ | ⟨hp, hzero⟩)
        · exact ⟨⟨.inl hp, hzero⟩, hne p hp⟩
        · obtain rfl := mem_singleton.1 hp
          change (update cells₁ p _ p).allocated = 0 at hzero
          rw [hself] at hzero
          exact absurd hzero hlen
  · intro p hp _
    obtain rfl := mem_singleton.1 hp
    change (update cells₁ p _ p).next = _ ∧ (update cells₁ p _ p).prev = _
    rw [hself]
    exact ⟨hnext, hprev⟩
  · have hzero : sizes h.cells [c] = [0] := by simp [sizes, hfree]
    have hlive : sizes (update cells₁ c { cells₁ c with allocated := length }) [c] =
        [length] := by simp [sizes]
    rw [hzero, hlive]
    simp [hlen]
  · have hlive : sizes (update cells₁ c { cells₁ c with allocated := length }) [c] =
        [length] := by simp [sizes]
    have hapart := hb.apart
    rw [sizes_append, sizes_cons, apart_middle] at hapart
    rw [hlive]
    exact apart_middle.2 ⟨hapart.1, hapart.2.1, fun h => absurd h hlen⟩
  · intro p hp hlive
    obtain rfl := mem_singleton.1 hp
    exact absurd hfree hlive
  · intro p hp _
    exact mem_singleton.1 hp

/-- The first words of an unused cell become a cell of their own. -/
theorem split_change {b b' : Block} {xs ys : List ItemPtr} {other : ItemPtr}
    {n length : Nat} (hb : BlockOk h.cells b (xs ++ c :: ys)) (hpools : PoolsOk h'.pools)
    (hcs : ∀ p ∈ xs ++ c :: ys, InUse h.pools p) (hfresh : ¬ InUse h.pools other)
    (huse : ∀ q, InUse h'.pools q ↔ InUse h.pools q ∨ q = other)
    (hblocks : h'.blocks = h.blocks) (hmalloced : h'.malloced = h.malloced)
    (hfree : (h.cells c).allocated = 0) (hlen : length ≠ 0) (hfit : length ≤ (n - 2) * 8)
    (hn : n ≤ (h.cells c).nWords)
    (hother : h'.cells other =
      { words := (h.cells c).words, nWords := n, allocated := length, next := none, prev := none })
    (hrest : h'.cells c =
      { h.cells c with words := (h.cells c).words + n, nWords := (h.cells c).nWords - n })
    (hsides : ∀ p, p ≠ other → p ≠ c → h'.cells p = h.cells p)
    (hitem : b'.item = b.item) (hwords : b'.words = b.words) (hnWords : b'.nWords = b.nWords)
    (hused : b'.used = b.used + 1) (hunused : b'.unused = b.unused)
    (hgother : Guarded b'.mem other (h'.cells other)) (hgrest : Guarded b'.mem c (h'.cells c))
    (hmem : ∀ a, ¬ (h.cells c).Within a → b'.mem a = b.mem a)
    (hclean : ∀ a, Clean (b.mem a) → Clean (b'.mem a)) :
    Change h b (xs ++ c :: ys) h' b' (xs ++ other :: c :: ys) (fun _ => False)
      (fun p => p = other) := by
  have hperm := nodup_cons.1 (perm_middle.nodup_iff.1 hb.nodup)
  have hcin : c ∈ xs ++ c :: ys := by simp
  have hnot : other ∉ xs ++ c :: ys := fun hmem => hfresh (hcs other hmem)
  have hmem' := @mem_middle xs ys c
  have hside : ∀ p ∈ xs ++ ys, h'.cells p = h.cells p := by
    intro p hp
    refine hsides p (fun heq => hnot ?_) (fun heq => hperm.1 (heq ▸ hp))
    exact (hmem' other).2 (.inl (heq ▸ hp))
  have hoc : other ≠ c := fun heq => hnot (heq ▸ hcin)
  have hblank : ∀ a, (h.cells c).Within a → Clean (b'.mem a) := by
    intro a ha
    refine hclean a ((hb.kept c hcin).clean a ha ?_)
    rw [hfree]
    omega
  refine Change.rebuild xs [c] [other, c] ys hb ?_ hitem hwords hnWords ?_ ?_ ?_ ?_ ?_ ?_ ?_ ?_ ?_ ?_
    (fun _ _ _ => id) ?_
  · have hnew : ∀ q, q ∈ xs ++ ([other, c] ++ ys) ↔ q ∈ xs ++ c :: ys ∨ q = other := by
      intro q
      simp only [mem_append, mem_cons, not_mem_nil, or_false]
      tauto
    refine ⟨hpools, fun q => ?_, fun q hq => ?_, fun q hq hqcs => ?_, hblocks, hmalloced⟩
    · rw [huse q, hnew q]
      have := hcs q
      change _ ↔ InUse h.pools q ∧ q ∉ xs ++ c :: ys ∨ _
      tauto
    · rcases (hnew q).1 hq with hq | rfl
      · exact .inl hq
      · exact .inr hfresh
    · exact hsides q (fun heq => hfresh (heq ▸ hq)) (fun heq => hqcs (heq ▸ hcin))
  · intro p hp
    rw [hside p hp]
    exact SameCell.refl _
  · intro p hp _
    exact hside p hp
  · rintro p q ⟨hp, hg, hq⟩ _ _
    have hend : p + (h.cells c).nWords = q := hq
    refine ⟨⟨?_, hgother, ?_, hgrest, ?_⟩, fun a ha => hmem a ?_⟩
    · rw [hother]
      exact hp
    · rw [hrest, hother]
      change (h.cells c).words + n = p + n
      omega
    · rw [hrest, hother]
      change p + n + ((h.cells c).nWords - n) = q
      omega
    · rintro ⟨hlo, hhi⟩
      omega
  · have hnodup : (other :: (xs ++ c :: ys)).Nodup := nodup_cons.2 ⟨hnot, hb.nodup⟩
    exact perm_middle.nodup_iff.2 hnodup
  · intro p hp
    rcases mem_cons.1 hp with rfl | hp
    · rw [hother]
      refine ⟨hfit, fun a ha _ => hblank a ⟨ha.1, ?_⟩⟩
      have := ha.2
      change a < 8 * ((h.cells c).words + n) at this
      omega
    · obtain rfl := mem_singleton.1 hp
      rw [hrest]
      refine ⟨by rw [hfree]; exact Nat.zero_le _, fun a ha _ => hblank a ?_⟩
      have hlo : 8 * ((h.cells p).words + n) ≤ a := ha.1
      have hhi : a < 8 * ((h.cells p).words + n + ((h.cells p).nWords - n)) := ha.2
      exact ⟨by omega, by omega⟩
  · obtain ⟨rs, hisring, hmemrs⟩ := hb.ring
    refine ⟨rs, hunused ▸ hisring.congr fun p hp => ?_, fun p => ?_⟩
    · obtain ⟨hp, -⟩ := (hmemrs p).1 hp
      rcases (hmem' p).1 hp with hp | rfl
      · rw [hside p hp]
        exact ⟨rfl, rfl⟩
      · rw [hrest]
        exact ⟨rfl, rfl⟩
    · rw [hmemrs p, hmem' p]
      constructor
      · rintro ⟨hp | rfl, hzero⟩
        · exact .inl ⟨hp, hzero⟩
        · refine .inr ⟨by simp, ?_⟩
          rw [hrest]
          exact hzero
      · rintro (⟨hp, hzero⟩ | ⟨hp, hzero⟩)
        · exact ⟨.inl hp, hzero⟩
        · rcases mem_cons.1 hp with rfl | hp
          · rw [hother] at hzero
            exact absurd hzero hlen
          · obtain rfl := mem_singleton.1 hp
            exact ⟨.inr rfl, hfree⟩
  · intro p hp hlive
    rcases mem_cons.1 hp with rfl | hp
    · rw [hother]
      exact ⟨rfl, rfl⟩
    · obtain rfl := mem_singleton.1 hp
      rw [hrest] at hlive
      exact absurd hfree hlive
  · rw [hused]
    simp [sizes, hfree, hother, hrest, hlen]
  · have hapart := hb.apart
    rw [sizes_append, sizes_cons, apart_middle, hfree] at hapart
    have hpair : sizes h'.cells [other, c] = [length, 0] := by simp [sizes, hother, hrest, hfree]
    rw [hpair]
    refine apart_middle.2 ⟨hapart.1, ?_, fun h => absurd h hlen⟩
    exact (apart_middle (l := [])).2 ⟨isChain_nil, hapart.2.1, fun _ =>
      ⟨by simp, (hapart.2.2 rfl).2⟩⟩
  · intro p hp hlive
    obtain rfl := mem_singleton.1 hp
    exact absurd hfree hlive
  · intro p hp hlive
    rcases mem_cons.1 hp with rfl | hp
    · rfl
    · obtain rfl := mem_singleton.1 hp
      rw [hrest] at hlive
      exact absurd hfree hlive

/-- The cell `t` of the block is in use for memory at this word, of this length. -/
structure Given (cells : ItemPtr → Cell) (cs : List ItemPtr) (t : ItemPtr) (memory length : Nat) :
    Prop where
  mem : t ∈ cs
  words : (cells t).words + 1 = memory
  allocated : (cells t).allocated = length

theorem secWriteGuards_congr (mem : Nat → MemVal) (hwords : (cells' c).words = (cells c).words)
    (hnWords : (cells' c).nWords = (cells c).nWords) :
    secWriteGuards mem cells' c = secWriteGuards mem cells c := by
  unfold secWriteGuards
  rw [hwords, hnWords]

/-- The ring has at most as many cells as the block has words. -/
theorem BlockOk.ring_length {cs rs : List ItemPtr} (hb : BlockOk cells b cs)
    (hr : rs.Nodup) (hrs : ∀ p ∈ rs, p ∈ cs) : rs.length ≤ b.nWords := by
  have hle := (hr.subperm hrs).length_le
  have := hb.tiles.length_le
  omega

/-- The memory after the first `n` words of a cell of `N` words became another one. -/
theorem split_memory (mem : Nat → MemVal) (other : ItemPtr) (k : ItemPtr → Cell) {w n N length : Nat}
    (hwother : (k other).words = w) (hnother : (k other).nWords = n) (hwc : (k c).words = w + n)
    (hnc : (k c).nWords = N - n) (hn : 2 ≤ n) (hN : n + 2 ≤ N) (hfit : length ≤ (n - 2) * 8) :
    Guarded (memset (secWriteGuards (secWriteGuards mem k other) k c) (8 * (w + 1))
        (8 * (w + 1) + length)) other (k other) ∧
      Guarded (memset (secWriteGuards (secWriteGuards mem k other) k c) (8 * (w + 1))
        (8 * (w + 1) + length)) c (k c) ∧
      (∀ a, a < 8 * w ∨ 8 * (w + N) ≤ a →
        memset (secWriteGuards (secWriteGuards mem k other) k c) (8 * (w + 1))
          (8 * (w + 1) + length) a = mem a) ∧
      ∀ a, Clean (mem a) → Clean (memset (secWriteGuards (secWriteGuards mem k other) k c)
        (8 * (w + 1)) (8 * (w + 1) + length) a) := by
  refine ⟨?_, ?_, fun a ha => ?_, fun a ha => ?_⟩
  · refine ((guarded_secWriteGuards mem (by omega)).secWriteGuards ?_ ?_).memset ?_
    · omega
    · omega
    · omega
  · exact (guarded_secWriteGuards _ (by omega)).memset (by omega)
  · change (if _ then _ else _) = _
    rw [if_neg (by omega), secWriteGuards_of_outside (by omega) (by omega),
      secWriteGuards_of_outside (by omega) (by omega)]
  · exact clean_memset fun _ => clean_secWriteGuards (clean_secWriteGuards ha)

/-- What `stealFromCell` makes of the two cells. -/
theorem steal_eq {sys : System} {other : ItemPtr} {calls : Nat}
    (hbig : (h.cells c).nWords > n + 4) (halloc : poolAlloc sys h = .ok (some other,
      { h with pools, calls, cells := update h.cells other zeroCell })) (hoc : other ≠ c) :
    ∃ k, stealFromCell sys h b c n =
        .ok (some (other, { b with mem := secWriteGuards (secWriteGuards b.mem k other) k c }),
          { h with pools, calls, cells := k }) ∧
      k other = { zeroCell with words := (h.cells c).words, nWords := n } ∧
      k c = { h.cells c with words := (h.cells c).words + n, nWords := (h.cells c).nWords - n } ∧
      ∀ p, p ≠ other → p ≠ c → k p = h.cells p := by
  unfold stealFromCell
  rw [if_pos hbig, halloc]
  refine ⟨_, rfl, ?_, ?_, fun p hpo hpc => ?_⟩
  · simp [hoc, hoc.symm]
  · simp [hoc.symm]
  · simp [hpo, hpc]

/-- An unused cell is long enough for memory of a length. -/
def HasRoom (cells : ItemPtr → Cell) (cs : List ItemPtr) (length : Nat) : Prop :=
  ∃ c ∈ cs, (cells c).allocated = 0 ∧ secSizeToWords length + 2 ≤ (cells c).nWords

/-- `sec_alloc` fails and changes nothing, or a cell comes into use, filled with zeros. It fails only
where no unused cell is long enough, or where there is no item. -/
theorem secAlloc_spec (sys : System) (hb : BlockOk h.cells b cs)
    (hpools : PoolsOk h.pools) (hcs : ∀ p ∈ cs, InUse h.pools p) (hlen : length ≠ 0) :
    (∃ calls, secAlloc sys h b length = .ok (none, b, { h with calls }) ∧
      (Available sys h → ¬ HasRoom h.cells cs length ∧ calls = h.calls)) ∨
    ∃ memory b' h' cs' t, secAlloc sys h b length = .ok (some memory, b', h') ∧
      Change h b cs h' b' cs' (fun _ => False) (fun p => p = t) ∧
      Given h'.cells cs' t memory length ∧ (t ∈ cs → (h.cells t).allocated = 0) ∧
      (∀ i < length, b'.mem (8 * memory + i) = .byte 0) ∧ HasRoom h.cells cs length := by
  have hsize := le_secSizeToWords length
  obtain ⟨rs, hring, hrs⟩ := hb.ring
  unfold secAlloc
  rw [cAssert_of_true hlen, ok_bind]
  cases hunused : b.unused with
  | none =>
    refine .inl ⟨h.calls, rfl, fun _ => ⟨?_, rfl⟩⟩
    rintro ⟨c, hc, hfree, -⟩
    obtain ⟨⟨next, hnext, -⟩, -⟩ := (hunused ▸ hring).links ((hrs c).2 ⟨hc, hfree⟩)
    cases rs with
    | nil => exact absurd ((hrs c).2 ⟨hc, hfree⟩) not_mem_nil
    | cons x rs => cases hunused.symm.trans hring.head.symm
  | some unused =>
    dsimp only
    have hfuel : rs.length ≤ b.nWords + 1 :=
      (hb.ring_length hring.nodup fun p hp => ((hrs p).1 hp).1).trans (Nat.le_succ _)
    rcases findUnused_spec (hunused ▸ hring) (secSizeToWords length + 2) hfuel with
      ⟨hfind, hshort⟩ | ⟨c, hc, hfind, hlong⟩
    · rw [hfind]
      refine .inl ⟨h.calls, rfl, fun _ => ⟨?_, rfl⟩⟩
      rintro ⟨c, hc, hfree, hlong⟩
      exact absurd hlong (not_le.2 (hshort c ((hrs c).2 ⟨hc, hfree⟩)))
    · obtain ⟨hcin, hfree⟩ := (hrs c).1 hc
      obtain ⟨⟨next, -, hnext, -⟩, prev, -, hprev, -⟩ := hring.links hc
      have hg := hb.tiles.guarded hcin
      have hroom : HasRoom h.cells cs length := ⟨c, hcin, hfree, hlong⟩
      rw [hfind, ok_bind]
      dsimp only
      rw [cAssert_of_true hfree, ok_bind, cAssert_of_true (by rw [hprev]; exact Option.some_ne_none _),
        ok_bind, hg.check, ok_bind]
      obtain ⟨xs, ys, rfl⟩ := append_of_mem hcin
      by_cases hbig : (h.cells c).nWords > secSizeToWords length + 2 + 4
      · rcases poolAlloc_spec sys hpools with ⟨calls, halloc, hnot⟩ |
          ⟨other, pools, calls, halloc, hpools', hfresh, huse, -⟩
        · left
          unfold stealFromCell
          rw [if_pos hbig, halloc]
          exact ⟨calls, rfl, fun havail => absurd havail hnot⟩
        · right
          have hoc : other ≠ c := fun heq => hfresh (heq ▸ hcs c hcin)
          obtain ⟨k, hsteal, hother, hrest, hsides⟩ := steal_eq (b := b) hbig halloc hoc
          have hloose : removeIfLinked k b.unused other = .ok (k, b.unused) :=
            if_neg (by rw [hother]; simp [zeroCell])
          rw [hsteal, ok_bind]
          dsimp only
          rw [hloose]
          simp only [pure_eq_ok, ok_bind, update_self]
          obtain ⟨hg, hgrest, hout, hclean⟩ := split_memory (c := c) (w := (h.cells c).words)
            (n := secSizeToWords length + 2) (N := (h.cells c).nWords) b.mem other k
            (by rw [hother]) (by rw [hother]) (by rw [hrest]) (by rw [hrest]) (by omega) (by omega)
            (by omega : length ≤ _)
          refine ⟨_, _, _, xs ++ other :: c :: ys, other, rfl, ?_, ⟨by simp, by simp, by simp⟩, ?_, ?_,
            hroom⟩
          · refine split_change (n := secSizeToWords length + 2) hb hpools' hcs hfresh huse rfl rfl
              hfree hlen (by omega) (by omega) ?_ ?_ ?_ rfl rfl rfl rfl rfl ?_ ?_ ?_ ?_
            · simp [hother, zeroCell]
            · simp [hoc.symm, hrest]
            · intro p hpo hpc
              simp [hpo, hsides p hpo hpc]
            · rw [hother]
              exact hg.of_bounds (by simp [hother]) (by simp [hother])
            · rw [hother]
              exact hgrest.of_bounds (by simp [hoc.symm]) (by simp [hoc.symm])
            · intro a ha
              rw [hother]
              exact hout a (by unfold Cell.Within at ha; omega)
            · rw [hother]
              exact hclean
          · intro hmem
            exact absurd (hcs other hmem) hfresh
          · intro i hi
            exact if_pos ⟨by omega, by omega⟩
      · right
        unfold stealFromCell
        rw [if_neg hbig]
        obtain ⟨cells₁, ring', hremove, hsame, hnext₁, hprev₁, hring', hothers⟩ :=
          secRemoveCellRing_spec hring hc
        have hlinked : removeIfLinked h.cells b.unused c = .ok (cells₁, ring') :=
          (if_pos (by rw [hnext]; exact Option.some_ne_none _)).trans hremove
        simp only [pure_eq_ok, ok_bind]
        rw [hlinked]
        simp only [ok_bind, update_self]
        refine ⟨_, _, _, xs ++ c :: ys, c, rfl, ?_, ⟨hcin, ?_, ?_⟩, fun _ => hfree, ?_, hroom⟩
        · exact take_change hb hpools hcs hfree hlen (by omega) hrs hsame hnext₁ hprev₁ hring' hothers
        · simp
        · simp
        · intro i hi
          exact if_pos ⟨by omega, by omega⟩

/-! ## `sec_free` -/

/-- The cell of memory that was given out is found and passes its checks. -/
theorem cellOfMemory_eq {t : ItemPtr} {memory length : Nat}
    (ht : Tiles h.cells b.mem 0 cs b.nWords) (hpools : PoolsOk h.pools) (huse : InUse h.pools t)
    (hg : Given h.cells cs t memory length) : cellOfMemory h b memory = .ok t := by
  have hguard := ht.guarded hg.mem
  have hlong := hguard.long
  have hbounds := ht.bounds hg.mem
  have hword : memory - 1 = (h.cells t).words := by have := hg.words; omega
  have hnz : memory ≠ 0 := by have := hg.words; omega
  have hvalid : secIsValidWord b (memory - 1) = true := by
    simp only [secIsValidWord, decide_eq_true_eq]
    omega
  unfold cellOfMemory
  rw [cAssert_of_true hnz, ok_bind, cAssert_of_true hvalid, ok_bind, hword,
    readWord_eq_some.2 hguard.first]
  dsimp only
  rw [cAssert_of_true (poolValid_of_inUse hpools huse), ok_bind, hguard.check]
  rfl

theorem assertInUse_eq {k : Cell} (hlinks : k.next = none ∧ k.prev = none) (hlive : k.allocated ≠ 0) :
    assertInUse k = .ok () := by
  unfold assertInUse
  rw [cAssert_of_true hlinks.1, cAssert_of_true hlinks.2, cAssert_of_true hlive]
  rfl

/-- In the middle of `sec_free`: the cell `c` is between the cells of `xs` and those of `ys`, its bytes
are cleared, and it is in the ring if it was joined to an unused one. The block was `b₀`, and `c₀` is
the cell that is freed. -/
structure Freeing (h₀ : Heap) (b₀ : Block) (cs₀ : List ItemPtr) (c₀ : ItemPtr) (h : Heap) (b : Block)
    (xs : List ItemPtr) (c : ItemPtr) (ys : List ItemPtr) : Prop where
  frame : PoolFrame h₀ cs₀ h (xs ++ c :: ys)
  item : b.item = b₀.item
  words : b.words = b₀.words
  nWords : b.nWords = b₀.nWords
  tiles : Tiles h.cells b.mem 0 (xs ++ c :: ys) b.nWords
  nodup : (xs ++ c :: ys).Nodup
  kept : ∀ p ∈ xs ++ ys, Kept b.mem (h.cells p)
  blank : ∀ a, (h.cells c).Within a → Clean (b.mem a)
  ring : ∃ rs, IsRing h.cells b.unused rs ∧
    ∀ p, p ∈ rs ↔ p ∈ xs ++ c :: ys ∧ (h.cells p).allocated = 0
  loose : ∀ p ∈ xs ++ c :: ys, (h.cells p).allocated ≠ 0 →
    (h.cells p).next = none ∧ (h.cells p).prev = none
  used : b.used = (sizes h.cells (xs ++ ys)).countP (· ≠ 0) + 1
  apart : Apart (sizes h.cells xs) ∧ Apart (sizes h.cells ys)
  side : ∀ p ∈ cs₀, (h₀.cells p).allocated ≠ 0 → p ≠ c₀ →
    p ∈ xs ++ ys ∧ Untouched h₀.cells b₀.mem h.cells b.mem p
  only : ∀ p ∈ xs ++ ys, (h.cells p).allocated ≠ 0 → p ∈ cs₀ ∧ (h₀.cells p).allocated ≠ 0 ∧ p ≠ c₀

variable {h₀ h : Heap} {b₀ b : Block} {cs₀ xs ys : List ItemPtr} {c₀ : ItemPtr}

/-- The cells on both sides are not the one in the middle. -/
theorem Freeing.ne (hf : Freeing h₀ b₀ cs₀ c₀ h b xs c ys) : ∀ p ∈ xs ++ ys, p ≠ c :=
  fun _ hp heq => (nodup_cons.1 (perm_middle.nodup_iff.1 hf.nodup)).1 (heq ▸ hp)

/-- The memory of the cell is cleared. -/
theorem freeing_start (hb : BlockOk h.cells b (xs ++ c :: ys)) (hpools : PoolsOk h.pools)
    (hcs : ∀ p ∈ xs ++ c :: ys, InUse h.pools p) (hlive : (h.cells c).allocated ≠ 0) :
    Freeing h b (xs ++ c :: ys) c h
      { b with
        mem := memset b.mem (8 * ((h.cells c).words + 1))
          (8 * ((h.cells c).words + 1) + (h.cells c).allocated) } xs c ys := by
  have hperm := nodup_cons.1 (perm_middle.nodup_iff.1 hb.nodup)
  have hcin : c ∈ xs ++ c :: ys := by simp
  have hmem := @mem_middle xs ys c
  have hfits := (hb.kept c hcin).fits
  have hlong := (hb.tiles.guarded hcin).long
  obtain ⟨htiles, hun⟩ := Tiles.splice [c] hb.tiles (fun p _ => SameCell.refl _)
    (fun p q ht _ _ => tiles_memset (8 * ((h.cells c).words + 1))
      (8 * ((h.cells c).words + 1) + (h.cells c).allocated) ht (by omega) (by omega))
  have hused := hb.used
  have hapart := hb.apart
  rw [sizes_append, sizes_cons] at hused hapart
  refine ⟨PoolFrame.of_cells hpools hcs rfl rfl rfl fun _ _ => rfl, rfl, rfl, rfl, htiles, hb.nodup,
    fun p hp => (hb.kept p ((hmem p).2 (.inl hp))).congr (hun p hp), fun a ha => ?_, hb.ring,
    hb.loose, ?_, ⟨(apart_middle.1 hapart).1, (apart_middle.1 hapart).2.1⟩, fun p hp _ hne => ?_,
    fun p hp hlive => ?_⟩
  · exact clean_memset fun hout => (hb.kept c hcin).clean a ha hout
  · change b.used = _
    rw [hused, sizes_append, countP_append, countP_append, countP_cons_of_pos (by simpa)]
    omega
  · have hp := ((hmem p).1 hp).resolve_right hne
    exact ⟨hp, hun p hp⟩
  · exact ⟨(hmem p).2 (.inl hp), hlive, fun heq => hperm.1 (heq ▸ hp)⟩

/-- Two neighbors, the cell that is freed and an unused one, become one cell, with the record of the
unused one. -/
theorem Freeing.merge {zs ws : List ItemPtr} {d e o : ItemPtr} {cells₁ : ItemPtr → Cell}
    {unused : Option ItemPtr} {cells₂ : ItemPtr → Cell} (hf : Freeing h₀ b₀ cs₀ c₀ h b xs c ys)
    (hlist : xs ++ c :: ys = zs ++ d :: e :: ws) (hsides : ∀ p, p ∈ xs ++ ys ↔ p ∈ zs ++ ws ∨ p = o)
    (hpair : d = o ∧ e = c ∨ d = c ∧ e = o) (hapart : Apart (sizes h.cells zs) ∧ Apart (sizes h.cells ws))
    (hfree : (h.cells o).allocated = 0) (hsame : ∀ p, p ≠ o → SameCell (h.cells p) (cells₁ p))
    (hwords : (cells₁ o).words = (h.cells d).words)
    (hnWords : (cells₁ o).nWords = (h.cells d).nWords + (h.cells e).nWords)
    (hallocated : (cells₁ o).allocated = 0) (hring : ∃ rs, IsRing cells₁ unused rs ∧
      ∀ p, p ∈ rs ↔ (p ∈ xs ++ c :: ys ∧ (h.cells p).allocated = 0) ∧ p ≠ c)
    (hothers : ∀ p, p ∉ xs ++ c :: ys ∨ p ∈ xs ++ ys ∧ (h.cells p).allocated ≠ 0 →
      cells₁ p = h.cells p) (hpools : PoolsOk pools) (huse : ∀ q, InUse pools q ↔ InUse h.pools q ∧ q ≠ c)
    (hcells : ∀ q, q ≠ c → cells₂ q = cells₁ q) :
    Freeing h₀ b₀ cs₀ c₀ { h with pools, cells := cells₂ }
      { b with mem := secWriteGuards b.mem cells₁ o, unused } zs o ws := by
  have hne := hf.ne
  have hoside : o ∈ xs ++ ys := (hsides o).2 (.inr rfl)
  have hoc : o ≠ c := hne o hoside
  have hmem := @mem_middle xs ys c
  have hmem' : ∀ p, p ∈ zs ++ o :: ws ↔ p ∈ xs ++ ys := by
    intro p
    rw [perm_middle.mem_iff, mem_cons, hsides p, or_comm]
  have htiles := hf.tiles
  have hnodup := hf.nodup
  rw [hlist] at htiles hnodup
  -- the other cells are neither of the two
  have hpairne : ∀ p ∈ zs ++ ws, p ≠ o := by
    intro p hp
    rcases hpair with ⟨rfl, -⟩ | ⟨-, rfl⟩
    · exact ((nodup_pair.1 hnodup).2.1 p hp).1
    · exact ((nodup_pair.1 hnodup).2.1 p hp).2
  have hzs : ∀ p ∈ zs ++ ws, p ∈ xs ++ ys := fun p hp => (hsides p).2 (.inl hp)
  have hsame₂ : ∀ p ∈ zs ++ ws, SameCell (h.cells p) (cells₂ p) := by
    intro p hp
    rw [hcells p (hne p (hzs p hp))]
    exact hsame p (hpairne p hp)
  have hlive₂ : ∀ p ∈ zs ++ ws, (h.cells p).allocated ≠ 0 → cells₂ p = h.cells p := by
    intro p hp hlive
    rw [hcells p (hne p (hzs p hp))]
    exact hothers p (.inr ⟨hzs p hp, hlive⟩)
  have hd : d ∈ xs ++ c :: ys := by rw [hlist]; simp
  have he : e ∈ xs ++ c :: ys := by rw [hlist]; simp
  have hlong := (htiles.guarded (c := d) (by simp)).long
  -- both cells hold only zeros and pointers
  have hclean : ∀ p, p = d ∨ p = e → ∀ a, (h.cells p).Within a → Clean (b.mem a) := by
    intro p hp a ha
    have hpoc : p = o ∨ p = c := by
      rcases hpair with ⟨rfl, rfl⟩ | ⟨rfl, rfl⟩
      · exact hp
      · exact hp.symm
    rcases hpoc with rfl | rfl
    · refine (hf.kept p hoside).clean a ha ?_
      rw [hfree]
      omega
    · exact hf.blank a ha
  have hmid : ∀ p q, Tiles h.cells b.mem p [d, e] q → 0 ≤ p → q ≤ b.nWords →
      Tiles cells₂ (secWriteGuards b.mem cells₁ o) p [o] q ∧
        ∀ a, a < 8 * p ∨ 8 * q ≤ a → secWriteGuards b.mem cells₁ o a = b.mem a := by
    rintro p q ⟨hdw, hgd, hew, hge, hend⟩ _ _
    have hend : p + (h.cells d).nWords + (h.cells e).nWords = q := hend
    have := hge.long
    refine ⟨⟨?_, ?_, ?_⟩, fun a ha => secWriteGuards_of_outside (by omega) (by omega)⟩
    · rw [hcells o hoc, hwords, hdw]
    · rw [hcells o hoc]
      exact guarded_secWriteGuards b.mem (by omega)
    · change p + (cells₂ o).nWords = q
      rw [hcells o hoc, hnWords]
      omega
  obtain ⟨htiles', hun⟩ := Tiles.splice [d, e] htiles hsame₂ hmid
  refine ⟨?_, hf.item, hf.words, hf.nWords, htiles', ?_, fun p hp => ?_, fun a ha => ?_, ?_, ?_, ?_, ?_,
    fun p hp hlive hne₀ => ?_, fun p hp hlive => ?_⟩
  · refine hf.frame.trans (PoolFrame.of_poolFree hpools
      (fun p hp => (hf.frame.inUse p).2 (.inr hp)) huse (by simp) (fun q => ?_) (fun q hq => ?_) rfl rfl)
    · rw [hmem' q, hmem q]
      exact ⟨fun hq => ⟨.inl hq, hne q hq⟩, fun hq => hq.1.resolve_right hq.2⟩
    · have hqc : q ≠ c := fun heq => hq ((hmem q).2 (.inr heq))
      change cells₂ q = h.cells q
      rw [hcells q hqc]
      exact hothers q (.inl hq)
  · have hsub : (zs ++ o :: ws).Sublist (zs ++ d :: e :: ws) := by
      rcases hpair with ⟨rfl, -⟩ | ⟨-, rfl⟩
      · exact ((sublist_cons_self e ws).cons_cons d).append_left zs
      · exact (sublist_cons_self d _).append_left zs
    exact hnodup.sublist hsub
  · exact (hf.kept p (hzs p hp)).congr (hun p hp)
  · change (cells₂ o).Within a at ha
    rw [hcells o hoc] at ha
    obtain ⟨hlo, hhi⟩ := ha
    refine clean_secWriteGuards ?_
    obtain ⟨m, -, hdw, -, hew, -, -⟩ := tiles_append.1 htiles
    by_cases hlt : a < 8 * ((h.cells d).words + (h.cells d).nWords)
    · exact hclean d (.inl rfl) a ⟨by omega, hlt⟩
    · exact hclean e (.inr rfl) a ⟨by omega, by omega⟩
  · obtain ⟨rs, hisring, hrs⟩ := hring
    refine ⟨rs, hisring.congr fun p hp => ?_, fun p => ?_⟩
    · change (cells₂ p).next = _ ∧ (cells₂ p).prev = _
      rw [hcells p ((hrs p).1 hp).2]
      exact ⟨rfl, rfl⟩
    · change p ∈ rs ↔ p ∈ zs ++ o :: ws ∧ (cells₂ p).allocated = 0
      rw [hrs p, hmem' p, hmem p]
      have hiff : p ∈ xs ++ ys → ((cells₂ p).allocated = 0 ↔ (h.cells p).allocated = 0) := by
        intro hp
        rw [hcells p (hne p hp)]
        by_cases hpo : p = o
        · subst hpo
          rw [hallocated, hfree]
        · rw [(hsame p hpo).allocated]
      have hpc := hne p
      tauto
  · intro p hp hlive
    change (cells₂ p).allocated ≠ 0 at hlive
    change (cells₂ p).next = none ∧ (cells₂ p).prev = none
    have hpside := (hmem' p).1 hp
    rcases (hsides p).1 hpside with hp' | rfl
    · have hlive' : (h.cells p).allocated ≠ 0 := (hsame₂ p hp').allocated ▸ hlive
      rw [hlive₂ p hp' hlive']
      exact hf.loose p ((hmem p).2 (.inl hpside)) hlive'
    · rw [hcells p hoc, hallocated] at hlive
      exact absurd rfl hlive
  · have hsizes : sizes cells₂ (zs ++ ws) = sizes h.cells (zs ++ ws) :=
      sizes_congr fun p hp => (hsame₂ p hp).allocated
    have hperm : (xs ++ ys).Perm (o :: (zs ++ ws)) := by
      have hcons : (c :: (xs ++ ys)).Perm (c :: o :: (zs ++ ws)) := by
        refine perm_middle.symm.trans ?_
        rw [hlist]
        rcases hpair with ⟨rfl, rfl⟩ | ⟨rfl, rfl⟩
        · exact (perm_middle.trans (perm_middle.cons d)).trans (List.Perm.swap ..)
        · exact perm_middle.trans (perm_middle.cons d)
      exact hcons.cons_inv
    change b.used = (sizes cells₂ (zs ++ ws)).countP _ + 1
    rw [hf.used, hsizes, countP_sizes_perm hperm, sizes_cons, countP_cons_of_neg (by simp [hfree])]
  · change Apart (sizes cells₂ zs) ∧ Apart (sizes cells₂ ws)
    rw [sizes_congr fun p hp => (hsame₂ p (mem_append_left _ hp)).allocated,
      sizes_congr fun p hp => (hsame₂ p (mem_append_right _ hp)).allocated]
    exact hapart
  · obtain ⟨hp', hun'⟩ := hf.side p hp hlive hne₀
    have hlive' : (h.cells p).allocated ≠ 0 := hun'.same.allocated ▸ hlive
    rcases (hsides p).1 hp' with hp'' | rfl
    · exact ⟨hp'', hun'.trans (hun p hp'')⟩
    · exact absurd hfree hlive'
  · have hlive' : (h.cells p).allocated ≠ 0 := (hsame₂ p hp).allocated ▸ hlive
    exact hf.only p (hzs p hp) hlive'

section

variable (hf : Freeing h₀ b₀ cs₀ c₀ h b xs c ys)

include hf

/-- The links of a cell that is not in use. -/
theorem Freeing.linked {p : ItemPtr} (hp : p ∈ xs ++ c :: ys) (hfree : (h.cells p).allocated = 0) :
    (h.cells p).next ≠ none ∧ (h.cells p).prev ≠ none := by
  obtain ⟨rs, hring, hrs⟩ := hf.ring
  obtain ⟨⟨next, -, hnext, -⟩, prev, -, hprev, -⟩ := hring.links ((hrs p).2 ⟨hp, hfree⟩)
  rw [hnext, hprev]
  exact ⟨Option.some_ne_none _, Option.some_ne_none _⟩

theorem Freeing.inUse : InUse h.pools c := (hf.frame.inUse c).2 (.inr (by simp))

theorem mergeBefore_spec (hlive : (h.cells c).allocated ≠ 0) :
    ∃ c' h' b' xs', mergeBefore h b c = .ok (c', b', h') ∧ Freeing h₀ b₀ cs₀ c₀ h' b' xs' c' ys ∧
      ∀ x ∈ (sizes h'.cells xs').getLast?, x ≠ 0 := by
  unfold mergeBefore
  rcases eq_nil_or_concat xs with rfl | ⟨zs, o, rfl⟩
  · rw [neighborBefore_none hf.tiles]
    exact ⟨c, h, b, [], rfl, hf, by simp [sizes]⟩
  · rw [concat_eq_append] at hf
    have hlist : zs ++ [o] ++ c :: ys = zs ++ o :: c :: ys := append_assoc ..
    have hoc : o ≠ c := hf.ne o (by simp)
    rw [neighborBefore_some (hlist ▸ hf.tiles), ok_bind]
    dsimp only
    by_cases hfree : (h.cells o).allocated = 0
    · rw [if_pos hfree, cAssert_of_true (hf.linked (by simp) hfree), ok_bind]
      generalize hk : update h.cells o
        { h.cells o with nWords := (h.cells o).nWords + (h.cells c).nWords } = k
      have hko : k o = { h.cells o with nWords := (h.cells o).nWords + (h.cells c).nWords } := by
        rw [← hk, update_self]
      have hkp : ∀ p, p ≠ o → k p = h.cells p := by
        intro p hp
        rw [← hk, update_of_ne hp]
      obtain ⟨pools, cells₂, hpool, hpools, huse, hcells⟩ :=
        poolFree_spec (h := { h with cells := k }) hf.frame.pools hf.inUse
      rw [hpool]
      have hnodup := hf.nodup
      rw [hlist] at hnodup
      have hzo : ∀ p ∈ zs, p ≠ o := fun p hp heq =>
        (nodup_append.1 hnodup).2.2 p hp o (by simp) heq
      have hap := hf.apart.1
      rw [sizes_append, sizes_cons, apart_middle] at hap
      refine ⟨o, _, _, zs, rfl, ?_, ?_⟩
      · obtain ⟨rs, hring, hrs⟩ := hf.ring
        refine hf.merge hlist (fun p => ?_) (.inl ⟨rfl, rfl⟩) ⟨hap.1, hf.apart.2⟩ hfree
          (fun p hp => ?_) ?_ ?_ ?_ ⟨rs, hring.congr fun p hp => ?_, fun p => ?_⟩ (fun p hp => ?_)
          hpools huse hcells
        · simp only [mem_append, mem_singleton]
          tauto
        · rw [hkp p hp]
          exact SameCell.refl _
        · rw [hko]
        · rw [hko]
        · rw [hko]
          exact hfree
        · by_cases hpo : p = o
          · subst hpo
            rw [hko]
            exact ⟨rfl, rfl⟩
          · rw [hkp p hpo]
            exact ⟨rfl, rfl⟩
        · rw [hrs p]
          exact ⟨fun hp => ⟨hp, fun heq => hlive (heq ▸ hp.2)⟩, fun hp => hp.1⟩
        · have hpo : p ≠ o := by
            rintro rfl
            rcases hp with hp | hp
            · exact hp (by simp)
            · exact hp.2 hfree
          exact hkp p hpo
      · have hsizes : sizes cells₂ zs = sizes h.cells zs := by
          refine sizes_congr fun p hp => congrArg Cell.allocated ?_
          exact (hcells p (hf.ne p (by simp [hp]))).trans (hkp p (hzo p hp))
        change ∀ x ∈ (sizes cells₂ zs).getLast?, x ≠ 0
        rw [hsizes]
        exact (hap.2.2 hfree).1
    · rw [if_neg hfree]
      refine ⟨c, h, b, zs ++ [o], rfl, hf, fun x hx => ?_⟩
      rw [sizes_append, sizes_cons, show sizes h.cells [] = [] from rfl,
        getLast?_append_cons, getLast?_singleton] at hx
      cases hx
      exact hfree

theorem mergeAfter_spec (hlast : ∀ x ∈ (sizes h.cells xs).getLast?, x ≠ 0) :
    ∃ c' h' b' ys', mergeAfter h b c = .ok (c', b', h') ∧ Freeing h₀ b₀ cs₀ c₀ h' b' xs c' ys' ∧
      (∀ x ∈ (sizes h'.cells xs).getLast?, x ≠ 0) ∧ ∀ x ∈ (sizes h'.cells ys').head?, x ≠ 0 := by
  unfold mergeAfter
  cases ys with
  | nil =>
    rw [neighborAfter_none hf.tiles]
    exact ⟨c, h, b, [], rfl, hf, hlast, by simp [sizes]⟩
  | cons o ws =>
    have hoc : o ≠ c := hf.ne o (by simp)
    have hcin : c ∈ xs ++ c :: o :: ws := by simp
    rw [neighborAfter_some hf.tiles, ok_bind]
    dsimp only
    by_cases hfree : (h.cells o).allocated = 0
    · rw [if_pos hfree, cAssert_of_true (hf.linked (by simp) hfree), ok_bind]
      obtain ⟨rs, hring, hrs⟩ := hf.ring
      generalize hk : update h.cells o
        { h.cells o with nWords := (h.cells o).nWords + (h.cells c).nWords,
                         words := (h.cells c).words } = k
      have hko : k o = { h.cells o with nWords := (h.cells o).nWords + (h.cells c).nWords,
                                        words := (h.cells c).words } := by
        rw [← hk, update_self]
      have hkp : ∀ p, p ≠ o → k p = h.cells p := by
        intro p hp
        rw [← hk, update_of_ne hp]
      have hlinks : ∀ p, (k p).next = (h.cells p).next ∧ (k p).prev = (h.cells p).prev := by
        intro p
        by_cases hpo : p = o
        · subst hpo
          rw [hko]
          exact ⟨rfl, rfl⟩
        · rw [hkp p hpo]
          exact ⟨rfl, rfl⟩
      have hkring : IsRing k b.unused rs := hring.congr fun p _ => hlinks p
      -- the cell leaves the ring if it is there
      obtain ⟨cells₁, unused, hremove, hsame, hring₁, hothers⟩ : ∃ cells₁ unused,
          removeIfLinked k b.unused c = .ok (cells₁, unused) ∧ (∀ p, SameCell (k p) (cells₁ p)) ∧
          (∃ rs', IsRing cells₁ unused rs' ∧ ∀ p, p ∈ rs' ↔ p ∈ rs ∧ p ≠ c) ∧
          ∀ p, p ∉ rs → cells₁ p = k p := by
        by_cases hin : (h.cells c).allocated = 0
        · obtain ⟨cells₁, unused, hremove, hsame, -, -, hring₁, hothers⟩ :=
            secRemoveCellRing_spec hkring ((hrs c).2 ⟨hcin, hin⟩)
          have hnext := (hf.linked hcin hin).1
          exact ⟨cells₁, unused, (if_pos (by rw [(hlinks c).1]; exact hnext)).trans hremove, hsame,
            hring₁, hothers⟩
        · have hnext := (hf.loose c hcin hin).1
          refine ⟨k, b.unused, if_neg (by rw [(hlinks c).1, hnext]; simp), fun _ => SameCell.refl _,
            ⟨rs, hkring, fun p => ⟨fun hp => ⟨hp, ?_⟩, fun hp => hp.1⟩⟩, fun _ _ => rfl⟩
          rintro rfl
          exact hin ((hrs p).1 hp).2
      obtain ⟨pools, cells₂, hpool, hpools, huse, hcells⟩ :=
        poolFree_spec (h := { h with cells := cells₁ }) hf.frame.pools hf.inUse
      rw [hremove, ok_bind]
      dsimp only
      rw [hpool]
      have hxo : ∀ p ∈ xs ++ ws, p ≠ o := fun p hp => ((nodup_pair.1 hf.nodup).2.1 p hp).2
      have hap := hf.apart.2
      rw [sizes_cons, ← nil_append (_ :: _), apart_middle] at hap
      have hsizes : ∀ zs, (∀ p ∈ zs, p ∈ xs ++ ws) → sizes cells₂ zs = sizes h.cells zs := by
        intro zs hzs
        refine sizes_congr fun p hp => ?_
        have hpc : p ≠ c := by
          refine hf.ne p ?_
          have := hzs p hp
          simp only [mem_append, mem_cons] at this ⊢
          tauto
        have hpo := hxo p (hzs p hp)
        rw [hcells p hpc]
        exact (hsame p).allocated.trans (congrArg Cell.allocated (hkp p hpo))
      refine ⟨o, _, _, ws, rfl, ?_, ?_, ?_⟩
      · obtain ⟨rs', hring', hrs'⟩ := hring₁
        refine hf.merge rfl (fun p => ?_) (.inr ⟨rfl, rfl⟩) ⟨hf.apart.1, hap.2.1⟩ hfree
          (fun p hp => hkp p hp ▸ hsame p) ?_ ?_ ?_ ⟨rs', hring', fun p => ?_⟩ (fun p hp => ?_)
          hpools huse hcells
        · simp only [mem_append, mem_cons]
          tauto
        · rw [(hsame o).words, hko]
        · rw [(hsame o).nWords, hko]
          exact Nat.add_comm ..
        · rw [(hsame o).allocated, hko]
          exact hfree
        · rw [hrs' p, hrs p]
        · have hpo : p ≠ o := by
            rintro rfl
            rcases hp with hp | hp
            · exact hp (by simp)
            · exact hp.2 hfree
          have hprs : p ∉ rs := by
            intro hmem
            rcases hp with hp | hp
            · exact hp ((hrs p).1 hmem).1
            · exact hp.2 ((hrs p).1 hmem).2
          rw [hothers p hprs, hkp p hpo]
      · change ∀ x ∈ (sizes cells₂ xs).getLast?, x ≠ 0
        rw [hsizes xs fun p hp => mem_append_left _ hp]
        exact hlast
      · change ∀ x ∈ (sizes cells₂ ws).head?, x ≠ 0
        rw [hsizes ws fun p hp => mem_append_right _ hp]
        exact (hap.2.2 hfree).2
    · rw [if_neg hfree]
      refine ⟨c, h, b, o :: ws, rfl, hf, hlast, fun x hx => ?_⟩
      rw [sizes_cons, head?_cons] at hx
      cases hx
      exact hfree

/-- The cell is in the ring at last, and no longer in use. -/
theorem Freeing.finish (hlast : ∀ x ∈ (sizes h.cells xs).getLast?, x ≠ 0)
    (hhead : ∀ x ∈ (sizes h.cells ys).head?, x ≠ 0) :
    ∃ cells unused, insertIfLoose h.cells b.unused c = .ok (cells, unused) ∧
      Change h₀ b₀ cs₀ { h with cells := update cells c { cells c with allocated := 0 } }
        { b with unused := unused, used := b.used - 1 } (xs ++ c :: ys) (fun p => p = c₀)
        (fun _ => False) := by
  have hcin : c ∈ xs ++ c :: ys := by simp
  have hmem := @mem_middle xs ys c
  obtain ⟨rs, hring, hrs⟩ := hf.ring
  obtain ⟨cells, unused, hinsert, hsame, ⟨rs', hring', hrs'⟩, hothers⟩ : ∃ cells unused,
      insertIfLoose h.cells b.unused c = .ok (cells, unused) ∧
      (∀ p, SameCell (h.cells p) (cells p)) ∧
      (∃ rs', IsRing cells unused rs' ∧ ∀ p, p ∈ rs' ↔ p ∈ rs ∨ p = c) ∧
      ∀ p, p ∉ rs → p ≠ c → cells p = h.cells p := by
    by_cases hin : (h.cells c).allocated = 0
    · refine ⟨h.cells, b.unused, if_neg (hf.linked hcin hin).1, fun _ => SameCell.refl _,
        ⟨rs, hring, fun p => ⟨.inl, ?_⟩⟩, fun _ _ _ => rfl⟩
      rintro (hp | rfl)
      · exact hp
      · exact (hrs p).2 ⟨hcin, hin⟩
    · obtain ⟨hnext, hprev⟩ := hf.loose c hcin hin
      obtain ⟨cells, hins, hsame, hring', hothers⟩ :=
        secInsertCellRing_spec hring (fun hc => hin ((hrs c).1 hc).2) hnext hprev
      exact ⟨cells, some c, (if_pos hnext).trans hins, hsame, hring', hothers⟩
  refine ⟨cells, unused, hinsert, ?_⟩
  generalize hk : update cells c { cells c with allocated := 0 } = k
  have hkc : k c = { cells c with allocated := 0 } := by rw [← hk, update_self]
  have hkp : ∀ p, p ≠ c → k p = cells p := by
    intro p hp
    rw [← hk, update_of_ne hp]
  have hbounds : ∀ p, (k p).words = (h.cells p).words ∧ (k p).nWords = (h.cells p).nWords := by
    intro p
    by_cases hpc : p = c
    · subst hpc
      rw [hkc]
      exact ⟨(hsame p).words, (hsame p).nWords⟩
    · rw [hkp p hpc]
      exact ⟨(hsame p).words, (hsame p).nWords⟩
  have hsame' : ∀ p ∈ xs ++ ys, SameCell (h.cells p) (k p) := by
    intro p hp
    rw [hkp p (hf.ne p hp)]
    exact hsame p
  have hun : ∀ p ∈ xs ++ ys, Untouched h.cells b.mem k b.mem p :=
    fun p hp => ⟨hsame' p hp, fun _ _ => rfl⟩
  obtain ⟨htiles, -⟩ := Tiles.splice [c] hf.tiles hsame' fun p q ht _ _ =>
    tiles_single ht (hbounds c).1 (hbounds c).2 fun a _ => (rfl : b.mem a = b.mem a)
  have hsizes : ∀ zs, (∀ p ∈ zs, p ∈ xs ++ ys) → sizes k zs = sizes h.cells zs :=
    fun zs hzs => sizes_congr fun p hp => (hsame' p (hzs p hp)).allocated
  have hxs := hsizes xs fun p hp => mem_append_left _ hp
  have hys := hsizes ys fun p hp => mem_append_right _ hp
  refine ⟨hf.frame.trans ?_, ⟨htiles, hf.nodup, fun p hp => ?_, ⟨rs', hring'.congr fun p hp => ?_,
    fun p => ?_⟩, fun p hp hlive => ?_, ?_, ?_⟩, hf.item, hf.words, hf.nWords,
    fun p hp hlive hne => ?_, fun p hp hlive => ?_⟩
  · refine PoolFrame.of_cells hf.frame.pools (fun p hp => (hf.frame.inUse p).2 (.inr hp)) rfl rfl rfl
      fun q hq => ?_
    have hqc : q ≠ c := fun heq => hq (heq ▸ hcin)
    exact (hkp q hqc).trans (hothers q (fun hmem => hq ((hrs q).1 hmem).1) hqc)
  · rcases (hmem p).1 hp with hp | rfl
    · exact (hf.kept p hp).congr (hun p hp)
    · change Kept b.mem (k p)
      rw [hkc]
      refine ⟨Nat.zero_le _, fun a ha _ => hf.blank a ?_⟩
      simpa only [Cell.Within, (hsame p).words, (hsame p).nWords] using ha
  · change (k p).next = _ ∧ (k p).prev = _
    by_cases hpc : p = c
    · subst hpc
      rw [hkc]
      exact ⟨rfl, rfl⟩
    · rw [hkp p hpc]
      exact ⟨rfl, rfl⟩
  · change p ∈ rs' ↔ p ∈ xs ++ c :: ys ∧ (k p).allocated = 0
    rw [hrs' p, hrs p]
    by_cases hpc : p = c
    · subst hpc
      rw [hkc]
      simp
    · rw [hkp p hpc, (hsame p).allocated]
      tauto
  · change (k p).allocated ≠ 0 at hlive
    change (k p).next = none ∧ (k p).prev = none
    have hpc : p ≠ c := by
      rintro rfl
      rw [hkc] at hlive
      exact hlive rfl
    rw [hkp p hpc] at hlive ⊢
    rw [(hsame p).allocated] at hlive
    rw [hothers p (fun hmem => hlive ((hrs p).1 hmem).2) hpc]
    exact hf.loose p hp hlive
  · change b.used - 1 = (sizes k (xs ++ c :: ys)).countP _
    rw [hf.used, sizes_append, sizes_append, sizes_cons, hxs, hys, hkc, countP_append,
      countP_append, countP_cons_of_neg (by simp)]
    omega
  · change Apart (sizes k (xs ++ c :: ys))
    rw [sizes_append, sizes_cons, hxs, hys, apart_middle]
    exact ⟨hf.apart.1, hf.apart.2, fun _ => ⟨hlast, hhead⟩⟩
  · obtain ⟨hp', hun'⟩ := hf.side p hp hlive hne
    exact ⟨(hmem p).2 (.inl hp'), hun'.trans (hun p hp')⟩
  · change (k p).allocated ≠ 0 at hlive
    have hpc : p ≠ c := by
      rintro rfl
      rw [hkc] at hlive
      exact hlive rfl
    rw [hkp p hpc, (hsame p).allocated] at hlive
    exact .inr (hf.only p (((hmem p).1 hp).resolve_right hpc) hlive)

end

/-- `sec_free` of memory that was given out. -/
theorem secFree_spec {t : ItemPtr} {memory length : Nat} (hb : BlockOk h.cells b cs)
    (hpools : PoolsOk h.pools) (hcs : ∀ p ∈ cs, InUse h.pools p) (hg : Given h.cells cs t memory length)
    (hlen : length ≠ 0) :
    ∃ b' h' cs', secFree h b memory = .ok (b', h') ∧
      Change h b cs h' b' cs' (fun p => p = t) (fun _ => False) := by
  have hlive : (h.cells t).allocated ≠ 0 := hg.allocated ▸ hlen
  have hlinks := hb.loose t hg.mem hlive
  obtain ⟨xs, ys, rfl⟩ := append_of_mem hg.mem
  have hstart := freeing_start hb hpools hcs hlive
  unfold secFree
  rw [cellOfMemory_eq hb.tiles hpools (hcs t hg.mem) hg, ok_bind, ← hg.words]
  dsimp only
  rw [(hstart.tiles.guarded hg.mem).check, ok_bind, assertInUse_eq hlinks hlive, ok_bind]
  obtain ⟨c₁, h₁, b₁, xs₁, hbefore, hf₁, hlast₁⟩ := mergeBefore_spec hstart hlive
  rw [hbefore, ok_bind]
  obtain ⟨c₂, h₂, b₂, ys₂, hafter, hf₂, hlast₂, hhead₂⟩ := mergeAfter_spec hf₁ hlast₁
  rw [hafter, ok_bind]
  obtain ⟨cells, unused, hinsert, hchange⟩ := hf₂.finish hlast₂ hhead₂
  rw [hinsert]
  exact ⟨_, _, _, rfl, hchange⟩

/-! ## `sec_realloc` -/

/-- The cell `t` may have more words than before; what it holds stays. -/
structure Grown (h : Heap) (b : Block) (cs : List ItemPtr) (h' : Heap) (b' : Block)
    (cs' : List ItemPtr) (t : ItemPtr) : Prop where
  change : Change h b cs h' b' cs' (fun p => p = t) (fun p => p = t)
  mem : t ∈ cs'
  words : (h'.cells t).words = (h.cells t).words
  allocated : (h'.cells t).allocated = (h.cells t).allocated
  payload : ∀ a, 8 * ((h.cells t).words + 1) ≤ a →
    a < 8 * ((h.cells t).words + 1) + (h.cells t).allocated → b'.mem a = b.mem a

theorem Grown.refl {t : ItemPtr} (hb : BlockOk h.cells b cs) (hpools : PoolsOk h.pools)
    (hcs : ∀ p ∈ cs, InUse h.pools p) (ht : t ∈ cs) :
    Grown h b cs h b cs t := by
  refine ⟨⟨PoolFrame.of_cells hpools hcs rfl rfl rfl fun _ _ => rfl, hb, rfl, rfl, rfl,
    fun p hp _ _ => ⟨hp, SameCell.refl _, fun _ _ => rfl⟩, fun p hp hlive => ?_⟩, ht, rfl, rfl,
    fun _ _ _ => rfl⟩
  by_cases hpt : p = t
  · exact .inl hpt
  · exact .inr ⟨hp, hlive, hpt⟩

theorem Grown.trans {h' h'' : Heap} {b' b'' : Block} {cs cs' cs'' : List ItemPtr} {t : ItemPtr}
    (h₁ : Grown h b cs h' b' cs' t) (h₂ : Grown h' b' cs' h'' b'' cs'' t) :
    Grown h b cs h'' b'' cs'' t := by
  refine ⟨(h₁.change.trans h₂.change).weaken (fun p _ _ => or_self_iff) ?_, h₂.mem,
    h₂.words.trans h₁.words, h₂.allocated.trans h₁.allocated, fun a ha ha' => ?_⟩
  · rintro p (hp | ⟨hp, -⟩)
    · exact hp
    · exact hp
  · rw [h₂.payload a (h₁.words.symm ▸ ha) (by rw [h₁.words, h₁.allocated]; exact ha'),
      h₁.payload a ha ha']

variable {t o : ItemPtr}

/-- The cell takes the words of the unused one behind it. -/
theorem eat_grown {rs : List ItemPtr} {k cells₁ cells₂ : ItemPtr → Cell} {unused : Option ItemPtr}
    (hb : BlockOk h.cells b (xs ++ t :: o :: ys)) (hcs : ∀ p ∈ xs ++ t :: o :: ys, InUse h.pools p)
    (hlive : (h.cells t).allocated ≠ 0) (hfree : (h.cells o).allocated = 0)
    (hrs : ∀ p, p ∈ rs ↔ p ∈ xs ++ t :: o :: ys ∧ (h.cells p).allocated = 0)
    (hkt : k t = { h.cells t with nWords := (h.cells t).nWords + (h.cells o).nWords })
    (hkp : ∀ p, p ≠ t → k p = h.cells p) (hsame : ∀ p, SameCell (k p) (cells₁ p))
    (hring : ∃ rs', IsRing cells₁ unused rs' ∧ ∀ p, p ∈ rs' ↔ p ∈ rs ∧ p ≠ o)
    (hothers : ∀ p, p ∉ rs → cells₁ p = k p) (hpools : PoolsOk pools)
    (huse : ∀ q, InUse pools q ↔ InUse h.pools q ∧ q ≠ o) (hcells : ∀ q, q ≠ o → cells₂ q = cells₁ q) :
    Grown h b (xs ++ t :: o :: ys) { h with pools, cells := cells₂ }
      { b with mem := secWriteGuards b.mem k t, unused } (xs ++ t :: ys) t := by
  obtain ⟨hto, hne, -⟩ := nodup_pair.1 hb.nodup
  have hpt := fun p hp => (hne p hp).1
  have hpo := fun p hp => (hne p hp).2
  have hmem : ∀ p, p ∈ xs ++ t :: o :: ys ↔ p ∈ xs ++ ys ∨ p = t ∨ p = o := by
    simp only [mem_append, mem_cons]
    tauto
  have htin : t ∈ xs ++ t :: o :: ys := by simp
  have hoin : o ∈ xs ++ t :: o :: ys := by simp
  have htrs : t ∉ rs := fun hmem => hlive ((hrs t).1 hmem).2
  have ht₂ : cells₂ t = k t := (hcells t hto).trans (hothers t htrs)
  have hgt := hb.tiles.guarded htin
  have hgo := hb.tiles.guarded hoin
  have hlongt := hgt.long
  have hlongo := hgo.long
  have hadj : (h.cells o).words = (h.cells t).words + (h.cells t).nWords := by
    obtain ⟨m, -, htw, -, how, -, -⟩ := tiles_append.1 hb.tiles
    omega
  have hkw : (k t).words = (h.cells t).words := by rw [hkt]
  have hkn : (k t).nWords = (h.cells t).nWords + (h.cells o).nWords := by rw [hkt]
  have hfits := (hb.kept t htin).fits
  refine ⟨Change.rebuild xs [t, o] [t] ys hb ?_ rfl rfl rfl ?_ ?_ ?_ ?_ ?_ ?_ ?_ ?_ ?_ ?_ ?_ ?_, by simp,
    ?_, ?_, fun a ha ha' => ?_⟩
  · refine PoolFrame.of_poolFree hpools hcs huse hoin (fun q => ?_) (fun q hq => ?_) rfl rfl
    · rw [singleton_append, perm_middle.mem_iff, mem_cons]
      change _ ↔ q ∈ xs ++ t :: o :: ys ∧ q ≠ o
      rw [hmem q]
      constructor
      · rintro (rfl | hq)
        · exact ⟨.inr (.inl rfl), hto⟩
        · exact ⟨.inl hq, hpo q hq⟩
      · rintro ⟨hq | hq | hq, hne⟩
        · exact .inr hq
        · exact .inl hq
        · exact absurd hq hne
    · have hq : q ∉ xs ++ t :: o :: ys := hq
      have hqo : q ≠ o := fun heq => hq (heq ▸ hoin)
      have hqt : q ≠ t := fun heq => hq (heq ▸ htin)
      exact (hcells q hqo).trans ((hothers q fun hmem => hq ((hrs q).1 hmem).1).trans (hkp q hqt))
  · intro p hp
    change SameCell _ (cells₂ p)
    rw [hcells p (hpo p hp), ← hkp p (hpt p hp)]
    exact hsame p
  · intro p hp hl
    change cells₂ p = _
    rw [hcells p (hpo p hp), hothers p (fun hmem => hl ((hrs p).1 hmem).2), hkp p (hpt p hp)]
  · rintro p q ⟨htw, -, how, -, hend⟩ _ _
    have hend : p + (h.cells t).nWords + (h.cells o).nWords = q := hend
    refine ⟨⟨?_, ?_, ?_⟩, fun a ha => secWriteGuards_of_outside (by omega) (by omega)⟩
    · change (cells₂ t).words = p
      rw [ht₂, hkw, htw]
    · change Guarded _ t (cells₂ t)
      rw [ht₂]
      exact guarded_secWriteGuards b.mem (by omega)
    · change p + (cells₂ t).nWords = q
      rw [ht₂, hkn]
      omega
  · exact hb.nodup.sublist (((sublist_cons_self o ys).cons_cons t).append_left xs)
  · intro p hp
    obtain rfl := mem_singleton.1 hp
    change Kept _ (cells₂ p)
    rw [ht₂, hkt]
    refine ⟨?_, fun a ha hout => clean_secWriteGuards ?_⟩
    · change (h.cells p).allocated ≤ ((h.cells p).nWords + (h.cells o).nWords - 2) * 8
      omega
    · obtain ⟨hlo, hhi⟩ := ha
      change 8 * (h.cells p).words ≤ a at hlo
      change a < 8 * ((h.cells p).words + ((h.cells p).nWords + (h.cells o).nWords)) at hhi
      by_cases hlt : a < 8 * ((h.cells p).words + (h.cells p).nWords)
      · exact (hb.kept p htin).clean a ⟨hlo, hlt⟩ hout
      · refine (hb.kept o hoin).clean a ⟨by omega, by omega⟩ ?_
        rw [hfree]
        omega
  · obtain ⟨rs', hisring, hrs'⟩ := hring
    refine ⟨rs', hisring.congr fun p hp => ?_, fun p => ?_⟩
    · change (cells₂ p).next = _ ∧ (cells₂ p).prev = _
      rw [hcells p ((hrs' p).1 hp).2]
      exact ⟨rfl, rfl⟩
    · rw [hrs' p, hrs p, hmem p]
      constructor
      · rintro ⟨⟨hp | rfl | hp, hzero⟩, hne⟩
        · exact .inl ⟨hp, hzero⟩
        · exact absurd hzero hlive
        · exact absurd hp hne
      · rintro (⟨hp, hzero⟩ | ⟨hp, hzero⟩)
        · exact ⟨⟨.inl hp, hzero⟩, hpo p hp⟩
        · obtain rfl := mem_singleton.1 hp
          change (cells₂ p).allocated = 0 at hzero
          rw [ht₂, hkt] at hzero
          exact absurd hzero hlive
  · intro p hp _
    obtain rfl := mem_singleton.1 hp
    change (cells₂ p).next = none ∧ (cells₂ p).prev = none
    rw [ht₂, hkt]
    exact hb.loose p htin hlive
  · change b.used + _ = b.used + (sizes cells₂ [t]).countP _
    have hpair : sizes h.cells [t, o] = [(h.cells t).allocated, 0] := by simp [sizes, hfree]
    have hone : sizes cells₂ [t] = [(h.cells t).allocated] := by simp [sizes, ht₂, hkt]
    rw [hpair, hone]
    simp [hlive]
  · change Apart (_ ++ (sizes cells₂ [t] ++ _))
    have hone : sizes cells₂ [t] = [(h.cells t).allocated] := by simp [sizes, ht₂, hkt]
    have hapart := hb.apart
    rw [sizes_append, sizes_cons, sizes_cons, hfree, apart_middle] at hapart
    rw [hone]
    refine apart_middle.2 ⟨hapart.1, ?_, fun hzero => absurd hzero hlive⟩
    exact ((apart_middle (l := [])).1 hapart.2.1).2.1
  · intro p hp hl
    rcases mem_cons.1 hp with rfl | hp
    · rfl
    · obtain rfl := mem_singleton.1 hp
      exact absurd hfree hl
  · exact fun p hp _ => hpt p hp
  · exact fun p hp _ => mem_singleton.1 hp
  · change (cells₂ t).words = _
    rw [ht₂, hkw]
  · change (cells₂ t).allocated = _
    rw [ht₂, hkt]
  · exact secWriteGuards_of_outside (by omega) (by omega)

/-- The cell takes some words of the unused one behind it. -/
theorem steal_grown (more : Nat) {k₁ k₂ : ItemPtr → Cell} (hb : BlockOk h.cells b (xs ++ t :: o :: ys))
    (hpools : PoolsOk h.pools) (hcs : ∀ p ∈ xs ++ t :: o :: ys, InUse h.pools p)
    (hlive : (h.cells t).allocated ≠ 0) (hfree : (h.cells o).allocated = 0)
    (hmore : n = (h.cells t).nWords + more) (hbig : more + 2 ≤ (h.cells o).nWords)
    (hk₁o : k₁ o = { h.cells o with words := (h.cells o).words + more,
                                    nWords := (h.cells o).nWords - more }) (hk₂o : k₂ o = k₁ o)
    (hk₂t : k₂ t = { h.cells t with nWords := n }) (hkp : ∀ p, p ≠ t → p ≠ o → k₂ p = h.cells p) :
    Grown h b (xs ++ t :: o :: ys) { h with cells := k₂ }
      { b with mem := secWriteGuards (secWriteGuards b.mem k₁ o) k₂ t } (xs ++ t :: o :: ys) t := by
  obtain ⟨-, hne, -⟩ := nodup_pair.1 hb.nodup
  have hpt := fun p hp => (hne p hp).1
  have hpo := fun p hp => (hne p hp).2
  have hmem : ∀ p, p ∈ xs ++ t :: o :: ys ↔ p = t ∨ p = o ∨ p ∈ xs ++ ys := by
    simp only [mem_append, mem_cons]
    tauto
  have htin : t ∈ xs ++ t :: o :: ys := by simp
  have hoin : o ∈ xs ++ t :: o :: ys := by simp
  have hlongt := (hb.tiles.guarded htin).long
  have hfits := (hb.kept t htin).fits
  have hadj : (h.cells o).words = (h.cells t).words + (h.cells t).nWords := by
    obtain ⟨m, -, htw, -, how, -, -⟩ := tiles_append.1 hb.tiles
    omega
  have htw : (k₂ t).words = (h.cells t).words ∧ (k₂ t).nWords = n := by rw [hk₂t]; exact ⟨rfl, rfl⟩
  have how : (k₁ o).words = (h.cells o).words + more ∧ (k₁ o).nWords = (h.cells o).nWords - more := by
    rw [hk₁o]
    exact ⟨rfl, rfl⟩
  have hallocated : ∀ p, (k₂ p).allocated = (h.cells p).allocated := by
    intro p
    by_cases ht : p = t
    · rw [ht, hk₂t]
    · by_cases ho : p = o
      · rw [ho, hk₂o, hk₁o]
      · rw [hkp p ht ho]
  have hlinks : ∀ p, (k₂ p).next = (h.cells p).next ∧ (k₂ p).prev = (h.cells p).prev := by
    intro p
    by_cases ht : p = t
    · rw [ht, hk₂t]
      exact ⟨rfl, rfl⟩
    · by_cases ho : p = o
      · rw [ho, hk₂o, hk₁o]
        exact ⟨rfl, rfl⟩
      · rw [hkp p ht ho]
        exact ⟨rfl, rfl⟩
  have hsizes : ∀ zs, sizes k₂ zs = sizes h.cells zs := fun zs => sizes_congr fun p _ => hallocated p
  refine ⟨Change.rebuild xs [t, o] [t, o] ys hb ?_ rfl rfl rfl ?_ ?_ ?_ hb.nodup ?_ ?_ ?_ ?_ ?_ ?_ ?_ ?_,
    htin, htw.1, hallocated t, fun a ha ha' => ?_⟩
  · refine PoolFrame.of_cells hpools hcs rfl rfl rfl fun q hq => ?_
    have hq : q ∉ xs ++ t :: o :: ys := hq
    exact hkp q (fun heq => hq (heq ▸ htin)) (fun heq => hq (heq ▸ hoin))
  · intro p hp
    change SameCell _ (k₂ p)
    rw [hkp p (hpt p hp) (hpo p hp)]
    exact SameCell.refl _
  · intro p hp _
    exact hkp p (hpt p hp) (hpo p hp)
  · rintro p q ⟨htp, -, hop, -, hend⟩ _ _
    have hend : p + (h.cells t).nWords + (h.cells o).nWords = q := hend
    refine ⟨⟨?_, ?_, ?_, ?_, ?_⟩, fun a ha => ?_⟩
    · change (k₂ t).words = p
      omega
    · exact guarded_secWriteGuards _ (by omega)
    · change (k₂ o).words = p + (k₂ t).nWords
      rw [hk₂o]
      omega
    · change Guarded _ o (k₂ o)
      rw [hk₂o]
      exact (guarded_secWriteGuards _ (by omega)).secWriteGuards (by omega) (by omega)
    · change p + (k₂ t).nWords + (k₂ o).nWords = q
      rw [hk₂o]
      omega
    · exact (secWriteGuards_of_outside (by omega) (by omega)).trans
        (secWriteGuards_of_outside (by omega) (by omega))
  · intro p hp
    rcases mem_cons.1 hp with rfl | hp
    · change Kept _ (k₂ p)
      rw [hk₂t]
      refine ⟨?_, fun a ha hout => clean_secWriteGuards (clean_secWriteGuards ?_)⟩
      · change (h.cells p).allocated ≤ (n - 2) * 8
        omega
      · obtain ⟨hlo, hhi⟩ := ha
        change 8 * (h.cells p).words ≤ a at hlo
        change a < 8 * ((h.cells p).words + n) at hhi
        by_cases hlt : a < 8 * ((h.cells p).words + (h.cells p).nWords)
        · exact (hb.kept p htin).clean a ⟨hlo, hlt⟩ hout
        · refine (hb.kept o hoin).clean a ⟨by omega, by omega⟩ ?_
          rw [hfree]
          omega
    · obtain rfl := mem_singleton.1 hp
      change Kept _ (k₂ p)
      rw [hk₂o, hk₁o]
      refine ⟨by rw [hfree]; exact Nat.zero_le _, fun a ha _ => ?_⟩
      obtain ⟨hlo, hhi⟩ := ha
      change 8 * ((h.cells p).words + more) ≤ a at hlo
      change a < 8 * ((h.cells p).words + more + ((h.cells p).nWords - more)) at hhi
      refine clean_secWriteGuards (clean_secWriteGuards ((hb.kept p hoin).clean a ⟨?_, ?_⟩ ?_))
      · omega
      · omega
      · rw [hfree]
        omega
  · obtain ⟨rs, hisring, hrs⟩ := hb.ring
    refine ⟨rs, hisring.congr fun p _ => hlinks p, fun p => ?_⟩
    change p ∈ rs ↔ _ ∨ p ∈ [t, o] ∧ (k₂ p).allocated = 0
    rw [hrs p, hmem p, hallocated p, mem_cons, mem_singleton]
    constructor
    · rintro ⟨hp | hp | hp, hzero⟩
      · exact .inr ⟨.inl hp, hzero⟩
      · exact .inr ⟨.inr hp, hzero⟩
      · exact .inl ⟨hp, hzero⟩
    · rintro (⟨hp, hzero⟩ | ⟨hp | hp, hzero⟩)
      · exact ⟨.inr (.inr hp), hzero⟩
      · exact ⟨.inl hp, hzero⟩
      · exact ⟨.inr (.inl hp), hzero⟩
  · intro p hp hl
    change (k₂ p).next = none ∧ (k₂ p).prev = none
    change (k₂ p).allocated ≠ 0 at hl
    rw [(hlinks p).1, (hlinks p).2]
    have hpin : p ∈ xs ++ t :: o :: ys := by
      rcases mem_cons.1 hp with rfl | hp
      · exact htin
      · exact mem_singleton.1 hp ▸ hoin
    exact hb.loose p hpin (hallocated p ▸ hl)
  · change b.used + _ = b.used + (sizes k₂ [t, o]).countP _
    rw [hsizes]
  · change Apart (_ ++ (sizes k₂ [t, o] ++ _))
    rw [hsizes]
    have hapart := hb.apart
    rwa [sizes_append] at hapart
  · intro p hp hl
    rcases mem_cons.1 hp with rfl | hp
    · rfl
    · obtain rfl := mem_singleton.1 hp
      exact absurd hfree hl
  · exact fun p hp _ => hpt p hp
  · intro p hp hl
    change (k₂ p).allocated ≠ 0 at hl
    rcases mem_cons.1 hp with rfl | hp
    · rfl
    · obtain rfl := mem_singleton.1 hp
      rw [hallocated p] at hl
      exact absurd hfree hl
  · exact (secWriteGuards_of_outside (by omega) (by omega)).trans
      (secWriteGuards_of_outside (by omega) (by omega))

/-- The loop of `sec_realloc` ends, and leaves the cell with what it holds. -/
theorem growCell_spec (n : Nat) {fuel : Nat} (hb : BlockOk h.cells b cs)
    (hpools : PoolsOk h.pools) (hcs : ∀ p ∈ cs, InUse h.pools p) (ht : t ∈ cs)
    (hlive : (h.cells t).allocated ≠ 0) (hfuel : cs.length < fuel) :
    ∃ b' h' cs', growCell n fuel h b t = .ok (b', h') ∧ Grown h b cs h' b' cs' t ∧
      h'.calls = h.calls := by
  induction fuel generalizing h b cs with
  | zero => omega
  | succ fuel ih =>
    have hstay : ∃ b' h' cs', Except.ok (b, h) = (.ok (b', h') : Checked (Block × Heap)) ∧
        Grown h b cs h' b' cs' t ∧ h'.calls = h.calls :=
      ⟨b, h, cs, rfl, Grown.refl hb hpools hcs ht, rfl⟩
    rw [growCell]
    by_cases hshort : (h.cells t).nWords < n
    · rw [if_pos hshort]
      obtain ⟨xs, ys, rfl⟩ := append_of_mem ht
      cases ys with
      | nil =>
        rw [neighborAfter_none hb.tiles]
        exact hstay
      | cons o ys =>
        have hoin : o ∈ xs ++ t :: o :: ys := by simp
        rw [neighborAfter_some hb.tiles, ok_bind]
        dsimp only
        by_cases hfree : (h.cells o).allocated = 0
        · rw [if_neg (not_not.2 hfree)]
          have hto : t ≠ o := by
            rintro rfl
            exact hlive hfree
          obtain ⟨rs, hring, hrs⟩ := hb.ring
          by_cases heat : n - (h.cells t).nWords + 4 ≥ (h.cells o).nWords
          · rw [if_pos heat]
            generalize hk : update h.cells t
              { h.cells t with nWords := (h.cells t).nWords + (h.cells o).nWords } = k
            have hkt : k t =
                { h.cells t with nWords := (h.cells t).nWords + (h.cells o).nWords } := by
              rw [← hk, update_self]
            have hkp : ∀ p, p ≠ t → k p = h.cells p := by
              intro p hp
              rw [← hk, update_of_ne hp]
            have hkring : IsRing k b.unused rs := by
              refine hring.congr fun p hp => ?_
              have hpt : p ≠ t := fun heq => hlive (heq ▸ ((hrs p).1 hp).2)
              rw [hkp p hpt]
              exact ⟨rfl, rfl⟩
            obtain ⟨cells₁, unused, hremove, hsame, -, -, hring₁, hothers⟩ :=
              secRemoveCellRing_spec hkring ((hrs o).2 ⟨hoin, hfree⟩)
            obtain ⟨pools, cells₂, hpool, hpools₂, huse, hcells⟩ :=
              poolFree_spec (h := { h with cells := cells₁ }) hpools (hcs o hoin)
            have hgrown := eat_grown hb hcs hlive hfree hrs hkt hkp hsame hring₁ hothers hpools₂
              huse hcells
            rw [hremove, ok_bind]
            rw [hpool, ok_bind]
            obtain ⟨b', h', cs', hgrow, hgrown', hcalls⟩ := ih hgrown.change.ok
              hgrown.change.frame.pools
              (fun p hp => (hgrown.change.frame.inUse p).2 (.inr hp)) hgrown.mem
              (hgrown.allocated ▸ hlive) (by simp at hfuel ⊢; omega)
            exact ⟨b', h', cs', hgrow, hgrown.trans hgrown', hcalls⟩
          · rw [if_neg heat]
            generalize hk₁ : update h.cells o
              { h.cells o with words := (h.cells o).words + (n - (h.cells t).nWords),
                               nWords := (h.cells o).nWords - (n - (h.cells t).nWords) } = k₁
            have hk₁t : k₁ t = h.cells t := by rw [← hk₁, update_of_ne hto]
            generalize hk₂ : update k₁ t { k₁ t with nWords := n } = k₂
            have hk₂t : k₂ t = { h.cells t with nWords := n } := by
              rw [← hk₂, update_self, hk₁t]
            have hk₂o : k₂ o = k₁ o := by rw [← hk₂, update_of_ne hto.symm]
            have hkp : ∀ p, p ≠ t → p ≠ o → k₂ p = h.cells p := by
              intro p hpt hpo
              rw [← hk₂, update_of_ne hpt, ← hk₁, update_of_ne hpo]
            have hgrown := steal_grown (n - (h.cells t).nWords) hb hpools hcs hlive hfree (by omega)
              (by omega) (by rw [← hk₁, update_self]) hk₂o hk₂t hkp
            obtain ⟨fuel, rfl⟩ := Nat.exists_eq_succ_of_ne_zero (n := fuel) (by
              simp at hfuel
              omega)
            rw [growCell]
            dsimp only
            rw [if_neg (by rw [hk₂t]; simp)]
            exact ⟨_, _, _, rfl, hgrown, rfl⟩
        · rw [if_pos hfree]
          exact hstay
    · rw [if_neg hshort]
      exact hstay

/-- Memory is stored in a cell in use, and its length may be set. -/
theorem Change.resize {mem' : Nat → MemVal} (hb : BlockOk h.cells b cs) (hpools : PoolsOk h.pools)
    (hcs : ∀ p ∈ cs, InUse h.pools p) (ht : t ∈ cs) (hlive : (h.cells t).allocated ≠ 0) (hlen : length ≠ 0)
    (hfit : length ≤ ((h.cells t).nWords - 2) * 8) (hmem : ∀ a, a < 8 * ((h.cells t).words + 1) ∨
      8 * ((h.cells t).words + (h.cells t).nWords - 1) ≤ a → mem' a = b.mem a)
    (hclean : ∀ a, (h.cells t).Within a → 8 * ((h.cells t).words + 1) + length ≤ a → Clean (mem' a)) :
    Change h b cs
      { h with cells := update h.cells t { h.cells t with allocated := length } }
      { b with mem := mem' } cs (fun p => p = t) (fun p => p = t) := by
  obtain ⟨xs, ys, rfl⟩ := append_of_mem ht
  have hperm := nodup_cons.1 (perm_middle.nodup_iff.1 hb.nodup)
  have hne : ∀ p ∈ xs ++ ys, p ≠ t := fun p hp heq => hperm.1 (heq ▸ hp)
  have hmemt := @mem_middle xs ys t
  generalize hk : update h.cells t { h.cells t with allocated := length } = k
  have hkt : k t = { h.cells t with allocated := length } := by rw [← hk, update_self]
  have hkp : ∀ p, p ≠ t → k p = h.cells p := by
    intro p hp
    rw [← hk, update_of_ne hp]
  have hkw : (k t).words = (h.cells t).words := by rw [hkt]
  have hkn : (k t).nWords = (h.cells t).nWords := by rw [hkt]
  have hone : sizes k [t] = [length] := by simp [sizes, hkt]
  refine Change.rebuild xs [t] [t] ys hb ?_ rfl rfl rfl (fun p hp => ?_) (fun p hp _ => hkp p (hne p hp))
    (fun p q htile _ _ => ?_) hb.nodup (fun p hp => ?_) ?_ (fun p hp _ => ?_) ?_ ?_
    (fun p hp _ => mem_singleton.1 hp) (fun p hp _ => hne p hp)
    (fun p hp _ => mem_singleton.1 hp)
  · refine PoolFrame.of_cells hpools hcs rfl rfl rfl fun q hq => hkp q ?_
    rintro rfl
    exact hq ht
  · change SameCell _ (k p)
    rw [hkp p (hne p hp)]
    exact SameCell.refl _
  · exact tiles_single htile hkw hkn hmem
  · obtain rfl := mem_singleton.1 hp
    change Kept mem' (k p)
    rw [hkt]
    refine ⟨hfit, fun a ha hout => ?_⟩
    rcases hout with hbefore | hafter
    · rw [hmem a (.inl hbefore)]
      exact (hb.kept p ht).clean a ha (.inl hbefore)
    · exact hclean a ha hafter
  · obtain ⟨rs, hring, hrs⟩ := hb.ring
    refine ⟨rs, hring.congr fun p hp => ?_, fun p => ?_⟩
    · have hpt : p ≠ t := fun heq => hlive (heq ▸ ((hrs p).1 hp).2)
      change (k p).next = _ ∧ (k p).prev = _
      rw [hkp p hpt]
      exact ⟨rfl, rfl⟩
    · change p ∈ rs ↔ _ ∨ p ∈ [t] ∧ (k p).allocated = 0
      rw [hrs p, hmemt p]
      constructor
      · rintro ⟨hp | rfl, hzero⟩
        · exact .inl ⟨hp, hzero⟩
        · exact absurd hzero hlive
      · rintro (⟨hp, hzero⟩ | ⟨hp, hzero⟩)
        · exact ⟨.inl hp, hzero⟩
        · obtain rfl := mem_singleton.1 hp
          rw [hkt] at hzero
          exact absurd hzero hlen
  · obtain rfl := mem_singleton.1 hp
    change (k p).next = none ∧ (k p).prev = none
    rw [hkt]
    exact hb.loose p ht hlive
  · change b.used + _ = b.used + (sizes k [t]).countP _
    rw [hone]
    simp [sizes, hlive, hlen]
  · change Apart (_ ++ (sizes k [t] ++ _))
    have hapart := hb.apart
    rw [sizes_append, sizes_cons, apart_middle] at hapart
    rw [hone]
    exact apart_middle.2 ⟨hapart.1, hapart.2.1, fun hzero => absurd hzero hlen⟩

/-- Memory is stored in a cell in use. -/
theorem Change.store (mem' : Nat → MemVal) (hb : BlockOk h.cells b cs) (hpools : PoolsOk h.pools)
    (hcs : ∀ p ∈ cs, InUse h.pools p) (ht : t ∈ cs) (hlive : (h.cells t).allocated ≠ 0)
    (hmem : ∀ a, a < 8 * ((h.cells t).words + 1) ∨
      8 * ((h.cells t).words + 1) + (h.cells t).allocated ≤ a → mem' a = b.mem a) :
    Change h b cs h { b with mem := mem' } cs (fun p => p = t) (fun p => p = t) := by
  have hkept := hb.kept t ht
  have hfits := hkept.fits
  have hlong := (hb.tiles.guarded ht).long
  have hsame : update h.cells t { h.cells t with allocated := (h.cells t).allocated } =
      h.cells := update_eq_self t h.cells
  have hresize := Change.resize hb hpools hcs ht hlive hlive hfits
    (fun a ha => hmem a (by omega)) fun a ha hout => by
      rw [hmem a (.inr hout)]
      exact hkept.clean a ha (.inr hout)
  rwa [hsame] at hresize

/-- What `sec_realloc` makes of memory of `m` bytes: memory that begins with the same bytes, or, when
it fails, the memory as it was. The bytes behind are zero, but where the cell was long enough before:
there they are what the cell held. -/
theorem secRealloc_spec (sys : System) {memory m length : Nat}
    (hb : BlockOk h.cells b cs) (hpools : PoolsOk h.pools) (hcs : ∀ p ∈ cs, InUse h.pools p)
    (hg : Given h.cells cs t memory m) (hm : m ≠ 0) (hlen : length ≠ 0) :
    (∃ b' h' cs', secRealloc sys h b memory length = .ok (none, b', h') ∧
      Grown h b cs h' b' cs' t ∧ m < length ∧ ¬ secSizeToWords length + 2 ≤ (h.cells t).nWords ∧
      (Available sys h → h'.calls = h.calls)) ∨
    ∃ alloc b' h' cs' t', secRealloc sys h b memory length = .ok (some alloc, b', h') ∧
      Change h b cs h' b' cs' (fun p => p = t) (fun p => p = t') ∧
      Given h'.cells cs' t' alloc length ∧ (t' ∈ cs → (h.cells t').allocated ≠ 0 → t' = t) ∧
      (∀ i, i < m → i < length → b'.mem (8 * alloc + i) = b.mem (8 * memory + i)) ∧
      ∀ i, m ≤ i → i < length → b'.mem (8 * alloc + i) =
        if secSizeToWords length + 2 ≤ (h.cells t).nWords then b.mem (8 * memory + i)
        else .byte 0 := by
  have hlive : (h.cells t).allocated ≠ 0 := hg.allocated ▸ hm
  have hsize := le_secSizeToWords length
  have hsize' := secSizeToWords_lt length
  have hlong := (hb.tiles.guarded hg.mem).long
  have hfits := (hb.kept t hg.mem).fits
  have hword := hg.words
  have hallocated := hg.allocated
  unfold secRealloc
  rw [cAssert_of_true hlen, ok_bind, cellOfMemory_eq hb.tiles hpools (hcs t hg.mem) hg, ok_bind,
    assertInUse_eq (hb.loose t hg.mem hlive) hlive, ok_bind]
  by_cases hin : secSizeToWords length + 2 ≤ (h.cells t).nWords
  · -- the cell is long enough
    right
    rw [if_pos hin]
    refine ⟨_, _, _, cs, t, rfl, ?_, ⟨hg.mem, by simp, by simp⟩, fun _ _ => rfl, fun i him hil => ?_,
      fun i hmi hil => ?_⟩
    · refine Change.resize hb hpools hcs hg.mem hlive hlen (by omega) (fun a ha => ?_)
        fun a ha hout => ?_
      · split
        · exact if_neg (by omega)
        · rfl
      · split
        · exact clean_memset fun hout' => (hb.kept t hg.mem).clean a ha (by omega)
        · exact (hb.kept t hg.mem).clean a ha (by omega)
    · change (if length < (h.cells t).allocated then _ else b.mem) (8 * ((h.cells t).words + 1) + i) = _
      rw [hword]
      split
      · exact if_neg (by omega)
      · rfl
    · -- the memory does not get shorter, so nothing is cleared
      change (if length < (h.cells t).allocated then _ else b.mem) (8 * ((h.cells t).words + 1) + i) = _
      rw [hword, if_neg (by omega), if_pos hin]
  · rw [if_neg hin]
    have hml : m < length := by omega
    have hfuel : cs.length < b.nWords + 2 := by
      have := hb.tiles.length_le
      omega
    obtain ⟨b₁, h₁, cs₁, hgrow, hgrown, hcalls₁⟩ :=
      growCell_spec (secSizeToWords length + 2) hb hpools hcs hg.mem hlive hfuel
    have hb₁ := hgrown.change.ok
    have hpools₁ := hgrown.change.frame.pools
    have hcs₁ : ∀ p ∈ cs₁, InUse h₁.pools p := fun p hp => (hgrown.change.frame.inUse p).2 (.inr hp)
    have hlive₁ : (h₁.cells t).allocated ≠ 0 := hgrown.allocated ▸ hlive
    have hword₁ := hgrown.words
    have hallocated₁ := hgrown.allocated
    have hfits₁ := (hb₁.kept t hgrown.mem).fits
    have hlong₁ := (hb₁.tiles.guarded hgrown.mem).long
    rw [hgrow, ok_bind]
    dsimp only
    by_cases hgot : (h₁.cells t).nWords ≥ secSizeToWords length + 2
    · -- the neighbor had enough
      right
      rw [if_pos hgot, cAssert_of_true (by omega : (h.cells t).allocated ≤ length), ok_bind]
      refine ⟨_, _, _, cs₁, t, rfl, ?_, ⟨hgrown.mem, by simp, by simp⟩, fun _ _ => rfl,
        fun i him hil => ?_, fun i hmi hil => ?_⟩
      · refine (hgrown.change.trans (Change.resize hb₁ hpools₁ hcs₁ hgrown.mem hlive₁ hlen (by omega)
          (fun a ha => ?_) fun a ha hout => ?_)).weaken (fun p _ _ => or_self_iff) ?_
        · exact if_neg (by omega)
        · exact clean_memset fun hout' => (hb₁.kept t hgrown.mem).clean a ha (by omega)
        · rintro p (hp | ⟨hp, -⟩)
          · exact hp
          · exact hp
      · change memset b₁.mem _ _ (8 * ((h₁.cells t).words + 1) + i) = _
        rw [hword₁, hword]
        change (if _ then _ else _) = _
        rw [if_neg (by omega), hgrown.payload _ (by omega) (by omega)]
      · change memset b₁.mem _ _ (8 * ((h₁.cells t).words + 1) + i) = _
        rw [hword₁, if_neg hin]
        exact if_pos (by omega)
    · rw [if_neg hgot]
      rcases secAlloc_spec sys hb₁ hpools₁ hcs₁ hlen with ⟨calls, halloc, hshort⟩ |
        ⟨alloc, b₂, h₂, cs₂, t', halloc, hchange, hg', hfresh, hzero, -⟩
      · left
        rw [halloc]
        refine ⟨b₁, _, cs₁, rfl, ⟨⟨?_, hb₁, hgrown.change.item, hgrown.change.words,
          hgrown.change.nWords, hgrown.change.kept, hgrown.change.only⟩, hgrown.mem, hgrown.words,
          hgrown.allocated, hgrown.payload⟩, hml, hin, fun havail => ?_⟩
        · have hframe := hgrown.change.frame
          exact ⟨hframe.pools, hframe.inUse, hframe.fresh, hframe.cells, hframe.blocks, hframe.malloced⟩
        · have havail₁ := havail.of_heap hcalls₁.ge hgrown.change.frame.malloced
          exact (hshort havail₁).2.trans hcalls₁
      · -- the bytes are moved to another cell
        right
        have htt' : t ≠ t' := fun heq => hlive₁ (heq ▸ hfresh (heq ▸ hgrown.mem))
        obtain ⟨ht₂, hun₂⟩ := hchange.kept t hgrown.mem hlive₁ not_false
        have hb₂ := hchange.ok
        have hpools₂ := hchange.frame.pools
        have hcs₂ : ∀ p ∈ cs₂, InUse h₂.pools p := fun p hp => (hchange.frame.inUse p).2 (.inr hp)
        have hlive' : (h₂.cells t').allocated ≠ 0 := hg'.allocated ▸ hlen
        have hword' := hg'.words
        have hallocated' := hg'.allocated
        have hcopy := Change.store (memcpy b₂.mem (8 * alloc)
          (fun i => b₂.mem (8 * memory + i)) (h.cells t).allocated) hb₂ hpools₂ hcs₂ hg'.mem hlive'
          fun a ha => if_neg (by omega)
        have hgt₂ : Given h₂.cells cs₂ t memory m :=
          ⟨ht₂, by rw [hun₂.same.words, hword₁, hword], by rw [hun₂.same.allocated, hallocated₁, hallocated]⟩
        obtain ⟨b₄, h₄, cs₄, hfree, hchange₄⟩ := secFree_spec hcopy.ok hpools₂ hcs₂ hgt₂ hm
        rw [halloc, ok_bind]
        dsimp only
        rw [hfree]
        obtain ⟨ht₄, hun₄⟩ := hchange₄.kept t' hg'.mem hlive' htt'.symm
        have hnew : t' ∈ cs → (h.cells t').allocated ≠ 0 → t' = t := by
          intro hp hl
          by_contra hne
          obtain ⟨hp₁, hun₁⟩ := hgrown.change.kept t' hp hl hne
          exact hl (hun₁.same.allocated.symm.trans (hfresh hp₁))
        have hwithin : ∀ i < length, (h₂.cells t').Within (8 * alloc + i) := by
          intro i hil
          have hfits' := (hb₂.kept t' hg'.mem).fits
          exact ⟨by omega, by omega⟩
        refine ⟨alloc, b₄, h₄, cs₄, t', rfl, ?_, ⟨ht₄, ?_, ?_⟩, hnew, fun i him hil => ?_,
          fun i hmi hil => ?_⟩
        · refine (((hgrown.change.trans hchange).trans hcopy).trans hchange₄).weaken
            (fun p hp hl => ⟨?_, fun heq => .inr heq⟩) ?_
          · rintro (((heq | hfalse) | heq) | heq)
            · exact heq
            · exact hfalse.elim
            · subst heq
              exact hnew hp hl
            · exact heq
          · rintro p (hfalse | ⟨(heq | ⟨(heq | ⟨heq, -⟩), -⟩), hne⟩)
            · exact hfalse.elim
            · exact heq
            · exact heq
            · exact absurd heq hne
        · rw [hun₄.same.words, hword']
        · rw [hun₄.same.allocated, hallocated']
        · have hwithin₁ : (h₁.cells t).Within (8 * memory + i) := ⟨by omega, by omega⟩
          rw [hun₄.mem _ (hwithin i hil)]
          change (if _ then _ else _) = _
          rw [if_pos (by omega), Nat.add_sub_cancel_left, hun₂.mem _ hwithin₁,
            hgrown.payload _ (by omega) (by omega)]
        · rw [hun₄.mem _ (hwithin i hil), if_neg hin]
          exact (if_neg (by omega)).trans (hzero i hil)

end MateKeyring.Egg
