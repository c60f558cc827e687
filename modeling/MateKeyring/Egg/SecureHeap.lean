import MateKeyring.Egg.SecureBlocks

/-!
# The heap of secure memory

`HeapOk` is the invariant of all blocks together: every block is well formed, and no item is used by
two of them. `LiveAt` is the memory a client has, in a block or outside, and `Effect` says what a
function does to it: which memory stays, with its bytes, and which memory there is afterwards. The
functions for clients are given their effects from the changes of the blocks.
-/

set_option autoImplicit false

namespace MateKeyring.Egg

open List
open Function (update update_eq_self update_idem update_of_ne update_self)

variable {p : Ptr} {cells : ItemPtr → Cell} {cs'' : Nat → List ItemPtr} {length : Nat}
  {contents : List MemVal} {h'' : Heap} {n : Nat} {t : ItemPtr} {c : ItemPtr}

variable {sys : System} {h h' : Heap} {b b' : Block} {cs cs' : Nat → List ItemPtr}

/-! ## The invariant -/

/-- The blocks are well formed, each with the cells that belong to its address. -/
structure HeapOk (sys : System) (h : Heap) (cs : Nat → List ItemPtr) : Prop where
  pools : PoolsOk h.pools
  each : ∀ b ∈ h.blocks, BlockOk h.cells b (cs b.words)
  item : ∀ b ∈ h.blocks, b.item ∉ cs b.words
  inUse : ∀ b ∈ h.blocks, ∀ q ∈ b.item :: cs b.words, InUse h.pools q
  apart : ∀ b ∈ h.blocks, ∀ b' ∈ h.blocks, b.words ≠ b'.words →
    ∀ q ∈ b.item :: cs b.words, q ∉ b'.item :: cs b'.words
  pages : (h.blocks.map Block.words).Nodup
  malloced : ∀ b ∈ h.blocks, h.malloced b.words = none
  aligned : ∀ b ∈ h.blocks, b.nWords * 8 % getpagesize sys = 0 ∧ 0 < b.nWords

theorem HeapOk.block_inj (hok : HeapOk sys h cs) (hb : b ∈ h.blocks) (hb' : b' ∈ h.blocks)
    (heq : b.words = b'.words) : b = b' :=
  inj_on_of_nodup_map hok.pages hb hb' heq

theorem HeapOk.cellsInUse (hok : HeapOk sys h cs) (hb : b ∈ h.blocks) :
    ∀ p ∈ cs b.words, InUse h.pools p :=
  fun p hp => hok.inUse b hb p (mem_cons_of_mem _ hp)

/-- The memory at an address, of `n` bytes, is in use: in a block, or outside. -/
def LiveAt (h : Heap) (cs : Nat → List ItemPtr) (p : Ptr) (n : Nat) : Prop :=
  (∃ b ∈ h.blocks, b.words = p.page ∧ ∃ t, Given h.cells (cs b.words) t p.word n ∧ n ≠ 0) ∨
    p.word = 0 ∧ ∃ contents, h.malloced p.page = some contents ∧ contents.length = n

/-- The block of an address is found. -/
theorem HeapOk.blockOf_eq (hok : HeapOk sys h cs) (hb : b ∈ h.blocks) (hpage : b.words = p.page)
    (hword : p.word < b.nWords) : h.blockOf p = some b := by
  obtain ⟨found, hfound⟩ : ∃ found, h.blockOf p = some found := by
    refine Option.isSome_iff_exists.1 (find?_isSome.2 ⟨b, hb, ?_⟩)
    simp [secIsValidWord, hpage, hword]
  have hmem := mem_of_find?_eq_some hfound
  have hsome := find?_some hfound
  simp only [Bool.and_eq_true, beq_iff_eq] at hsome
  rw [hfound, hok.block_inj hmem hb (hsome.1.trans hpage.symm)]

theorem HeapOk.blockOf_none (hok : HeapOk sys h cs) (hp : h.malloced p.page = some contents) :
    h.blockOf p = none := by
  refine find?_eq_none.2 fun b hb hfound => ?_
  simp only [Bool.and_eq_true, beq_iff_eq] at hfound
  have hnone := hok.malloced b hb
  rw [hfound.1, hp] at hnone
  cases hnone

/-- The memory that a cell in use gives out is inside of its block. -/
theorem BlockOk.given_lt {cs : List ItemPtr} {memory n : Nat} (hb : BlockOk cells b cs)
    (hg : Given cells cs t memory n) : memory < b.nWords := by
  have hlong := (hb.tiles.guarded hg.mem).long
  have hbounds := hb.tiles.bounds hg.mem
  have := hg.words
  omega

/-- Two cells do not begin at the same word. -/
theorem BlockOk.given_inj {cs : List ItemPtr} {t t' : ItemPtr} (hb : BlockOk cells b cs) (ht : t ∈ cs)
    (ht' : t' ∈ cs) (hwords : (cells t).words = (cells t').words) : t = t' := by
  by_contra hne
  have hlong := (hb.tiles.guarded ht).long
  have hlong' := (hb.tiles.guarded ht').long
  rcases hb.tiles.disjoint ht ht' hne with hle | hle
  · omega
  · omega

/-- A byte of memory in a block. -/
theorem HeapOk.read_eq (hok : HeapOk sys h cs) (hb : b ∈ h.blocks) (hpage : b.words = p.page)
    (hg : Given h.cells (cs b.words) t p.word n) (i : Nat) :
    h.read p i = b.mem (8 * p.word + i) := by
  unfold Heap.read
  rw [hok.blockOf_eq hb hpage ((hok.each b hb).given_lt hg)]

theorem HeapOk.read_malloced (hok : HeapOk sys h cs) (hp : h.malloced p.page = some contents) (i : Nat) :
    h.read p i = contents.getD i (.byte 0) := by
  unfold Heap.read
  rw [hok.blockOf_none hp, hp]
  rfl

/-! ## Effects -/

/-- What becomes of the memory of the clients: that of `old` may change, the other stays, and that of
`new` comes to it. -/
structure Effect (sys : System) (h : Heap) (cs : Nat → List ItemPtr) (h' : Heap)
    (cs' : Nat → List ItemPtr) (old : Ptr → Prop) (new : Ptr → Nat → Prop) : Prop where
  ok : HeapOk sys h' cs'
  kept : ∀ p n, LiveAt h cs p n → ¬ old p → LiveAt h' cs' p n ∧ ∀ i < n, h'.read p i = h.read p i
  only : ∀ p n, LiveAt h' cs' p n → new p n ∨ LiveAt h cs p n ∧ ¬ old p

section

variable {old old' : Ptr → Prop} {new new' : Ptr → Nat → Prop} (h₁ : Effect sys h cs h' cs' old new)

include h₁

theorem Effect.trans (h₂ : Effect sys h' cs' h'' cs'' old' new') :
    Effect sys h cs h'' cs'' (fun p => old p ∨ old' p) (fun p n => new' p n ∨ new p n ∧ ¬ old' p) := by
  refine ⟨h₂.ok, fun p n hlive hold => ?_, fun p n hlive => ?_⟩
  · obtain ⟨hlive', hread⟩ := h₁.kept p n hlive fun hp => hold (.inl hp)
    obtain ⟨hlive'', hread'⟩ := h₂.kept p n hlive' fun hp => hold (.inr hp)
    exact ⟨hlive'', fun i hi => (hread' i hi).trans (hread i hi)⟩
  · rcases h₂.only p n hlive with hnew | ⟨hlive', hnot'⟩
    · exact .inl (.inl hnew)
    · rcases h₁.only p n hlive' with hnew | ⟨hlive, hnot⟩
      · exact .inl (.inr ⟨hnew, hnot'⟩)
      · exact .inr ⟨hlive, fun hp => hp.elim hnot hnot'⟩

theorem Effect.weaken (hold : ∀ p n, LiveAt h cs p n → (old p ↔ old' p))
    (hnew : ∀ p n, new p n → new' p n) : Effect sys h cs h' cs' old' new' := by
  refine ⟨h₁.ok, fun p n hlive hnot => ?_, fun p n hlive => ?_⟩
  · exact h₁.kept p n hlive fun hp => hnot ((hold p n hlive).1 hp)
  · rcases h₁.only p n hlive with hp | ⟨hlive, hnot⟩
    · exact .inl (hnew p n hp)
    · exact .inr ⟨hlive, fun hp => hnot ((hold p n hlive).2 hp)⟩

end

/-- Nothing happens to the memory of the clients. -/
abbrev Quiet (sys : System) (h : Heap) (cs : Nat → List ItemPtr) (h' : Heap)
    (cs' : Nat → List ItemPtr) : Prop :=
  Effect sys h cs h' cs' (fun _ => False) (fun _ _ => False)

theorem Quiet.trans_left {old : Ptr → Prop} {new : Ptr → Nat → Prop} (h₁ : Quiet sys h cs h' cs')
    (h₂ : Effect sys h' cs' h'' cs'' old new) :
    Effect sys h cs h'' cs'' old new := by
  refine (Effect.trans h₁ h₂).weaken (fun p n _ => ?_) fun p n hp => ?_
  · exact ⟨fun hp => hp.resolve_left id, .inr⟩
  · exact hp.elim id fun hp => hp.1.elim

/-- The cells in use stay where they are. -/
def Keeps (h : Heap) (cs : Nat → List ItemPtr) (h' : Heap) (cs' : Nat → List ItemPtr) : Prop :=
  ∀ b ∈ h.blocks, ∀ t ∈ cs b.words, (h.cells t).allocated ≠ 0 →
    b ∈ h'.blocks ∧ cs' b.words = cs b.words ∧ h'.cells t = h.cells t

theorem Keeps.given (hk : Keeps h cs h' cs') (hb : b ∈ h.blocks) (hg : Given h.cells (cs b.words) t p.word n)
    (hn : n ≠ 0) : b ∈ h'.blocks ∧ Given h'.cells (cs' b.words) t p.word n := by
  obtain ⟨hb', hcs, hcell⟩ := hk b hb t hg.mem (hg.allocated ▸ hn)
  rw [hcs]
  exact ⟨hb', hg.mem, hcell ▸ hg.words, hcell ▸ hg.allocated⟩

/-- Nothing comes to what is in use and nothing is taken away. -/
theorem quiet_of_keeps (hok : HeapOk sys h cs) (hok' : HeapOk sys h' cs') (hkept : Keeps h cs h' cs')
    (honly : Keeps h' cs' h cs) (hmalloced : h'.malloced = h.malloced) : Quiet sys h cs h' cs' := by
  refine ⟨hok', ?_, ?_⟩
  · rintro p n (⟨x, hx, hpage, t, hg, hn⟩ | ⟨hword, contents, hcontents, hlength⟩) -
    · obtain ⟨hx', hg'⟩ := hkept.given hx hg hn
      refine ⟨.inl ⟨x, hx', hpage, t, hg', hn⟩, fun i _ => ?_⟩
      rw [hok'.read_eq hx' hpage hg', hok.read_eq hx hpage hg]
    · have hcontents' := (congrFun hmalloced p.page).trans hcontents
      refine ⟨.inr ⟨hword, contents, hcontents', hlength⟩, fun i _ => ?_⟩
      rw [hok'.read_malloced hcontents', hok.read_malloced hcontents]
  · rintro p n (⟨x, hx, hpage, t, hg, hn⟩ | ⟨hword, contents, hcontents, hlength⟩)
    · obtain ⟨hx', hg'⟩ := honly.given hx hg hn
      exact .inr ⟨.inl ⟨x, hx', hpage, t, hg', hn⟩, id⟩
    · exact .inr ⟨.inr ⟨hword, contents, (congrFun hmalloced p.page).symm.trans hcontents, hlength⟩, id⟩

/-- The blocks and the memory outside are the same, with the items they use. -/
theorem quiet_of_same (hok : HeapOk sys h cs) (hpools : PoolsOk h'.pools)
    (huse : ∀ q, InUse h.pools q → InUse h'.pools q ∧ h'.cells q = h.cells q)
    (hblocks : h'.blocks = h.blocks) (hmalloced : h'.malloced = h.malloced) :
    Quiet sys h cs h' cs := by
  have hcells : ∀ b ∈ h.blocks, ∀ p ∈ cs b.words, h'.cells p = h.cells p :=
    fun b hb p hp => (huse p (hok.cellsInUse hb p hp)).2
  have hok' : HeapOk sys h' cs := by
    refine ⟨hpools, fun b hb => ?_, fun b hb => ?_, fun b hb q hq => ?_, fun b hb b' hb' => ?_, ?_,
      fun b hb => ?_, fun b hb => ?_⟩
    · rw [hblocks] at hb
      exact (hok.each b hb).congr (hcells b hb)
    · rw [hblocks] at hb
      exact hok.item b hb
    · rw [hblocks] at hb
      exact (huse q (hok.inUse b hb q hq)).1
    · rw [hblocks] at hb hb'
      exact hok.apart b hb b' hb'
    · rw [hblocks]
      exact hok.pages
    · rw [hblocks] at hb
      rw [hmalloced]
      exact hok.malloced b hb
    · rw [hblocks] at hb
      exact hok.aligned b hb
  refine quiet_of_keeps hok hok' (fun b hb t ht _ => ⟨hblocks ▸ hb, rfl, hcells b hb t ht⟩)
    (fun b hb t ht _ => ?_) hmalloced
  rw [hblocks] at hb
  exact ⟨hb, rfl, (hcells b hb t ht).symm⟩

/-! ## A block is stored back -/

theorem mem_setBlock (hb : b ∈ h.blocks) (hblocks : h'.blocks = h.blocks) (hwords : b'.words = b.words)
    (x : Block) :
    x ∈ (h'.setBlock b').blocks ↔ x = b' ∨ x ∈ h.blocks ∧ x.words ≠ b.words := by
  unfold Heap.setBlock
  rw [hblocks, hwords]
  constructor
  · intro hx
    obtain ⟨y, hy, heq⟩ := mem_map.1 hx
    by_cases hyw : y.words = b.words
    · rw [if_pos hyw] at heq
      exact .inl heq.symm
    · rw [if_neg hyw] at heq
      exact .inr ⟨heq ▸ hy, heq ▸ hyw⟩
  · rintro (rfl | ⟨hx, hne⟩)
    · exact mem_map.2 ⟨b, hb, if_pos rfl⟩
    · exact mem_map.2 ⟨x, hx, if_neg hne⟩

theorem setBlock_pages (hblocks : h'.blocks = h.blocks) :
    (h'.setBlock b').blocks.map Block.words = h.blocks.map Block.words := by
  unfold Heap.setBlock
  rw [hblocks, map_map]
  refine map_congr_left fun x _ => ?_
  change (if x.words = b'.words then b' else x).words = x.words
  split
  · next heq => exact heq.symm
  · rfl

section

variable {cs₁ : List ItemPtr} {old new : ItemPtr → Prop}

section

variable (hok : HeapOk sys h cs) (hb : b ∈ h.blocks) (hc : Change h b (cs b.words) h' b' cs₁ old new)

include hok hb hc

/-- An item of another block is not touched. -/
theorem Change.other {x : Block} (hx : x ∈ h.blocks)
    (hne : x.words ≠ b.words) {q : ItemPtr} (hq : q ∈ x.item :: cs x.words) :
    InUse h'.pools q ∧ h'.cells q = h.cells q ∧ q ∉ b.item :: cs b.words ∧ q ∉ cs₁ := by
  have huse := hok.inUse x hx q hq
  have hapart := hok.apart x hx b hb hne q hq
  have hnot : q ∉ cs b.words := fun hmem => hapart (mem_cons_of_mem _ hmem)
  refine ⟨(hc.frame.inUse q).2 (.inl ⟨huse, hnot⟩), hc.frame.cells q huse hnot, hapart, fun hmem => ?_⟩
  rcases hc.frame.fresh q hmem with hmem | hfresh
  · exact hnot hmem
  · exact hfresh huse

theorem Change.heapOk : HeapOk sys (h'.setBlock b') (update cs b.words cs₁) := by
  have hmem := mem_setBlock hb hc.frame.blocks hc.words
  have hself : update cs b.words cs₁ b'.words = cs₁ := by
    rw [hc.words, update_self]
  have hside : ∀ x, x.words ≠ b.words → update cs b.words cs₁ (Block.words x) = cs x.words :=
    fun x hx => update_of_ne hx ..
  have hitem := hok.item b hb
  have hitemUse := hok.inUse b hb b.item mem_cons_self
  refine ⟨hc.frame.pools, fun x hx => ?_, fun x hx => ?_, fun x hx q hq => ?_,
    fun x hx y hy hne q hq => ?_, ?_, fun x hx => ?_, fun x hx => ?_⟩
  · rcases (hmem x).1 hx with rfl | ⟨hx, hne⟩
    · rw [hself]
      exact hc.ok
    · rw [hside x hne]
      exact (hok.each x hx).congr fun p hp =>
        (hc.other hok hb hx hne (mem_cons_of_mem _ hp)).2.1
  · rcases (hmem x).1 hx with rfl | ⟨hx, hne⟩
    · rw [hself, hc.item]
      intro hin
      rcases hc.frame.fresh b.item hin with hin | hfresh
      · exact hitem hin
      · exact hfresh hitemUse
    · rw [hside x hne]
      exact hok.item x hx
  · rcases (hmem x).1 hx with rfl | ⟨hx, hne⟩
    · rw [hself, hc.item] at hq
      rcases mem_cons.1 hq with rfl | hq
      · exact (hc.frame.inUse _).2 (.inl ⟨hitemUse, hitem⟩)
      · exact (hc.frame.inUse q).2 (.inr hq)
    · rw [hside x hne] at hq
      exact (hc.other hok hb hx hne hq).1
  · rcases (hmem x).1 hx with rfl | ⟨hx', hxne⟩ <;> rcases (hmem y).1 hy with rfl | ⟨hy', hyne⟩
    · exact absurd rfl hne
    · rw [hself, hc.item] at hq
      rw [hside y hyne]
      intro hqy
      obtain ⟨-, -, hnot, hnot₁⟩ := hc.other hok hb hy' hyne hqy
      rcases mem_cons.1 hq with rfl | hq
      · exact hnot mem_cons_self
      · exact hnot₁ hq
    · rw [hside x hxne] at hq
      rw [hself, hc.item]
      obtain ⟨-, -, hnot, hnot₁⟩ := hc.other hok hb hx' hxne hq
      intro hqy
      rcases mem_cons.1 hqy with rfl | hqy
      · exact hnot mem_cons_self
      · exact hnot₁ hqy
    · rw [hside x hxne] at hq
      rw [hside y hyne]
      exact hok.apart x hx' y hy' hne q hq
  · rw [setBlock_pages hc.frame.blocks]
    exact hok.pages
  · change h'.malloced x.words = none
    rw [hc.frame.malloced]
    rcases (hmem x).1 hx with rfl | ⟨hx, -⟩
    · rw [hc.words]
      exact hok.malloced b hb
    · exact hok.malloced x hx
  · rcases (hmem x).1 hx with rfl | ⟨hx, -⟩
    · rw [hc.nWords]
      exact hok.aligned b hb
    · exact hok.aligned x hx

/-- The effect of a change of one block. -/
theorem Change.effect :
    Effect sys h cs (h'.setBlock b') (update cs b.words cs₁)
      (fun p => ∃ t ∈ cs b.words, old t ∧ (h.cells t).allocated ≠ 0 ∧
        p = ⟨b.words, (h.cells t).words + 1⟩)
      (fun p n => p.page = b.words ∧ n ≠ 0 ∧ ∃ t, new t ∧ Given h'.cells cs₁ t p.word n) := by
  have hok' := hc.heapOk hok hb
  have hmem := mem_setBlock hb hc.frame.blocks hc.words
  have hb' : b' ∈ (h'.setBlock b').blocks := (hmem b').2 (.inl rfl)
  have hself : update cs b.words cs₁ b'.words = cs₁ := by
    rw [hc.words, update_self]
  have hside : ∀ x, x.words ≠ b.words → update cs b.words cs₁ (Block.words x) = cs x.words :=
    fun x hx => update_of_ne hx ..
  have hbok := hok.each b hb
  refine ⟨hok', ?_, ?_⟩
  · rintro p n (⟨x, hx, hpage, t, hg, hn⟩ | ⟨hword, contents, hcontents, hlength⟩) hold
    · by_cases hxw : x.words = b.words
      · obtain rfl := hok.block_inj hx hb hxw
        have hlive : (h.cells t).allocated ≠ 0 := hg.allocated ▸ hn
        have hp : p = ⟨x.words, (h.cells t).words + 1⟩ := by
          obtain ⟨page, word⟩ := p
          rw [Ptr.mk.injEq]
          exact ⟨hpage.symm, hg.words.symm⟩
        obtain ⟨ht₁, hun⟩ := hc.kept t hg.mem hlive fun ht => hold ⟨t, hg.mem, ht, hlive, hp⟩
        have hg' : Given h'.cells cs₁ t p.word n :=
          ⟨ht₁, by rw [hun.same.words, hg.words], by rw [hun.same.allocated, hg.allocated]⟩
        refine ⟨.inl ⟨b', hb', hc.words.trans hpage, t, hself.symm ▸ hg', hn⟩, fun i hi => ?_⟩
        rw [hok'.read_eq hb' (hc.words.trans hpage) (hself.symm ▸ hg') i, hok.read_eq hx hpage hg i]
        have hfits := (hbok.kept t hg.mem).fits
        have hlong := (hbok.tiles.guarded hg.mem).long
        have := hg.words
        have := hg.allocated
        exact hun.mem _ ⟨by omega, by omega⟩
      · have heq := (hc.other hok hb hx hxw (mem_cons_of_mem _ hg.mem)).2.1
        have hx' : x ∈ (h'.setBlock b').blocks := (hmem x).2 (.inr ⟨hx, hxw⟩)
        have hg' : Given h'.cells (cs x.words) t p.word n :=
          ⟨hg.mem, heq.symm ▸ hg.words, heq.symm ▸ hg.allocated⟩
        refine ⟨.inl ⟨x, hx', hpage, t, (hside x hxw).symm ▸ hg', hn⟩, fun i _ => ?_⟩
        rw [hok'.read_eq hx' hpage ((hside x hxw).symm ▸ hg') i, hok.read_eq hx hpage hg i]
    · have hcontents' : (h'.setBlock b').malloced p.page = some contents :=
        (congrFun hc.frame.malloced p.page).trans hcontents
      refine ⟨.inr ⟨hword, contents, hcontents', hlength⟩, fun i _ => ?_⟩
      rw [hok'.read_malloced hcontents', hok.read_malloced hcontents]
  · rintro p n (⟨x, hx, hpage, t, hg, hn⟩ | ⟨hword, contents, hcontents, hlength⟩)
    · rcases (hmem x).1 hx with rfl | ⟨hx, hxw⟩
      · rw [hself] at hg
        change Given h'.cells cs₁ t p.word n at hg
        have hlive : (h'.cells t).allocated ≠ 0 := hg.allocated ▸ hn
        rcases hc.only t hg.mem hlive with hnew | ⟨ht, hlive₀, hnot⟩
        · exact .inl ⟨hpage.symm.trans hc.words, hn, t, hnew, hg⟩
        · obtain ⟨-, hun⟩ := hc.kept t ht hlive₀ hnot
          have hg₀ : Given h.cells (cs b.words) t p.word n :=
            ⟨ht, by rw [← hg.words, hun.same.words], by rw [← hg.allocated, hun.same.allocated]⟩
          refine .inr ⟨.inl ⟨b, hb, hc.words.symm.trans hpage, t, hg₀, hn⟩, ?_⟩
          rintro ⟨t', ht', hold, -, rfl⟩
          have hwords : (h.cells t).words = (h.cells t').words := Nat.succ.inj hg₀.words
          exact hnot (hbok.given_inj ht ht' hwords ▸ hold)
      · rw [hside x hxw] at hg
        have heq := (hc.other hok hb hx hxw (mem_cons_of_mem _ hg.mem)).2.1
        have hg₀ : Given h.cells (cs x.words) t p.word n :=
          ⟨hg.mem, heq ▸ hg.words, heq ▸ hg.allocated⟩
        refine .inr ⟨.inl ⟨x, hx, hpage, t, hg₀, hn⟩, ?_⟩
        rintro ⟨t', -, -, -, rfl⟩
        exact hxw hpage
    · have hcontents₀ : h.malloced p.page = some contents :=
        (congrFun hc.frame.malloced p.page).symm.trans hcontents
      refine .inr ⟨.inr ⟨hword, contents, hcontents₀, hlength⟩, ?_⟩
      rintro ⟨t', -, -, -, rfl⟩
      have hnone := hok.malloced b hb
      rw [hcontents₀] at hnone
      cases hnone

end

end

/-! ## Allocating -/

/-- New memory, filled with zeros. -/
structure Allocates (sys : System) (h : Heap) (cs : Nat → List ItemPtr) (h' : Heap)
    (cs' : Nat → List ItemPtr) (p : Ptr) (length : Nat) : Prop where
  effect : Effect sys h cs h' cs' (fun _ => False) (fun q n => q = p ∧ n = length)
  live : LiveAt h' cs' p length
  fresh : ∀ n, ¬ LiveAt h cs p n
  zero : ∀ i < length, h'.read p i = .byte 0

theorem Allocates.of_quiet (h₁ : Quiet sys h cs h' cs') (h₂ : Allocates sys h' cs' h'' cs'' p length) :
    Allocates sys h cs h'' cs'' p length :=
  ⟨h₁.trans_left h₂.effect, h₂.live, fun n hlive => h₂.fresh n (h₁.kept p n hlive id).1, h₂.zero⟩

theorem quiet_calls (hok : HeapOk sys h cs) (calls : Nat) : Quiet sys h cs { h with calls } cs :=
  quiet_of_same hok hok.pools (fun _ hq => ⟨hq, rfl⟩) rfl rfl

/-- A block that was not changed is stored back. -/
theorem setBlock_self (hok : HeapOk sys h cs) (hb : b ∈ h.blocks) (calls : Nat) :
    Heap.setBlock { h with calls } b = { h with calls } := by
  unfold Heap.setBlock
  have hmap : (h.blocks.map fun x => if x.words = b.words then b else x) = h.blocks := by
    refine (map_congr_left fun x hx => ?_).trans (map_id _)
    split
    · next heq => exact (hok.block_inj hx hb heq).symm
    · rfl
  simp only [hmap]

theorem BlockOk.used_ne {cs : List ItemPtr} {memory n : Nat} (hb : BlockOk cells b cs)
    (hg : Given cells cs t memory n) (hn : n ≠ 0) : b.used ≠ 0 := by
  rw [hb.used, ne_eq, countP_eq_zero]
  intro hall
  have := hall (cells t).allocated (mem_map_of_mem hg.mem)
  rw [hg.allocated] at this
  simp [hn] at this

/-- A block without memory in use was there before. -/
def NoNewEmpty (h h' : Heap) : Prop := ∀ b ∈ h'.blocks, b.used = 0 → b ∈ h.blocks

theorem NoNewEmpty.trans (h₁ : NoNewEmpty h h') (h₂ : NoNewEmpty h' h'') : NoNewEmpty h h'' :=
  fun b hb hunused => h₁ b (h₂ b hb hunused) hunused

theorem secAlloc_effect (hok : HeapOk sys h cs) (hb : b ∈ h.blocks) (hlen : length ≠ 0) :
    (∃ calls, secAlloc sys h b length = .ok (none, b, { h with calls }) ∧
      (Available sys h → ¬ HasRoom h.cells (cs b.words) length ∧ calls = h.calls)) ∨
    ∃ word b' h' cs', secAlloc sys h b length = .ok (some word, b', h') ∧ b'.words = b.words ∧
      Allocates sys h cs (h'.setBlock b') cs' ⟨b.words, word⟩ length ∧
      HasRoom h.cells (cs b.words) length ∧ NoNewEmpty h (h'.setBlock b') := by
  rcases secAlloc_spec sys (hok.each b hb) hok.pools (hok.cellsInUse hb) hlen with hnone |
    ⟨word, b', h', cs₁, t, halloc, hc, hg, hfresh, hzero, hroom⟩
  · exact .inl hnone
  · right
    have hok' := hc.heapOk hok hb
    have hb' : b' ∈ (h'.setBlock b').blocks :=
      (mem_setBlock hb hc.frame.blocks hc.words b').2 (.inl rfl)
    have hself : update cs b.words cs₁ b'.words = cs₁ := by
      rw [hc.words, update_self]
    refine ⟨word, b', h', _, halloc, hc.words, ⟨(hc.effect hok hb).weaken (fun p n _ => ?_) ?_,
      .inl ⟨b', hb', hc.words, t, hself.symm ▸ hg, hlen⟩, ?_, fun i hi => ?_⟩, hroom,
      fun x hx hunused => ?_⟩
    · refine ⟨?_, False.elim⟩
      rintro ⟨t', -, hfalse, -⟩
      exact hfalse
    · rintro ⟨page, w⟩ n ⟨hpage, -, t', rfl, hg'⟩
      exact ⟨congr (congrArg Ptr.mk hpage) (hg'.words.symm.trans hg.words), hg'.allocated.symm.trans
        hg.allocated⟩
    · rintro n (⟨x, hx, hpage, t', hg', hn⟩ | ⟨-, contents, hcontents, -⟩)
      · obtain rfl := hok.block_inj hx hb hpage
        have hlive : (h.cells t').allocated ≠ 0 := hg'.allocated ▸ hn
        obtain ⟨ht₁, hun⟩ := hc.kept t' hg'.mem hlive id
        have hwords : (h'.cells t').words = (h'.cells t).words :=
          hun.same.words.trans (Nat.succ.inj (hg'.words.trans hg.words.symm))
        obtain rfl := hc.ok.given_inj ht₁ hg.mem hwords
        exact hlive (hfresh hg'.mem)
      · have hnone := hok.malloced b hb
        rw [hcontents] at hnone
        cases hnone
    · rw [hok'.read_eq hb' hc.words (hself.symm ▸ hg)]
      exact hzero i hi
    · rcases (mem_setBlock hb hc.frame.blocks hc.words x).1 hx with rfl | ⟨hx, -⟩
      · exact absurd hunused (hc.ok.used_ne hg hlen)
      · exact hx

/-- The loop over the blocks. -/
theorem allocFrom_spec (hlen : length ≠ 0) {blocks : List Block} {h : Heap} (hok : HeapOk sys h cs)
    (hblocks : ∀ b ∈ blocks, b ∈ h.blocks) :
    (∃ calls, allocFrom sys length blocks h = .ok (none, { h with calls }) ∧
      (Available sys h → (∀ b ∈ blocks, ¬ HasRoom h.cells (cs b.words) length) ∧ calls = h.calls)) ∨
    ∃ p h' cs', allocFrom sys length blocks h = .ok (some p, h') ∧
      Allocates sys h cs h' cs' p length ∧
      (∃ b ∈ blocks, p.page = b.words ∧ HasRoom h.cells (cs b.words) length) ∧ NoNewEmpty h h' := by
  induction blocks generalizing h with
  | nil => exact .inl ⟨h.calls, rfl, fun _ => ⟨fun b hb => absurd hb not_mem_nil, rfl⟩⟩
  | cons b blocks ih =>
    have hb := hblocks b mem_cons_self
    rw [allocFrom]
    rcases secAlloc_effect hok hb hlen with ⟨calls, halloc, hshort⟩ |
      ⟨word, b', h', cs', halloc, hw, hall, hroom, hempty⟩
    · rw [halloc, ok_bind]
      dsimp only
      rw [setBlock_self hok hb]
      have hquiet := quiet_calls hok calls
      rcases ih hquiet.ok (forall_mem_cons.1 hblocks).2 with
        ⟨calls', hnone, hshorts⟩ | ⟨p, h', cs', hsome, hall, ⟨x, hx, hroom⟩, hempty⟩
      · refine .inl ⟨calls', hnone, fun havail => ?_⟩
        obtain ⟨hnot, rfl⟩ := hshort havail
        obtain ⟨hshorts, hcalls⟩ := hshorts havail
        refine ⟨fun x hx => ?_, hcalls⟩
        rcases mem_cons.1 hx with rfl | hx
        · exact hnot
        · exact hshorts x hx
      · exact .inr ⟨p, h', cs', hsome, hall.of_quiet hquiet,
          ⟨x, mem_cons_of_mem _ hx, hroom⟩, hempty⟩
    · rw [halloc]
      exact .inr ⟨_, _, cs', by rw [← hw]; rfl, hall, ⟨b, mem_cons_self, rfl, hroom⟩, hempty⟩

/-- A size in whole pages. -/
def wholePages (sys : System) (size : Nat) : Nat :=
  (size + getpagesize sys - 1) / getpagesize sys * getpagesize sys

/-- `sec_acquire_pages`: the pages are not mapped before, and their size is that of whole pages. -/
theorem secAcquirePages_spec (sys : System) (h : Heap) (size : Nat) :
    (secAcquirePages sys h size = (none, { h with calls := h.calls + 1 }) ∧ ¬ Available sys h) ∨
    ∃ words, secAcquirePages sys h size =
        (some (words, wholePages sys size), { h with calls := h.calls + 1 }) ∧
      h.mapped words = false ∧ wholePages sys size % getpagesize sys = 0 ∧
      size ≤ wholePages sys size := by
  have hpos : 0 < getpagesize sys := Nat.two_pow_pos _
  unfold secAcquirePages
  cases hmmap : sys.mmap h.calls h.mapped with
  | none => exact .inl ⟨rfl, fun havail => havail.mmap hmmap⟩
  | some pages =>
    cases hlock : sys.mlock h.calls with
    | false =>
      refine .inl ⟨rfl, fun havail => ?_⟩
      rw [(havail.grants _ le_rfl).1] at hlock
      cases hlock
    | true =>
      refine .inr ⟨pages.val, rfl, pages.property, Nat.mul_mod_left _ _, ?_⟩
      unfold wholePages
      have hdiv := Nat.div_add_mod (size + getpagesize sys - 1) (getpagesize sys)
      have hmod := Nat.mod_lt (size + getpagesize sys - 1) hpos
      rw [Nat.mul_comm] at hdiv
      omega

/-- A block of one unused cell. -/
theorem blockOk_new (item : ItemPtr) (words : Nat) (hn : 2 ≤ n)
    (hc : cells c = { words := 0, nWords := n, allocated := 0, next := some c, prev := some c }) :
    BlockOk cells { item, words, nWords := n, used := 0, unused := some c,
                    mem := secWriteGuards (fun _ => .byte 0) cells c } [c] := by
  have hw : (cells c).words = 0 ∧ (cells c).nWords = n ∧ (cells c).allocated = 0 := by
    rw [hc]
    exact ⟨rfl, rfl, rfl⟩
  refine ⟨⟨hw.1, guarded_secWriteGuards _ (by omega), ?_⟩, nodup_singleton c, fun p hp => ?_,
    ⟨[c], ⟨nodup_singleton c, rfl, ?_, ?_⟩, fun p => ?_⟩, fun p hp hlive => ?_, ?_, ?_⟩
  · change 0 + (cells c).nWords = n
    omega
  · obtain rfl := mem_singleton.1 hp
    refine ⟨by rw [hw.2.2]; exact Nat.zero_le _, fun a _ _ => clean_secWriteGuards (.inl rfl)⟩
  · change (cells c).next = some c
    rw [hc]
  · change (cells c).prev = some c
    rw [hc]
  · constructor
    · intro hp
      obtain rfl := mem_singleton.1 hp
      exact ⟨hp, hw.2.2⟩
    · exact fun hp => hp.1
  · obtain rfl := mem_singleton.1 hp
    exact absurd hw.2.2 hlive
  · simp [sizes, hw.2.2]
  · exact isChain_singleton _

theorem not_mapped {base : Nat} (hmapped : h.mapped base = false) :
    (∀ x ∈ h.blocks, x.words ≠ base) ∧ h.malloced base = none := by
  simp only [Heap.mapped, Bool.or_eq_false_iff, any_eq_false, beq_iff_eq] at hmapped
  exact ⟨hmapped.1.2, Option.not_isSome_iff_eq_none.1 (by simp [hmapped.2])⟩

/-- A block without memory in use is added. -/
theorem HeapOk.addBlock (hok : HeapOk sys h cs)
    (hmapped : (∀ x ∈ h.blocks, x.words ≠ b.words) ∧ h.malloced b.words = none) (hpools : PoolsOk h'.pools)
    (huse : ∀ q, InUse h.pools q → InUse h'.pools q ∧ h'.cells q = h.cells q)
    (hblocks : h'.blocks = b :: h.blocks) (hmalloced : h'.malloced = h.malloced)
    (hb : BlockOk h'.cells b [c]) (hfree : (h'.cells c).allocated = 0) (hne : b.item ≠ c)
    (hitem : ¬ InUse h.pools b.item ∧ InUse h'.pools b.item) (hcell : ¬ InUse h.pools c ∧ InUse h'.pools c)
    (haligned : b.nWords * 8 % getpagesize sys = 0) :
    Quiet sys h cs h' (update cs b.words [c]) := by
  have hself : update cs b.words [c] b.words = [c] := update_self ..
  have hside : ∀ x ∈ h.blocks, update cs b.words [c] x.words = cs x.words :=
    fun x hx => update_of_ne (hmapped.1 x hx) ..
  have hcells : ∀ x ∈ h.blocks, ∀ q ∈ x.item :: cs x.words, InUse h'.pools q ∧
      h'.cells q = h.cells q ∧ q ≠ b.item ∧ q ≠ c := by
    intro x hx q hq
    have hin := hok.inUse x hx q hq
    exact ⟨(huse q hin).1, (huse q hin).2, fun heq => hitem.1 (heq ▸ hin), fun heq => hcell.1 (heq ▸ hin)⟩
  have hpair : ∀ q, q ∈ b.item :: [c] ↔ q = b.item ∨ q = c := by
    intro q
    rw [mem_cons, mem_singleton]
  have hmem : ∀ x, x ∈ h'.blocks ↔ x = b ∨ x ∈ h.blocks := by
    intro x
    rw [hblocks, mem_cons]
  have hok' : HeapOk sys h' (update cs b.words [c]) := by
    refine ⟨hpools, fun x hx => ?_, fun x hx => ?_, fun x hx q hq => ?_, fun x hx y hy hxy q hq => ?_,
      ?_, fun x hx => ?_, fun x hx => ?_⟩
    · rcases (hmem x).1 hx with rfl | hx
      · rw [hself]
        exact hb
      · rw [hside x hx]
        exact (hok.each x hx).congr fun q hq => (hcells x hx q (mem_cons_of_mem _ hq)).2.1
    · rcases (hmem x).1 hx with rfl | hx
      · rw [hself, mem_singleton]
        exact hne
      · rw [hside x hx]
        exact hok.item x hx
    · rcases (hmem x).1 hx with rfl | hx
      · rw [hself] at hq
        rcases (hpair q).1 hq with rfl | rfl
        · exact hitem.2
        · exact hcell.2
      · rw [hside x hx] at hq
        exact (hcells x hx q hq).1
    · rcases (hmem x).1 hx with hxb | hx' <;> rcases (hmem y).1 hy with hyb | hy'
      · exact absurd (by rw [hxb, hyb]) hxy
      · rw [hside y hy']
        rw [hxb, hself] at hq
        intro hqy
        obtain ⟨-, -, hqi, hqc⟩ := hcells y hy' q hqy
        exact ((hpair q).1 hq).elim hqi hqc
      · rw [hside x hx'] at hq
        rw [hyb, hself]
        obtain ⟨-, -, hqi, hqc⟩ := hcells x hx' q hq
        exact fun hqb => ((hpair q).1 hqb).elim hqi hqc
      · rw [hside x hx'] at hq
        rw [hside y hy']
        exact hok.apart x hx' y hy' hxy q hq
    · rw [hblocks, map_cons, nodup_cons]
      refine ⟨fun hin => ?_, hok.pages⟩
      obtain ⟨x, hx, heq⟩ := mem_map.1 hin
      exact hmapped.1 x hx heq
    · rw [hmalloced]
      rcases (hmem x).1 hx with rfl | hx
      · exact hmapped.2
      · exact hok.malloced x hx
    · rcases (hmem x).1 hx with rfl | hx
      · exact ⟨haligned, by have := hb.tiles.length_le; rw [length_singleton] at this; omega⟩
      · exact hok.aligned x hx
  refine quiet_of_keeps hok hok' (fun x hx t ht _ => ?_) (fun x hx t ht hlive => ?_) hmalloced
  · exact ⟨(hmem x).2 (.inr hx), hside x hx, (hcells x hx t (mem_cons_of_mem _ ht)).2.1⟩
  · rcases (hmem x).1 hx with rfl | hx
    · rw [hself, mem_singleton] at ht
      exact absurd (ht ▸ hfree) hlive
    · rw [hside x hx] at ht
      exact ⟨hx, (hside x hx).symm, (hcells x hx t (mem_cons_of_mem _ ht)).2.1.symm⟩

theorem secInsertCellRing_none (hnext : (cells c).next = none) (hprev : (cells c).prev = none) :
    secInsertCellRing cells none c =
      .ok (setPrev (setNext cells c (some c)) c (some c), some c) := by
  unfold secInsertCellRing
  rw [cAssert_of_true (Option.some_ne_none c).symm, cAssert_of_true hnext, cAssert_of_true hprev]
  simp only [ok_bind, pure_eq_ok, setPrev_next, setNext_next, setPrev_prev, if_true, Option.bind_some,
    cAssert_of_true]

/-- The words of the block that is created for memory of a length. -/
def newWords (sys : System) (length : Nat) : Nat :=
  wholePages sys (if length < defaultBlockSize then defaultBlockSize else length) / 8

/-- A block that was added: its words are one unused cell. -/
structure Adds (sys : System) (h : Heap) (b : Block) (h' : Heap) (cs' : Nat → List ItemPtr)
    (nWords : Nat) : Prop where
  blocks : h'.blocks = b :: h.blocks
  malloced : h'.malloced = h.malloced
  calls : h.calls ≤ h'.calls
  new : b ∉ h.blocks
  used : b.used = 0
  cell : ∃ c, cs' b.words = [c] ∧ (h'.cells c).allocated = 0 ∧ (h'.cells c).nWords = nWords

/-- `sec_block_create` fails, or adds a block. -/
theorem secBlockCreate_spec (hok : HeapOk sys h cs) (size : Nat) :
    (∃ h', secBlockCreate sys h size = .ok (none, h') ∧ Quiet sys h cs h' cs ∧
      ¬ Available sys h ∧ h'.blocks = h.blocks) ∨
    ∃ b h' cs', secBlockCreate sys h size = .ok (some b, h') ∧ Quiet sys h cs h' cs' ∧
      Adds sys h b h' cs' (newWords sys size) := by
  unfold secBlockCreate
  rcases poolAlloc_spec sys hok.pools with ⟨calls, halloc, hnot⟩ |
    ⟨item, pools₁, calls₁, halloc, hpools₁, hitem, huse₁, hcalls₁⟩
  · rw [halloc]
    exact .inl ⟨_, rfl, quiet_calls hok calls, hnot, rfl⟩
  rw [halloc, ok_bind]
  dsimp only
  have hkeep₁ : ∀ q, InUse h.pools q → InUse pools₁ q ∧
      update h.cells item zeroCell q = h.cells q := by
    intro q hq
    have hqi : q ≠ item := fun heq => hitem (heq ▸ hq)
    exact ⟨(huse₁ q).2 (.inl hq), update_of_ne hqi ..⟩
  have hsecond := poolAlloc_spec sys
    (h := { h with
            pools := pools₁
            calls := calls₁
            cells := update h.cells item zeroCell }) hpools₁
  rcases hsecond with ⟨calls, halloc₂, hnot⟩ |
    ⟨cell, pools₂, calls₂, halloc₂, hpools₂, hcell, huse₂, hcalls₂⟩
  · -- no cell: the item of the block is given back
    obtain ⟨pools₃, cells₃, hfree, hpools₃, huse₃, hcells₃⟩ := poolFree_spec
      (h := { h with pools := pools₁, calls, cells := update h.cells item zeroCell })
      hpools₁ ((huse₁ item).2 (.inr rfl))
    rw [halloc₂, ok_bind]
    dsimp only
    rw [hfree]
    refine .inl ⟨_, rfl, quiet_of_same hok hpools₃ (fun q hq => ⟨?_, ?_⟩) rfl rfl,
      fun havail => hnot (havail.of_heap hcalls₁ rfl), rfl⟩
    · exact (huse₃ q).2 ⟨(hkeep₁ q hq).1, fun heq => hitem (heq ▸ hq)⟩
    · exact (hcells₃ q fun heq => hitem (heq ▸ hq)).trans (hkeep₁ q hq).2
  · rw [halloc₂, ok_bind]
    dsimp only
    have hne : item ≠ cell := fun heq => hcell (heq ▸ (huse₁ item).2 (.inr rfl))
    have hitem₂ : InUse pools₂ item := (huse₂ item).2 (.inl ((huse₁ item).2 (.inr rfl)))
    have hcell₂ : InUse pools₂ cell := (huse₂ cell).2 (.inr rfl)
    have hcell₀ : ¬ InUse h.pools cell := fun hq => hcell ((huse₁ cell).2 (.inl hq))
    generalize hk : update (update h.cells item zeroCell) cell zeroCell = k
    have hkeep₂ : ∀ q, InUse h.pools q → InUse pools₂ q ∧ k q = h.cells q := by
      intro q hq
      have hqc : q ≠ cell := fun heq => hcell₀ (heq ▸ hq)
      refine ⟨(huse₂ q).2 (.inl (hkeep₁ q hq).1), ?_⟩
      rw [← hk, update_of_ne hqc]
      exact (hkeep₁ q hq).2
    have hkc : k cell = zeroCell := by rw [← hk, update_self]
    generalize hsize : (if size < defaultBlockSize then defaultBlockSize else size) = size'
    have hbig : defaultBlockSize ≤ size' := by
      rw [← hsize]
      split
      · exact le_rfl
      · omega
    have hcalls : h.calls ≤ calls₂ := hcalls₁.trans hcalls₂
    rcases secAcquirePages_spec sys { h with pools := pools₂, calls := calls₂, cells := k } size' with
      ⟨hpages, hnot⟩ | ⟨words, hpages, hmapped, haligned, hn⟩
    · -- no pages: both items are given back
      rw [hpages]
      dsimp only
      obtain ⟨pools₃, cells₃, hfree, hpools₃, huse₃, hcells₃⟩ := poolFree_spec
        (h := { h with pools := pools₂, calls := calls₂ + 1, cells := k }) hpools₂ hitem₂
      obtain ⟨pools₄, cells₄, hfree', hpools₄, huse₄, hcells₄⟩ := poolFree_spec
        (h := { h with pools := pools₃, calls := calls₂ + 1, cells := cells₃ }) hpools₃
        ((huse₃ cell).2 ⟨hcell₂, hne.symm⟩)
      rw [hfree, ok_bind, hfree']
      refine .inl ⟨_, rfl, quiet_of_same hok hpools₄ (fun q hq => ?_) rfl rfl,
        fun havail => hnot (havail.of_heap hcalls rfl), rfl⟩
      have hqi : q ≠ item := fun heq => hitem (heq ▸ hq)
      have hqc : q ≠ cell := fun heq => hcell₀ (heq ▸ hq)
      refine ⟨(huse₄ q).2 ⟨(huse₃ q).2 ⟨(hkeep₂ q hq).1, hqi⟩, hqc⟩, ?_⟩
      exact (hcells₄ q hqc).trans ((hcells₃ q hqi).trans (hkeep₂ q hq).2)
    · rw [hpages]
      dsimp only
      have hnew : newWords sys size = wholePages sys size' / 8 := by rw [newWords, hsize]
      rw [hnew]
      generalize wholePages sys size' = n at hn haligned
      generalize hk' : update k cell
        { k cell with words := 0, nWords := n / 8, allocated := 0 } = k'
      have hk'c : k' cell = { words := 0, nWords := n / 8, allocated := 0, next := none, prev := none } := by
        rw [← hk', update_self, hkc]
        rfl
      rw [secInsertCellRing_none (by rw [hk'c]) (by rw [hk'c])]
      right
      have hpage : 4096 ≤ getpagesize sys := Nat.pow_le_pow_right (n := 2) (by decide) sys.large
      have hk'p : ∀ q, q ≠ cell → setPrev (setNext k' cell (some cell)) cell (some cell) q = k q := by
        intro q hq
        rw [setPrev_of_ne hq, setNext_of_ne hq, ← hk', update_of_ne hq]
      have hfinal : setPrev (setNext k' cell (some cell)) cell (some cell) cell =
          { words := 0, nWords := n / 8, allocated := 0, next := some cell, prev := some cell } := by
        simp [setPrev, setNext, hk'c]
      have hguards : secWriteGuards (fun _ => .byte 0) k' cell =
          secWriteGuards (fun _ => .byte 0) (setPrev (setNext k' cell (some cell)) cell (some cell))
            cell :=
        secWriteGuards_congr _ (by rw [hfinal, hk'c]) (by rw [hfinal, hk'c])
      rw [hguards]
      have hwords := not_mapped hmapped
      refine ⟨_, _, update cs words [cell], rfl, ?_, rfl, rfl, hcalls.trans (Nat.le_succ _),
        fun hmem => hwords.1 _ hmem rfl, rfl, cell, update_self .., ?_, ?_⟩
      rotate_left
      · change (setPrev (setNext k' cell (some cell)) cell (some cell) cell).allocated = 0
        rw [hfinal]
      · change (setPrev (setNext k' cell (some cell)) cell (some cell) cell).nWords = n / 8
        rw [hfinal]
      apply hok.addBlock (c := cell) (b := ⟨item, words, n / 8, 0, some cell,
        secWriteGuards (fun _ => .byte 0) (setPrev (setNext k' cell (some cell)) cell (some cell)) cell⟩)
      · exact hwords
      · exact hpools₂
      · intro q hq
        have hqc : q ≠ cell := fun heq => hcell₀ (heq ▸ hq)
        exact ⟨(hkeep₂ q hq).1, (hk'p q hqc).trans (hkeep₂ q hq).2⟩
      · rfl
      · rfl
      · exact blockOk_new item words (by simp only [defaultBlockSize] at hbig; omega) hfinal
      · change (setPrev (setNext k' cell (some cell)) cell (some cell) cell).allocated = 0
        rw [hfinal]
      · exact hne
      · exact ⟨hitem, hitem₂⟩
      · exact ⟨hcell₀, hcell₂⟩
      · have hdvd : 8 ∣ getpagesize sys := Nat.pow_dvd_pow 2 (by have := sys.large; omega : 3 ≤ sys.shift)
        change n / 8 * 8 % getpagesize sys = 0
        rw [Nat.div_mul_cancel (hdvd.trans (Nat.dvd_of_mod_eq_zero haligned))]
        exact haligned

/-! ## Memory outside of the blocks -/

/-- The memory outside at an address without a block is replaced. -/
theorem malloc_effect (hok : HeapOk sys h cs) {base : Nat} (hbase : ∀ x ∈ h.blocks, x.words ≠ base)
    (v : Option (List MemVal)) (calls : Nat) :
    Effect sys h cs { h with malloced := update h.malloced base v, calls } cs
      (fun p => p = ⟨base, 0⟩)
      (fun p n => p = ⟨base, 0⟩ ∧ ∃ contents, v = some contents ∧ contents.length = n) := by
  have hok' : HeapOk sys { h with malloced := update h.malloced base v, calls } cs := by
    refine ⟨hok.pools, hok.each, hok.item, hok.inUse, hok.apart, hok.pages, fun x hx => ?_, hok.aligned⟩
    change update h.malloced base v x.words = none
    rw [update_of_ne (hbase x hx)]
    exact hok.malloced x hx
  refine ⟨hok', ?_, ?_⟩
  · rintro p n (⟨x, hx, hpage, t, hg, hn⟩ | ⟨hword, contents, hcontents, hlength⟩) hold
    · refine ⟨.inl ⟨x, hx, hpage, t, hg, hn⟩, fun i _ => ?_⟩
      rw [hok'.read_eq hx hpage hg, hok.read_eq hx hpage hg]
    · have hne : p.page ≠ base := by
        obtain ⟨page, word⟩ := p
        rintro rfl
        exact hold (congrArg (Ptr.mk page) hword)
      have hcontents' : update h.malloced base v p.page = some contents := by
        rw [update_of_ne hne]
        exact hcontents
      refine ⟨.inr ⟨hword, contents, hcontents', hlength⟩, fun i _ => ?_⟩
      rw [hok'.read_malloced hcontents', hok.read_malloced hcontents]
  · rintro p n (⟨x, hx, hpage, t, hg, hn⟩ | ⟨hword, contents, hcontents, hlength⟩)
    · refine .inr ⟨.inl ⟨x, hx, hpage, t, hg, hn⟩, ?_⟩
      rintro rfl
      exact hbase x hx hpage
    · change update h.malloced base v p.page = some contents at hcontents
      obtain ⟨page, word⟩ := p
      obtain rfl : word = 0 := hword
      by_cases hpage : page = base
      · subst hpage
        rw [update_self] at hcontents
        exact .inl ⟨rfl, contents, hcontents, hlength⟩
      · rw [update_of_ne hpage] at hcontents
        refine .inr ⟨.inr ⟨rfl, contents, hcontents, hlength⟩, fun heq => hpage ?_⟩
        exact congrArg Ptr.page heq

/-- New memory outside, filled with zeros. -/
theorem allocFallback_spec (hok : HeapOk sys h cs) (hlen : length ≠ 0) :
    (∃ h', allocFallback sys h length = (none, h') ∧ Quiet sys h cs h' cs ∧ h'.blocks = h.blocks) ∨
    ∃ p h', allocFallback sys h length = (some p, h') ∧ Allocates sys h cs h' cs p length := by
  unfold allocFallback eggMemoryFallback
  simp only [if_neg hlen]
  cases sys.realloc h.calls (Heap.mapped { h with malloced := h.malloced }) with
  | none => exact .inl ⟨_, rfl, quiet_calls hok _, rfl⟩
  | some base =>
    right
    simp only [update_idem]
    refine ⟨_, _, rfl, ?_⟩
    obtain ⟨hbase, hnone⟩ := not_mapped (h := h) base.property
    have heffect := malloc_effect hok hbase (some (replicate length (.byte 0))) (h.calls + 1)
    have hfresh : ∀ n, ¬ LiveAt h cs ⟨base, 0⟩ n := by
      rintro n (⟨x, hx, hpage, -⟩ | ⟨-, contents, hcontents, -⟩)
      · exact hbase x hx hpage
      · rw [hnone] at hcontents
        cases hcontents
    have hnew : update h.malloced base.val (some (replicate length (.byte 0))) base.val =
        some (replicate length (.byte 0)) := update_self ..
    refine ⟨heffect.weaken (fun p n hlive => ⟨?_, False.elim⟩) ?_,
      .inr ⟨rfl, _, hnew, length_replicate⟩, hfresh, fun i hi => ?_⟩
    · rintro rfl
      exact hfresh n hlive
    · rintro p n ⟨rfl, contents, hcontents, hlength⟩
      cases hcontents
      exact ⟨rfl, hlength.symm.trans length_replicate⟩
    · rw [heffect.ok.read_malloced hnew]
      simp [getD_eq_getElem?_getD, hi]

/-- A block that is created for memory of a length has room for it, with a pointer before and after. -/
def LeavesRoom (sys : System) (length : Nat) : Prop :=
  secSizeToWords length + 2 ≤ newWords sys length

theorem allocNew_spec (hok : HeapOk sys h cs) (hlen : length ≠ 0) :
    (∃ h' cs', allocNew sys h length = .ok (none, h') ∧ Quiet sys h cs h' cs' ∧
      (Available sys h → ¬ LeavesRoom sys length ∧ ¬ NoNewEmpty h h')) ∨
    ∃ p h' cs', allocNew sys h length = .ok (some p, h') ∧ Allocates sys h cs h' cs' p length ∧
      LeavesRoom sys length ∧ NoNewEmpty h h' := by
  unfold allocNew
  rcases secBlockCreate_spec hok length with ⟨h', hcreate, hq, hnot, -⟩ | ⟨b, h', cs', hcreate, hq, hadds⟩
  · rw [hcreate]
    exact .inl ⟨h', cs, rfl, hq, fun havail => absurd havail hnot⟩
  · rw [hcreate, ok_bind]
    have hb : b ∈ h'.blocks := hadds.blocks ▸ mem_cons_self
    have hmem : ∀ x ∈ [b], x ∈ h'.blocks := fun x hx => mem_singleton.1 hx ▸ hb
    obtain ⟨c, hcell, hfree, hwords⟩ := hadds.cell
    have hroom : HasRoom h'.cells (cs' b.words) length ↔ LeavesRoom sys length := by
      unfold HasRoom LeavesRoom
      rw [hcell]
      simp only [mem_singleton, exists_eq_left, hfree, hwords, true_and]
    rcases allocFrom_spec hlen hq.ok hmem with ⟨calls, hnone, hshort⟩ |
      ⟨p, h'', cs'', hsome, hall, ⟨x, hx, hpage, hroom'⟩, hempty⟩
    · refine .inl ⟨_, cs', hnone, hq.trans_left (quiet_calls hq.ok calls), fun havail => ⟨?_, ?_⟩⟩
      · obtain ⟨hshort, -⟩ := hshort (havail.of_heap hadds.calls hadds.malloced)
        exact fun hleaves => hshort b mem_cons_self (hroom.2 hleaves)
      · -- the new block stays
        exact fun hempty => hadds.new (hempty b hb hadds.used)
    · obtain rfl := mem_singleton.1 hx
      refine .inr ⟨p, h'', cs'', hsome, hall.of_quiet hq, hroom.1 hroom', fun y hy hzero => ?_⟩
      have hy' := hempty y hy hzero
      rw [hadds.blocks] at hy'
      rcases mem_cons.1 hy' with rfl | hy'
      · rcases hall.live with ⟨z, hz, hzpage, t, hg, hn⟩ | ⟨-, contents, hcontents, -⟩
        · obtain rfl := hall.effect.ok.block_inj hz hy (hzpage.trans hpage)
          exact absurd hzero ((hall.effect.ok.each z hz).used_ne hg hn)
        · have hnone := hall.effect.ok.malloced y hy
          rw [← hpage, hcontents] at hnone
          cases hnone
      · exact hy'

/-- A length that is not refused at once. -/
def Sane (length : Nat) : Prop := length ≠ 0 ∧ length ≤ 0xffffffff / 2

instance (length : Nat) : Decidable (Sane length) := inferInstanceAs (Decidable (_ ∧ _))

/-- There is a cell for memory of a length, or there would be one in a new block. -/
def Allocatable (sys : System) (h : Heap) (cs : Nat → List ItemPtr) (length : Nat) : Prop :=
  (∃ b ∈ h.blocks, HasRoom h.cells (cs b.words) length) ∨ LeavesRoom sys length

/-- `egg_secure_alloc_full` returns null and leaves the memory of the clients alone, or it returns new
memory of the length that is asked for. Where the system does not fail, it returns null only when there
is no cell and would be none in a new block; the new block stays. -/
theorem eggSecureAllocFull_spec (hok : HeapOk sys h cs) (length : Nat) (fallback : Bool) :
    (∃ h' cs', eggSecureAllocFull sys h length fallback = .ok (none, h') ∧ Quiet sys h cs h' cs' ∧
      if Sane length then Available sys h → ¬ Allocatable sys h cs length ∧ ¬ NoNewEmpty h h'
      else NoNewEmpty h h') ∨
    ∃ p h' cs', eggSecureAllocFull sys h length fallback = .ok (some p, h') ∧ length ≠ 0 ∧
      Allocates sys h cs h' cs' p length ∧
      (Available sys h → Allocatable sys h cs length → NoNewEmpty h h') ∧
      (fallback = false → Allocatable sys h cs length ∧ NoNewEmpty h h') := by
  have hquiet := quiet_calls hok h.calls
  unfold eggSecureAllocFull
  by_cases hinsane : length > 0xffffffff / 2
  · rw [if_pos hinsane]
    refine .inl ⟨h, cs, rfl, hquiet, ?_⟩
    rw [if_neg fun hsane => not_le.2 hinsane hsane.2]
    exact fun _ hb _ => hb
  rw [if_neg hinsane]
  by_cases hlen : length = 0
  · rw [if_pos hlen]
    refine .inl ⟨h, cs, rfl, hquiet, ?_⟩
    rw [if_neg fun hsane => hsane.1 hlen]
    exact fun _ hb _ => hb
  rw [if_neg hlen]
  have hsane : Sane length := ⟨hlen, not_lt.1 hinsane⟩
  rcases allocFrom_spec hlen hok (fun b hb => hb) with ⟨calls, hnone, hshort⟩ |
    ⟨p, h', cs', hsome, hall, ⟨b, hb, -, hroom⟩, hempty⟩
  swap
  · rw [hsome]
    exact .inr ⟨p, h', cs', rfl, hlen, hall, fun _ _ => hempty, fun _ =>
      ⟨.inl ⟨b, hb, hroom⟩, hempty⟩⟩
  rw [hnone, ok_bind]
  dsimp only
  have hquiet₁ := quiet_calls hok calls
  rcases allocNew_spec hquiet₁.ok hlen with ⟨h₂, cs₂, hnone₂, hq₂, hleft⟩ |
    ⟨p, h₂, cs₂, hsome, hall, hleaves, hempty⟩
  swap
  · rw [hsome]
    exact .inr ⟨p, h₂, cs₂, rfl, hlen, hall.of_quiet hquiet₁, fun _ _ => hempty, fun _ =>
      ⟨.inr hleaves, hempty⟩⟩
  rw [hnone₂, ok_bind]
  dsimp only
  have hquiet₂ : Quiet sys h cs h₂ cs₂ := hquiet₁.trans_left hq₂
  have hfails : Available sys h → ¬ Allocatable sys h cs length ∧ ¬ NoNewEmpty h h₂ := by
    intro havail
    obtain ⟨hnot, rfl⟩ := hshort havail
    obtain ⟨hleft, hempty⟩ := hleft havail
    refine ⟨?_, hempty⟩
    rintro (⟨b, hb, hroom⟩ | hleaves)
    · exact hnot b hb hroom
    · exact hleft hleaves
  cases fallback with
  | false =>
    refine .inl ⟨h₂, cs₂, rfl, hquiet₂, ?_⟩
    rw [if_pos hsane]
    exact hfails
  | true =>
    rw [if_pos rfl]
    rcases allocFallback_spec hq₂.ok hlen with ⟨h₃, hnone₃, hq₃, hblocks⟩ | ⟨p, h₃, hsome, hall⟩
    · rw [hnone₃]
      refine .inl ⟨h₃, cs₂, rfl, hquiet₂.trans_left hq₃, ?_⟩
      rw [if_pos hsane]
      unfold NoNewEmpty
      rw [hblocks]
      exact hfails
    · rw [hsome]
      refine .inr ⟨p, h₃, cs₂, rfl, hlen, hall.of_quiet hquiet₂, fun havail hroom =>
        absurd hroom (hfails havail).1, fun hfalse => by cases hfalse⟩

/-! ## Freeing -/

/-- The cells of the ring are given back one after another. -/
theorem releaseCells_spec {fuel : Nat} {h : Heap} {ring : Option ItemPtr} {rs : List ItemPtr}
    (hring : IsRing h.cells ring rs) (hpools : PoolsOk h.pools) (hrs : ∀ c ∈ rs, InUse h.pools c)
    (hfuel : rs.length < fuel) :
    ∃ pools cells, releaseCells fuel ring h = .ok { h with pools, cells } ∧ PoolsOk pools ∧
      (∀ q, InUse pools q ↔ InUse h.pools q ∧ q ∉ rs) ∧ ∀ q, q ∉ rs → cells q = h.cells q := by
  induction fuel generalizing h ring rs with
  | zero => omega
  | succ fuel ih =>
    cases rs with
    | nil =>
      obtain rfl : none = ring := hring.head
      exact ⟨h.pools, h.cells, rfl, hpools, by simp, fun _ _ => rfl⟩
    | cons c rs =>
      obtain rfl : some c = ring := hring.head
      obtain ⟨cells₁, ring₁, hremove, -, -, -, ⟨rs₁, hring₁, hrs₁⟩, hothers⟩ :=
        secRemoveCellRing_spec hring mem_cons_self
      obtain ⟨pools₂, cells₂, hfree, hpools₂, huse₂, hcells₂⟩ :=
        poolFree_spec (h := { h with cells := cells₁ }) hpools (hrs c mem_cons_self)
      have hring₂ : IsRing cells₂ ring₁ rs₁ := by
        refine hring₁.congr fun p hp => ?_
        rw [hcells₂ p ((hrs₁ p).1 hp).2]
        exact ⟨rfl, rfl⟩
      have hlength : rs₁.length < fuel := by
        have hnodup : (c :: rs₁).Nodup :=
          nodup_cons.2 ⟨fun hmem => ((hrs₁ c).1 hmem).2 rfl, hring₁.nodup⟩
        have hsub : c :: rs₁ ⊆ c :: rs := by
          intro p hp
          rcases mem_cons.1 hp with rfl | hp
          · exact mem_cons_self
          · exact ((hrs₁ p).1 hp).1
        have := (hnodup.subperm hsub).length_le
        rw [length_cons] at this hfuel
        rw [length_cons] at this
        omega
      obtain ⟨pools, cells, hrelease, hpools', huse', hcells'⟩ :=
        ih (h := { h with pools := pools₂, cells := cells₂ }) hring₂ hpools₂ (fun p hp =>
          (huse₂ p).2 ⟨hrs p ((hrs₁ p).1 hp).1, ((hrs₁ p).1 hp).2⟩) hlength
      refine ⟨pools, cells, ?_, hpools', fun q => ?_, fun q hq => ?_⟩
      · rw [releaseCells, hremove, ok_bind]
        dsimp only
        rw [hfree, ok_bind]
        exact hrelease
      · rw [huse' q, huse₂ q, hrs₁ q]
        constructor
        · rintro ⟨⟨hq, hne⟩, hnot⟩
          exact ⟨hq, fun hmem => hnot ⟨hmem, hne⟩⟩
        · rintro ⟨hq, hnot⟩
          exact ⟨⟨hq, fun heq => hnot (heq ▸ mem_cons_self)⟩, fun hmem => hnot hmem.1⟩
      · have hqc : q ≠ c := fun heq => hq (heq ▸ mem_cons_self)
        have hq₁ : q ∉ rs₁ := fun hmem => hq ((hrs₁ q).1 hmem).1
        exact (hcells' q hq₁).trans ((hcells₂ q hqc).trans (hothers q hq))

/-- A block without memory in use is taken away. -/
theorem HeapOk.removeBlock (hok : HeapOk sys h cs) (hb : b ∈ h.blocks)
    (hfree : ∀ t ∈ cs b.words, (h.cells t).allocated = 0) (hpools : PoolsOk h'.pools)
    (huse : ∀ q, InUse h.pools q → q ∉ b.item :: cs b.words →
      InUse h'.pools q ∧ h'.cells q = h.cells q)
    (hblocks : h'.blocks = h.blocks.filter fun x => x.words ≠ b.words)
    (hmalloced : h'.malloced = h.malloced) : Quiet sys h cs h' cs := by
  have hmem : ∀ x, x ∈ h'.blocks ↔ x ∈ h.blocks ∧ x.words ≠ b.words := by
    intro x
    rw [hblocks, mem_filter, decide_eq_true_eq]
  have hkeep : ∀ x ∈ h.blocks, x.words ≠ b.words → ∀ q ∈ x.item :: cs x.words,
      InUse h'.pools q ∧ h'.cells q = h.cells q :=
    fun x hx hne q hq => huse q (hok.inUse x hx q hq) (hok.apart x hx b hb hne q hq)
  have hok' : HeapOk sys h' cs := by
    refine ⟨hpools, fun x hx => ?_, fun x hx => ?_, fun x hx q hq => ?_, fun x hx y hy => ?_, ?_,
      fun x hx => ?_, fun x hx => ?_⟩
    · obtain ⟨hx, hne⟩ := (hmem x).1 hx
      exact (hok.each x hx).congr fun q hq => (hkeep x hx hne q (mem_cons_of_mem _ hq)).2
    · exact hok.item x ((hmem x).1 hx).1
    · obtain ⟨hx, hne⟩ := (hmem x).1 hx
      exact (hkeep x hx hne q hq).1
    · exact hok.apart x ((hmem x).1 hx).1 y ((hmem y).1 hy).1
    · rw [hblocks]
      exact hok.pages.sublist (filter_sublist.map _)
    · rw [hmalloced]
      exact hok.malloced x ((hmem x).1 hx).1
    · exact hok.aligned x ((hmem x).1 hx).1
  refine quiet_of_keeps hok hok' (fun x hx t ht hlive => ?_) (fun x hx t ht _ => ?_) hmalloced
  · have hne : x.words ≠ b.words := by
      intro heq
      obtain rfl := hok.block_inj hx hb heq
      exact hlive (hfree t ht)
    exact ⟨(hmem x).2 ⟨hx, hne⟩, rfl, (hkeep x hx hne t (mem_cons_of_mem _ ht)).2⟩
  · obtain ⟨hx, hne⟩ := (hmem x).1 hx
    exact ⟨hx, rfl, (hkeep x hx hne t (mem_cons_of_mem _ ht)).2.symm⟩

/-- `sec_block_destroy` of a block without memory in use. -/
theorem secBlockDestroy_spec (hok : HeapOk sys h cs) (hb : b ∈ h.blocks) (hused : b.used = 0) :
    ∃ h', secBlockDestroy sys h b = .ok h' ∧ Quiet sys h cs h' cs ∧
      ∀ x, x ∈ h'.blocks ↔ x ∈ h.blocks ∧ x.words ≠ b.words := by
  have hbok := hok.each b hb
  have hfree : ∀ t ∈ cs b.words, (h.cells t).allocated = 0 := by
    intro t ht
    have hcount := hbok.used.symm.trans hused
    rw [countP_eq_zero] at hcount
    have := hcount (h.cells t).allocated (mem_map_of_mem ht)
    simpa using this
  obtain ⟨rs, hring, hrs⟩ := hbok.ring
  have hrs' : ∀ q, q ∈ rs ↔ q ∈ cs b.words := fun q =>
    (hrs q).trans ⟨fun hq => hq.1, fun hq => ⟨hq, hfree q hq⟩⟩
  have hlength := hbok.ring_length hring.nodup fun q hq => (hrs' q).1 hq
  obtain ⟨pools, cells, hrelease, hpools, huse, hcells⟩ := releaseCells_spec
    (h := { h with blocks := h.blocks.filter fun x => x.words ≠ b.words }) hring hok.pools
    (fun q hq => hok.cellsInUse hb q ((hrs' q).1 hq)) (Nat.lt_succ_of_le hlength)
  have hitem : InUse pools b.item := (huse b.item).2
    ⟨hok.inUse b hb b.item mem_cons_self, fun hmem => hok.item b hb ((hrs' _).1 hmem)⟩
  obtain ⟨pools', cells', hfreed, hpools', huse', hcells'⟩ := poolFree_spec
    (h := { h with
            blocks := h.blocks.filter fun x => x.words ≠ b.words
            pools := pools
            cells := cells }) hpools hitem
  have hfound : (h.blocks.any fun x => x.words = b.words) = true := any_eq_true.2 ⟨b, hb, by simp⟩
  unfold secBlockDestroy
  rw [cAssert_of_true hused, ok_bind, cAssert_of_true hfound, ok_bind]
  dsimp only
  rw [hrelease, ok_bind, cAssert_of_true (hok.aligned b hb).1, ok_bind, hfreed]
  refine ⟨_, rfl, hok.removeBlock hb hfree hpools' (fun q hq hnot => ?_) rfl rfl, fun x => by
    rw [mem_filter, decide_eq_true_eq]⟩
  have hqi : q ≠ b.item := fun heq => hnot (heq ▸ mem_cons_self)
  have hqrs : q ∉ rs := fun hmem => hnot (mem_cons_of_mem _ ((hrs' q).1 hmem))
  exact ⟨(huse' q).2 ⟨(huse q).2 ⟨hq, hqrs⟩, hqi⟩, (hcells' q hqi).trans (hcells q hqrs)⟩

/-- Memory that is freed is gone. -/
abbrev Frees (sys : System) (h : Heap) (cs : Nat → List ItemPtr) (h' : Heap)
    (cs' : Nat → List ItemPtr) (p : Ptr) : Prop :=
  Effect sys h cs h' cs' (fun q => q = p) (fun _ _ => False)

/-- `egg_secure_free_full` of memory that is in use: of a block, or outside with the flag. -/
theorem eggSecureFreeFull_spec (hok : HeapOk sys h cs) (hlive : LiveAt h cs p n) {fallback : Bool}
    (hflag : (h.blockOf p).isNone → fallback = true) :
    ∃ h' cs', eggSecureFreeFull sys h (some p) fallback = .ok h' ∧ Frees sys h cs h' cs' p ∧
      NoNewEmpty h h' := by
  unfold eggSecureFreeFull
  dsimp only
  rcases hlive with ⟨b, hb, hpage, t, hg, hn⟩ | ⟨hword, contents, hcontents, hlength⟩
  · rw [hok.blockOf_eq hb hpage ((hok.each b hb).given_lt hg)]
    obtain ⟨b', h', cs₁, hfree, hc⟩ :=
      secFree_spec (hok.each b hb) hok.pools (hok.cellsInUse hb) hg hn
    have hp : p = ⟨b.words, (h.cells t).words + 1⟩ := by
      obtain ⟨page, word⟩ := p
      rw [Ptr.mk.injEq]
      exact ⟨hpage.symm, hg.words.symm⟩
    have heffect : Frees sys h cs (h'.setBlock b') (update cs b.words cs₁) p := by
      refine (hc.effect hok hb).weaken (fun q m _ => ⟨?_, ?_⟩) ?_
      · rintro ⟨t', -, rfl, -, rfl⟩
        exact hp.symm
      · rintro rfl
        exact ⟨t, hg.mem, rfl, hg.allocated ▸ hn, hp⟩
      · rintro q m ⟨-, -, t', hfalse, -⟩
        exact hfalse
    dsimp only
    rw [hfree, ok_bind]
    have hmem := mem_setBlock hb hc.frame.blocks hc.words
    by_cases hused : b'.used = 0
    · have hb' : b' ∈ (h'.setBlock b').blocks := (hmem b').2 (.inl rfl)
      obtain ⟨h'', hdestroy, hquiet, hblocks⟩ := secBlockDestroy_spec heffect.ok hb' hused
      rw [if_pos hused]
      refine ⟨h'', _, hdestroy, (Effect.trans heffect hquiet).weaken (fun q m _ => ?_) ?_,
        fun x hx _ => ?_⟩
      · exact ⟨fun hq => hq.resolve_right id, .inl⟩
      · rintro q m (hfalse | ⟨hfalse, -⟩)
        · exact hfalse
        · exact hfalse
      · obtain ⟨hx, hne⟩ := (hblocks x).1 hx
        rcases (hmem x).1 hx with rfl | ⟨hx, -⟩
        · exact absurd rfl hne
        · exact hx
    · rw [if_neg hused]
      refine ⟨_, _, rfl, heffect, fun x hx hunused => ?_⟩
      rcases (hmem x).1 hx with rfl | ⟨hx, -⟩
      · exact absurd hunused hused
      · exact hx
  · have hnone := hok.blockOf_none hcontents
    rw [hnone] at hflag ⊢
    obtain rfl := hflag rfl
    have hbase : ∀ x ∈ h.blocks, x.words ≠ p.page := by
      intro x hx heq
      have := hok.malloced x hx
      rw [heq, hcontents] at this
      cases this
    have hp : p = ⟨p.page, 0⟩ := by
      obtain ⟨page, word⟩ := p
      exact congrArg (Ptr.mk page) hword
    refine ⟨_, cs, rfl, ?_⟩
    change Frees sys h cs { h with malloced := update h.malloced p.page none } cs p ∧ _
    refine ⟨(malloc_effect hok hbase none h.calls).weaken (fun q m _ => by rw [← hp]) ?_,
      fun x hx _ => hx⟩
    rintro q m ⟨-, contents', hcontents', -⟩
    cases hcontents'

/-! ## Reallocating -/

/-- The memory at an address has one length. -/
theorem HeapOk.live_unique (hok : HeapOk sys h cs) {m n : Nat} (hm : LiveAt h cs p m) (hn : LiveAt h cs p n) :
    m = n := by
  rcases hm with ⟨b, hb, hpage, t, hg, -⟩ | ⟨hword, contents, hcontents, hlength⟩ <;>
    rcases hn with ⟨b', hb', hpage', t', hg', -⟩ | ⟨hword', contents', hcontents', hlength'⟩
  · obtain rfl := hok.block_inj hb hb' (hpage.trans hpage'.symm)
    have hwords : (h.cells t).words = (h.cells t').words :=
      Nat.succ.inj (hg.words.trans hg'.words.symm)
    obtain rfl := (hok.each b hb).given_inj hg.mem hg'.mem hwords
    exact hg.allocated.symm.trans hg'.allocated
  · exact absurd hword' (by have := hg.words; omega)
  · exact absurd hword (by have := hg'.words; omega)
  · rw [hcontents] at hcontents'
    cases hcontents'
    exact hlength.symm.trans hlength'

/-- Bytes are copied into memory in use. -/
theorem copy_spec (hok : HeapOk sys h cs) {n m : Nat} (offset : Nat) (hlive : LiveAt h cs p n)
    (hm : offset + m ≤ n) (src : Nat → MemVal) :
    Effect sys h cs (h.copy p offset src m) cs (fun q => q = p) (fun q k => q = p ∧ k = n) ∧
      LiveAt (h.copy p offset src m) cs p n ∧
      ∀ i < n, (h.copy p offset src m).read p i =
        if offset ≤ i ∧ i < offset + m then src (i - offset) else h.read p i := by
  rcases hlive with ⟨b, hb, hpage, t, hg, hn⟩ | ⟨hword, contents, hcontents, hlength⟩
  · have hbok := hok.each b hb
    have hlt := hbok.given_lt hg
    have hcopy : h.copy p offset src m =
        h.setBlock { b with mem := memcpy b.mem (8 * p.word + offset) src m } := by
      unfold Heap.copy
      rw [hok.blockOf_eq hb hpage hlt]
    have hw := hg.words
    have ha := hg.allocated
    have hc := Change.store (memcpy b.mem (8 * p.word + offset) src m) hbok hok.pools
      (hok.cellsInUse hb) hg.mem (ha ▸ hn) fun a ha => if_neg (by omega)
    have hcs : update cs b.words (cs b.words) = cs := update_eq_self b.words cs
    have heffect := hc.effect hok hb
    have hok' := hc.heapOk hok hb
    rw [hcs] at heffect hok'
    have hb' := (mem_setBlock hb hc.frame.blocks hc.words _).2 (.inl rfl)
    have hp : p = ⟨b.words, (h.cells t).words + 1⟩ := by
      obtain ⟨page, word⟩ := p
      rw [Ptr.mk.injEq]
      exact ⟨hpage.symm, hg.words.symm⟩
    rw [hcopy]
    refine ⟨heffect.weaken (fun q k _ => ⟨?_, ?_⟩) ?_, .inl ⟨_, hb', hpage, t, hg, hn⟩, fun i hi => ?_⟩
    · rintro ⟨t', -, rfl, -, rfl⟩
      exact hp.symm
    · rintro rfl
      exact ⟨t, hg.mem, rfl, ha ▸ hn, hp⟩
    · rintro ⟨page, word⟩ k ⟨hqpage, -, t', rfl, hg'⟩
      refine ⟨?_, hg'.allocated.symm.trans ha⟩
      rw [hp, Ptr.mk.injEq]
      exact ⟨hqpage, hg'.words.symm⟩
    · rw [hok'.read_eq hb' hpage hg, hok.read_eq hb hpage hg]
      change (if _ then _ else _) = _
      by_cases hin : offset ≤ i ∧ i < offset + m
      · rw [if_pos hin, if_pos (by omega)]
        congr 1
        omega
      · rw [if_neg hin, if_neg (by omega)]
  · have hbase : ∀ x ∈ h.blocks, x.words ≠ p.page := by
      intro x hx heq
      have := hok.malloced x hx
      rw [heq, hcontents] at this
      cases this
    have hcopy : h.copy p offset src m =
        { h with malloced := update h.malloced p.page (some ((List.range contents.length).map
            (memcpy (fun i => contents.getD i (.byte 0)) offset src m))) } := by
      unfold Heap.copy
      rw [hok.blockOf_none hcontents, hcontents]
      rfl
    have heffect := malloc_effect hok hbase (some ((List.range contents.length).map
      (memcpy (fun i => contents.getD i (.byte 0)) offset src m))) h.calls
    have hp : p = ⟨p.page, 0⟩ := by
      obtain ⟨page, word⟩ := p
      exact congrArg (Ptr.mk page) hword
    have hnew : update h.malloced p.page (some ((List.range contents.length).map
        (memcpy (fun i => contents.getD i (.byte 0)) offset src m))) p.page =
        some ((List.range contents.length).map
          (memcpy (fun i => contents.getD i (.byte 0)) offset src m)) := update_self ..
    rw [hcopy]
    refine ⟨heffect.weaken (fun q k _ => by rw [← hp]) ?_, .inr ⟨hword, _, hnew, ?_⟩, fun i hi => ?_⟩
    · rintro q k ⟨rfl, contents', hcontents', hlength'⟩
      cases hcontents'
      refine ⟨hp.symm, ?_⟩
      rw [← hlength', length_map, length_range, hlength]
    · rw [length_map, length_range, hlength]
    · rw [heffect.ok.read_malloced hnew, hok.read_malloced hcontents]
      have hi' : i < contents.length := by omega
      simp only [getD_eq_getElem?_getD, getElem?_map, getElem?_range hi',
        Option.map_some, Option.getD_some]
      rfl

theorem copy_noNewEmpty (hok : HeapOk sys h cs) (hlive : LiveAt h cs p n) (offset m : Nat)
    (src : Nat → MemVal) : NoNewEmpty h (h.copy p offset src m) := by
  intro x hx hunused
  unfold Heap.copy at hx
  rcases hlive with ⟨b, hb, hpage, t, hg, hn⟩ | ⟨hword, contents, hcontents, hlength⟩
  · rw [hok.blockOf_eq hb hpage ((hok.each b hb).given_lt hg)] at hx
    have hmem : ∀ b', b'.words = b.words → (x ∈ (h.setBlock b').blocks ↔ _) := fun b' hwords =>
      mem_setBlock hb rfl hwords x
    rcases (hmem { b with mem := memcpy b.mem (8 * p.word + offset) src m } rfl).1 hx with rfl | ⟨hx, -⟩
    · exact absurd hunused ((hok.each b hb).used_ne hg hn)
    · exact hx
  · rw [hok.blockOf_none hcontents] at hx
    exact hx

/-- Only the memory at `p` may have changed, and it did not. -/
theorem Effect.quiet {m : Nat} (hok : HeapOk sys h cs)
    (heffect : Effect sys h cs h' cs' (fun q => q = p) (fun q k => q = p ∧ k = m)) (hlive : LiveAt h cs p m)
    (hlive' : LiveAt h' cs' p m) (hread : ∀ i < m, h'.read p i = h.read p i) : Quiet sys h cs h' cs' := by
  refine ⟨heffect.ok, fun q n hq _ => ?_, fun q n hq => .inr ⟨?_, id⟩⟩
  · by_cases hqp : q = p
    · subst hqp
      obtain rfl := hok.live_unique hlive hq
      exact ⟨hlive', hread⟩
    · exact heffect.kept q n hq hqp
  · rcases heffect.only q n hq with ⟨rfl, rfl⟩ | ⟨hq, -⟩
    · exact hlive
    · exact hq

/-- Memory of `m` bytes becomes memory of `n` bytes. -/
structure Reallocates (sys : System) (h : Heap) (cs : Nat → List ItemPtr) (h' : Heap)
    (cs' : Nat → List ItemPtr) (p q : Ptr) (m n : Nat) : Prop where
  effect : Effect sys h cs h' cs' (fun r => r = p) (fun r k => r = q ∧ k = n)
  live : LiveAt h' cs' q n
  fresh : ∀ k, LiveAt h cs q k → q = p
  read : ∀ i, i < m → i < n → h'.read q i = h.read p i

theorem Quiet.reallocates {p q : Ptr} {m n : Nat} (h₁ : Quiet sys h cs h' cs') (hlive : LiveAt h cs p m)
    (h₂ : Reallocates sys h' cs' h'' cs'' p q m n) : Reallocates sys h cs h'' cs'' p q m n :=
  ⟨h₁.trans_left h₂.effect, h₂.live, fun k hq => h₂.fresh k (h₁.kept q k hq id).1, fun i him hin =>
    (h₂.read i him hin).trans ((h₁.kept p m hlive id).2 i him)⟩

/-- The memory moves: it is allocated anew, copied and freed. -/
theorem move_spec (hok : HeapOk sys h cs) {m length : Nat} (hlive : LiveAt h cs p m) (hword : p.word ≠ 0)
    (hml : m ≤ length) (fallback : Bool) :
    (∃ h' cs', eggSecureAllocFull sys h length fallback = .ok (none, h') ∧ Quiet sys h cs h' cs' ∧
      (Available sys h → Sane length → ¬ Allocatable sys h cs length)) ∨
    ∃ q h₁ h' cs', eggSecureAllocFull sys h length fallback = .ok (some q, h₁) ∧
      eggSecureFreeFull sys (h₁.copy q 0 (h₁.read p) m) (some p) fallback = .ok h' ∧
      Reallocates sys h cs h' cs' p q m length ∧
      (∀ i, m ≤ i → i < length → h'.read q i = .byte 0) ∧
      (Available sys h → Allocatable sys h cs length → NoNewEmpty h h') := by
  rcases eggSecureAllocFull_spec hok length fallback with ⟨h', cs', hnone, hquiet, hfails⟩ |
    ⟨q, h₁, cs₁, halloc, -, hall, hempty, -⟩
  · refine .inl ⟨h', cs', hnone, hquiet, fun havail hsane => ?_⟩
    rw [if_pos hsane] at hfails
    exact (hfails havail).1
  right
  have hqp : p ≠ q := fun heq => hall.fresh m (heq ▸ hlive)
  obtain ⟨hlive₁, hread₁⟩ := hall.effect.kept p m hlive id
  obtain ⟨hcopy, hlive₂, hread₂⟩ := copy_spec hall.effect.ok 0 hall.live
    (by omega : 0 + m ≤ length) (h₁.read p)
  obtain ⟨hlive₂p, -⟩ := hcopy.kept p m hlive₁ hqp
  have hflag : ((h₁.copy q 0 (h₁.read p) m).blockOf p).isNone → fallback = true := by
    intro hnone
    rcases hlive₂p with ⟨b, hb, hpage, t, hg, -⟩ | ⟨hzero, -⟩
    · rw [hcopy.ok.blockOf_eq hb hpage ((hcopy.ok.each b hb).given_lt hg)] at hnone
      cases hnone
    · exact absurd hzero hword
  obtain ⟨h', cs', hfree, hfrees, hfreed⟩ := eggSecureFreeFull_spec hcopy.ok hlive₂p hflag
  obtain ⟨hlive₃, hread₃⟩ := hfrees.kept q length hlive₂ hqp.symm
  refine ⟨q, h₁, h', cs', halloc, hfree, ⟨?_, hlive₃, fun k hq => absurd hq (hall.fresh k),
    fun i him hil => ?_⟩, fun i hmi hil => ?_, fun havail hroom => ?_⟩
  · refine ((hall.effect.trans hcopy).trans hfrees).weaken (fun r k hr => ⟨?_, fun heq => .inr heq⟩) ?_
    · rintro ((hfalse | rfl) | heq)
      · exact hfalse.elim
      · exact absurd hr (hall.fresh k)
      · exact heq
    · rintro r k (hfalse | ⟨heq | ⟨heq, -⟩, -⟩)
      · exact hfalse.elim
      · exact heq
      · exact heq
  · rw [hread₃ i hil, hread₂ i hil, if_pos (by omega), Nat.sub_zero, hread₁ i him]
  · rw [hread₃ i hil, hread₂ i hil, if_neg (by omega), hall.zero i hil]
  · exact ((hempty havail hroom).trans (copy_noNewEmpty hall.effect.ok hall.live 0 m _)).trans hfreed

/-- `egg_memory_fallback` as `realloc`. -/
theorem fallback_reallocates (hok : HeapOk sys h cs) (hword : p.word = 0)
    (hcontents : h.malloced p.page = some contents) (hlen : length ≠ 0) :
    (∃ h', eggMemoryFallback sys h (some p) length = (none, h') ∧ Quiet sys h cs h' cs ∧
      h'.blocks = h.blocks) ∨
    ∃ q h', eggMemoryFallback sys h (some p) length = (some q, h') ∧
      Reallocates sys h cs h' cs p q contents.length length ∧ h'.blocks = h.blocks := by
  have hbase : ∀ x ∈ h.blocks, x.words ≠ p.page := by
    intro x hx heq
    have := hok.malloced x hx
    rw [heq, hcontents] at this
    cases this
  have hp : p = ⟨p.page, 0⟩ := by
    obtain ⟨page, word⟩ := p
    exact congrArg (Ptr.mk page) hword
  unfold eggMemoryFallback
  simp only [if_neg hlen, Option.bind_some, hcontents, Option.getD_some]
  cases sys.realloc h.calls
      (Heap.mapped { h with malloced := update h.malloced p.page none }) with
  | none => exact .inl ⟨_, rfl, quiet_calls hok _, rfl⟩
  | some base =>
    right
    refine ⟨_, _, rfl, ?_, rfl⟩
    generalize hfresh : ((List.range length).map fun i =>
      (contents ++ (sys.garbage h.calls).drop contents.length).getD i (.byte 0)) = fresh
    have hlength : fresh.length = length := by rw [← hfresh, length_map, length_range]
    have hfreed := malloc_effect hok hbase none h.calls
    obtain ⟨hbase', -⟩ := not_mapped base.property
    have hnew := malloc_effect hfreed.ok hbase' (some fresh) (h.calls + 1)
    have hself : update (update h.malloced p.page none) base.val (some fresh)
        base.val = some fresh := update_self ..
    have hnotlive : ∀ k, ¬ LiveAt { h with malloced := update h.malloced p.page none } cs
        ⟨base, 0⟩ k := by
      rintro k (⟨x, hx, hpage, -⟩ | ⟨-, contents', hcontents', -⟩)
      · exact hbase' x hx hpage
      · have := (not_mapped base.property).2
        rw [hcontents'] at this
        cases this
    have hmoved : ∀ k, LiveAt h cs ⟨base, 0⟩ k → ⟨base, 0⟩ = p := by
      intro k hr
      by_contra hne
      exact hnotlive k (hfreed.kept _ k hr fun heq => hne (heq.trans hp.symm)).1
    refine ⟨(hfreed.trans hnew).weaken (fun r k hr => ⟨?_, ?_⟩) ?_,
      .inr ⟨rfl, fresh, hself, hlength⟩, hmoved, fun i hi hil => ?_⟩
    · rintro (rfl | rfl)
      · exact hp.symm
      · exact hmoved k hr
    · rintro rfl
      exact .inl hp
    · rintro r k (⟨rfl, contents', hcontents', hlength'⟩ | ⟨⟨rfl, contents', hcontents', -⟩, -⟩)
      · cases hcontents'
        exact ⟨rfl, hlength'.symm.trans hlength⟩
      · cases hcontents'
    · rw [hnew.ok.read_malloced hself, hok.read_malloced hcontents, ← hfresh]
      simp [getD_eq_getElem?_getD, hil, getElem?_append_left hi]

/-- Memory in a block is made longer in its block, or there is a cell for it in another block, or there
would be one in a new block. -/
def RoomToMove (sys : System) (h : Heap) (cs : Nat → List ItemPtr) (p : Ptr) (length : Nat) : Prop :=
  ∀ b, h.blockOf p = some b → (∃ r b' h', secRealloc sys h b p.word length = .ok (some r, b', h')) ∨
    (∃ x ∈ h.blocks, x.words ≠ p.page ∧ HasRoom h.cells (cs x.words) length) ∨ LeavesRoom sys length

/-- `egg_secure_realloc_full` of memory in use, to a length that is not zero. What memory of a block
grows by is zero, but where its cell was long enough before: there it is what the cell held. -/
theorem eggSecureReallocFull_spec (hok : HeapOk sys h cs) {m length : Nat} (hlive : LiveAt h cs p m)
    (hlen : length ≠ 0) {fallback : Bool} (hflag : (h.blockOf p).isNone → fallback = true) :
    (∃ h' cs', eggSecureReallocFull sys h (some p) length fallback = .ok (none, h') ∧
      Quiet sys h cs h' cs' ∧
      (Available sys h → (Sane length → RoomToMove sys h cs p length) → NoNewEmpty h h') ∧
      (length ≤ 0xffffffff / 2 → ∀ b ∈ h.blocks, b.words = p.page → ∀ t,
        Given h.cells (cs b.words) t p.word m → ¬ secSizeToWords length + 2 ≤ (h.cells t).nWords)) ∨
    ∃ q h' cs', eggSecureReallocFull sys h (some p) length fallback = .ok (some q, h') ∧
      Reallocates sys h cs h' cs' p q m length ∧
      (Available sys h → (Sane length → RoomToMove sys h cs p length) → NoNewEmpty h h') ∧
      ∀ b ∈ h.blocks, b.words = p.page → ∀ t, Given h.cells (cs b.words) t p.word m →
        ∀ i, m ≤ i → i < length → h'.read q i =
          if secSizeToWords length + 2 ≤ (h.cells t).nWords then h.read p i else .byte 0 := by
  unfold eggSecureReallocFull
  by_cases hinsane : length > 0xffffffff / 2
  · rw [if_pos hinsane]
    exact .inl ⟨h, cs, rfl, quiet_calls hok h.calls, fun _ _ _ hb _ => hb,
      fun hsane => absurd hsane (not_le.2 hinsane)⟩
  rw [if_neg hinsane]
  have hsane : Sane length := ⟨hlen, not_lt.1 hinsane⟩
  dsimp only
  rw [if_neg hlen]
  rcases hlive with ⟨b, hb, hpage, t, hg, hn⟩ | ⟨hword, contents, hcontents, hlength⟩
  · have hbok := hok.each b hb
    have hcs := hok.cellsInUse hb
    have hlive : LiveAt h cs p m := .inl ⟨b, hb, hpage, t, hg, hn⟩
    have hp : p = ⟨b.words, (h.cells t).words + 1⟩ := by
      obtain ⟨page, word⟩ := p
      rw [Ptr.mk.injEq]
      exact ⟨hpage.symm, hg.words.symm⟩
    have hold : ∀ q, (∃ t' ∈ cs b.words, t' = t ∧ (h.cells t').allocated ≠ 0 ∧
        q = ⟨b.words, (h.cells t').words + 1⟩) ↔ q = p := by
      intro q
      constructor
      · rintro ⟨t', -, rfl, -, rfl⟩
        exact hp.symm
      · rintro rfl
        exact ⟨t, hg.mem, rfl, hg.allocated ▸ hn, hp⟩
    have honly : ∀ x ∈ h.blocks, x.words = p.page → ∀ t₁, Given h.cells (cs x.words) t₁ p.word m →
        t₁ = t := by
      intro x hx hxpage t₁ hg₁
      obtain rfl := hok.block_inj hx hb (hxpage.trans hpage.symm)
      exact hbok.given_inj hg₁.mem hg.mem (Nat.succ.inj (hg₁.words.trans hg.words.symm))
    have hprevious : secAllocated h b p.word = .ok m := by
      have hl : (h.cells t).allocated ≠ 0 := hg.allocated ▸ hn
      unfold secAllocated
      rw [cellOfMemory_eq hbok.tiles hok.pools (hcs t hg.mem) hg, ok_bind,
        assertInUse_eq (hbok.loose t hg.mem hl) hl, ok_bind, hg.allocated]
      rfl
    rw [hok.blockOf_eq hb hpage (hbok.given_lt hg)]
    dsimp only
    rw [hprevious, ok_bind]
    rcases secRealloc_spec sys hbok hok.pools hcs hg hn hlen with
      ⟨b', h', cs₁, hrealloc, hgrown, hml, hshort, hcalls⟩ |
      ⟨alloc, b', h', cs₁, t', hrealloc, hc, hg', hfresh, hread, hmore⟩
    · -- the block has no room: the memory stays until it is moved
      have hc := hgrown.change
      have hok' := hc.heapOk hok hb
      have hb' : b' ∈ (h'.setBlock b').blocks :=
        (mem_setBlock hb hc.frame.blocks hc.words b').2 (.inl rfl)
      have hself : update cs b.words cs₁ b'.words = cs₁ := by
        rw [hc.words, update_self]
      have hg' : Given h'.cells cs₁ t p.word m :=
        ⟨hgrown.mem, by rw [hgrown.words, hg.words], by rw [hgrown.allocated, hg.allocated]⟩
      have hlive' : LiveAt (h'.setBlock b') (update cs b.words cs₁) p m :=
        .inl ⟨b', hb', hc.words.trans hpage, t, hself.symm ▸ hg', hn⟩
      have hquiet : Quiet sys h cs (h'.setBlock b') (update cs b.words cs₁) := by
        refine Effect.quiet (p := p) (m := m) hok ((hc.effect hok hb).weaken (fun q _ _ => hold q) ?_)
          hlive hlive' fun i hi => ?_
        · rintro ⟨page, word⟩ k ⟨hqpage, -, t', rfl, hg''⟩
          refine ⟨?_, hg''.allocated.symm.trans hg'.allocated⟩
          rw [hp, Ptr.mk.injEq]
          exact ⟨hqpage, hg''.words.symm.trans (congrArg (· + 1) hgrown.words)⟩
        · rw [hok'.read_eq hb' (hc.words.trans hpage) (hself.symm ▸ hg'), hok.read_eq hb hpage hg]
          have := hg.words
          have := hg.allocated
          exact hgrown.payload _ (by omega) (by omega)
      have hword : p.word ≠ 0 := by have := hg.words; omega
      have hempty₁ : NoNewEmpty h (h'.setBlock b') := by
        intro x hx hunused
        rcases (mem_setBlock hb hc.frame.blocks hc.words x).1 hx with rfl | ⟨hx, -⟩
        · exact absurd hunused (hc.ok.used_ne hg' hn)
        · exact hx
      have havail₁ : Available sys h → Available sys (h'.setBlock b') := fun havail =>
        havail.of_heap (hcalls havail).ge hc.frame.malloced
      -- the other blocks are as they were
      have hroom₁ : RoomToMove sys h cs p length →
          Allocatable sys (h'.setBlock b') (update cs b.words cs₁) length := by
        intro hroom
        rcases hroom b (hok.blockOf_eq hb hpage (hbok.given_lt hg)) with ⟨r, b'', h'', hsome⟩ |
          ⟨x, hx, hxpage, c, hc', hfree, hlong⟩ | hleaves
        · rw [hrealloc] at hsome
          cases hsome
        · have hne : x.words ≠ b.words := fun heq => hxpage (heq.trans hpage)
          have heq := (hc.other hok hb hx hne (mem_cons_of_mem _ hc')).2.1
          refine .inl ⟨x, (mem_setBlock hb hc.frame.blocks hc.words x).2 (.inr ⟨hx, hne⟩), c, ?_, ?_⟩
          · rw [update_of_ne hne]
            exact hc'
          · change (h'.cells c).allocated = 0 ∧ _ ≤ (h'.cells c).nWords
            rw [heq]
            exact ⟨hfree, hlong⟩
        · exact .inr hleaves
      rw [hrealloc, ok_bind]
      rw [if_neg (hc.ok.used_ne hg' hn)]
      simp only [pure_eq_ok, ok_bind]
      rcases move_spec hok' hlive' hword hml.le fallback with ⟨h'', cs'', hnone, hquiet', hfails⟩ |
        ⟨q, h₁, h'', cs'', halloc, hfree, hrealloc', hzero, hempty₂⟩
      · rw [hnone]
        refine .inl ⟨h'', cs'', rfl, hquiet.trans_left hquiet', fun havail hroom => ?_,
          fun _ x hx hxpage t₁ hg₁ => ?_⟩
        · exact absurd (hroom₁ (hroom hsane)) (hfails (havail₁ havail) hsane)
        · obtain rfl := honly x hx hxpage t₁ hg₁
          exact hshort
      · rw [halloc, ok_bind]
        dsimp only
        rw [hfree]
        refine .inr ⟨q, h'', cs'', rfl, hquiet.reallocates hlive hrealloc', fun havail hroom =>
          hempty₁.trans (hempty₂ (havail₁ havail) (hroom₁ (hroom hsane))), ?_⟩
        intro x hx hxpage t₁ hg₁ i hmi hil
        obtain rfl := honly x hx hxpage t₁ hg₁
        rw [if_neg hshort]
        exact hzero i hmi hil
    · -- in the block
      right
      have hok' := hc.heapOk hok hb
      have hb' : b' ∈ (h'.setBlock b').blocks :=
        (mem_setBlock hb hc.frame.blocks hc.words b').2 (.inl rfl)
      have hself : update cs b.words cs₁ b'.words = cs₁ := by
        rw [hc.words, update_self]
      rw [hrealloc, ok_bind]
      rw [if_neg (hc.ok.used_ne hg' hlen)]
      have hreadq : ∀ i, (h'.setBlock b').read ⟨b'.words, alloc⟩ i = b'.mem (8 * alloc + i) :=
        hok'.read_eq (p := ⟨b'.words, alloc⟩) hb' rfl (hself.symm ▸ hg')
      refine ⟨_, _, _, rfl, ⟨(hc.effect hok hb).weaken (fun q _ _ => hold q) ?_,
        .inl ⟨b', hb', rfl, t', hself.symm ▸ hg', hlen⟩, ?_, fun i him hil => ?_⟩,
        fun _ _ x hx hunused => ?_, ?_⟩
      · rintro ⟨page, word⟩ k ⟨hqpage, -, t'', rfl, hg''⟩
        refine ⟨?_, hg''.allocated.symm.trans hg'.allocated⟩
        rw [Ptr.mk.injEq]
        exact ⟨hqpage.trans hc.words.symm, hg''.words.symm.trans hg'.words⟩
      · rintro k (⟨x, hx, hxpage, t'', hg'', hk⟩ | ⟨-, contents, hcontents, -⟩)
        · -- a cell that stays does not begin where the new one does
          obtain rfl := hok.block_inj hx hb (hxpage.trans hc.words)
          have hl : (h.cells t'').allocated ≠ 0 := hg''.allocated ▸ hk
          have htt : t'' = t := by
            by_contra hne
            obtain ⟨ht₁, hun⟩ := hc.kept t'' hg''.mem hl hne
            have hwords : (h'.cells t'').words = (h'.cells t').words :=
              hun.same.words.trans (Nat.succ.inj (hg''.words.trans hg'.words.symm))
            obtain rfl := hc.ok.given_inj ht₁ hg'.mem hwords
            exact hne (hfresh hg''.mem hl)
          subst htt
          rw [hp, Ptr.mk.injEq]
          exact ⟨hc.words, hg''.words.symm⟩
        · have hnone := hok.malloced b hb
          rw [← hc.words, hcontents] at hnone
          cases hnone
      · rw [hreadq, hok.read_eq hb hpage hg]
        exact hread i him hil
      · rcases (mem_setBlock hb hc.frame.blocks hc.words x).1 hx with rfl | ⟨hx, -⟩
        · exact absurd hunused (hc.ok.used_ne hg' hlen)
        · exact hx
      · intro x hx hxpage t₁ hg₁ i hmi hil
        obtain rfl := honly x hx hxpage t₁ hg₁
        rw [hreadq, hok.read_eq hb hpage hg]
        exact hmore i hmi hil
  · have hnone := hok.blockOf_none hcontents
    rw [hnone] at hflag ⊢
    obtain rfl := hflag rfl
    subst hlength
    have hnot : ∀ x ∈ h.blocks, x.words ≠ p.page := by
      intro x hx hxpage
      exact absurd hcontents (by rw [← hxpage, hok.malloced x hx]; exact (Option.some_ne_none _).symm)
    rcases fallback_reallocates hok hword hcontents hlen with
      ⟨h', hnone', hquiet, hblocks⟩ | ⟨q, h', hsome, hrealloc, hblocks⟩
    · rw [hnone']
      exact .inl ⟨h', cs, rfl, hquiet, fun _ _ x hx _ => hblocks ▸ hx,
        fun _ x hx hxpage => absurd hxpage (hnot x hx)⟩
    · rw [hsome]
      exact .inr ⟨q, h', cs, rfl, hrealloc, fun _ _ x hx _ => hblocks ▸ hx,
        fun x hx hxpage => absurd hxpage (hnot x hx)⟩

end MateKeyring.Egg
