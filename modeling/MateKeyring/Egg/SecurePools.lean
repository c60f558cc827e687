import Mathlib.Data.List.Nodup
import Mathlib.Data.List.Perm.Subperm
import MateKeyring.Egg.SecureMemory

/-!
# The pools behind secure memory

What `pool_alloc` and `pool_free` do to the items in use: an allocated item was not in use before
(`poolAlloc_spec`), and a freed one is no longer in use while all the others are, also when the pool
of the last one is given back (`poolFree_spec`).
-/

set_option autoImplicit false

namespace MateKeyring.Egg

open List

variable {pool' : Pool} {sys : System} {h : Heap}

/-- An item of the pool that is not on its stack. -/
def Pool.Uses (pool : Pool) (item : ItemPtr) : Prop :=
  pool.base = item.pool ∧ item.index < pool.nItems ∧ item.index ∉ pool.unused

/-- The item is in use. -/
def InUse (pools : List Pool) (item : ItemPtr) : Prop := ∃ pool ∈ pools, pool.Uses item

/-- The stack and the counter of a pool agree. -/
structure PoolOk (pool : Pool) : Prop where
  nItems : pool.nItems = (pool.length - sizeofPool) / sizeofItem
  nodup : pool.unused.Nodup
  bound : ∀ i ∈ pool.unused, i < pool.nItems
  used : pool.used + pool.unused.length = pool.nItems

structure PoolsOk (pools : List Pool) : Prop where
  each : ∀ pool ∈ pools, PoolOk pool
  nodup : (pools.map Pool.base).Nodup

variable {pools pre post : List Pool} {pool : Pool} {item : ItemPtr}

theorem inUse_append : InUse (pre ++ post) item ↔ InUse pre item ∨ InUse post item := by
  constructor
  · rintro ⟨pool, hmem, huse⟩
    rcases mem_append.1 hmem with hmem | hmem
    · exact .inl ⟨pool, hmem, huse⟩
    · exact .inr ⟨pool, hmem, huse⟩
  · rintro (⟨pool, hmem, huse⟩ | ⟨pool, hmem, huse⟩)
    · exact ⟨pool, mem_append_left _ hmem, huse⟩
    · exact ⟨pool, mem_append_right _ hmem, huse⟩

theorem inUse_cons : InUse (pool :: post) item ↔ pool.Uses item ∨ InUse post item := by
  constructor
  · rintro ⟨p, hmem, huse⟩
    rcases mem_cons.1 hmem with rfl | hmem
    · exact .inl huse
    · exact .inr ⟨p, hmem, huse⟩
  · rintro (huse | ⟨p, hmem, huse⟩)
    · exact ⟨pool, mem_cons_self, huse⟩
    · exact ⟨p, mem_cons_of_mem _ hmem, huse⟩

/-- Another pool does not have the address of this one. -/
theorem PoolsOk.base_ne (hok : PoolsOk (pre ++ pool :: post)) :
    ∀ p, p ∈ pre ∨ p ∈ post → p.base ≠ pool.base := by
  have hnodup := hok.nodup
  rw [map_append, map_cons] at hnodup
  have happ := nodup_append.1 hnodup
  rintro p (hp | hp) heq
  · exact happ.2.2 p.base (mem_map_of_mem hp) pool.base mem_cons_self heq
  · exact (nodup_cons.1 happ.2.1).1 (heq ▸ mem_map_of_mem hp)

theorem PoolsOk.not_inUse_others (hok : PoolsOk (pre ++ pool :: post))
    (hitem : item.pool = pool.base) : ¬ InUse pre item ∧ ¬ InUse post item := by
  refine ⟨?_, ?_⟩
  · rintro ⟨p, hp, huse⟩
    exact hok.base_ne p (.inl hp) (huse.1.trans hitem)
  · rintro ⟨p, hp, huse⟩
    exact hok.base_ne p (.inr hp) (huse.1.trans hitem)

/-- A pool is replaced by one at the same address. -/
theorem PoolsOk.replace (hok : PoolsOk (pre ++ pool :: post)) (hpool : PoolOk pool')
    (hbase : pool'.base = pool.base) : PoolsOk (pre ++ pool' :: post) := by
  refine ⟨fun p hp => ?_, ?_⟩
  · rcases mem_append.1 hp with hp | hp
    · exact hok.each p (mem_append_left _ hp)
    · rcases mem_cons.1 hp with rfl | hp
      · exact hpool
      · exact hok.each p (mem_append_right _ (mem_cons_of_mem _ hp))
  · have hnodup := hok.nodup
    rw [map_append, map_cons] at hnodup ⊢
    rwa [hbase]

/-! ## Allocating an item -/

theorem Pool.pop_eq_some (h : pool.pop = some (item, pool')) :
    ∃ i unused, pool.unused = i :: unused ∧ item = ⟨pool.base, i⟩ ∧
      pool' = { pool with used := pool.used + 1, unused } := by
  unfold Pool.pop at h
  split at h
  · cases h
  · next i unused heq =>
      cases h
      exact ⟨i, unused, heq, rfl, rfl⟩

theorem popFirst_eq_some {pools' : List Pool} (h : popFirst pools = some (item, pools')) :
    ∃ pre pool post pool', pools = pre ++ pool :: post ∧ pools' = pre ++ pool' :: post ∧
      pool.pop = some (item, pool') := by
  induction pools generalizing pools' with
  | nil => cases h
  | cons pool pools ih =>
    rw [popFirst] at h
    split at h
    · next item' pool' heq =>
        cases h
        exact ⟨[], pool, pools, pool', rfl, rfl, heq⟩
    · obtain ⟨r, hr, hcons⟩ := Option.map_eq_some_iff.1 h
      cases hcons
      obtain ⟨pre, p, post, p', rfl, hpools', hpop⟩ := ih hr
      exact ⟨pool :: pre, p, post, p', rfl, by rw [hpools']; rfl, hpop⟩

/-- The popped item was not in use, and is now. -/
theorem Pool.pop_spec (hpool : PoolOk pool) (h : pool.pop = some (item, pool')) :
    PoolOk pool' ∧ pool'.base = pool.base ∧ item.pool = pool.base ∧ ¬ pool.Uses item ∧
      ∀ q, pool'.Uses q ↔ pool.Uses q ∨ q = item := by
  obtain ⟨i, unused, hunused, rfl, rfl⟩ := Pool.pop_eq_some h
  have hnodup := hpool.nodup
  rw [hunused] at hnodup
  have hi := nodup_cons.1 hnodup
  have hbound : i < pool.nItems := hpool.bound i (by simp [hunused])
  refine ⟨⟨hpool.nItems, hi.2, ?_, ?_⟩, rfl, rfl, ?_, ?_⟩
  · intro j hj
    exact hpool.bound j (by simp [hunused, hj])
  · have := hpool.used
    rw [hunused, length_cons] at this
    change pool.used + 1 + unused.length = pool.nItems
    omega
  · rintro ⟨-, -, hnot⟩
    exact hnot (by simp [hunused])
  · rintro ⟨base, j⟩
    change (pool.base = base ∧ j < pool.nItems ∧ j ∉ unused) ↔
      (pool.base = base ∧ j < pool.nItems ∧ j ∉ pool.unused) ∨ (⟨base, j⟩ : ItemPtr) = ⟨pool.base, i⟩
    rw [hunused, mem_cons, ItemPtr.mk.injEq]
    constructor
    · rintro ⟨hb, hj, hnot⟩
      by_cases hji : j = i
      · exact .inr ⟨hb.symm, hji⟩
      · exact .inl ⟨hb, hj, by simp [hji, hnot]⟩
    · rintro (⟨hb, hj, hnot⟩ | ⟨hb, rfl⟩)
      · exact ⟨hb, hj, fun hmem => hnot (.inr hmem)⟩
      · exact ⟨hb.symm, hbound, hi.1⟩

theorem poolNew_ok (sys : System) (base : Nat) : PoolOk (poolNew sys base) where
  nItems := rfl
  nodup := nodup_reverse.2 nodup_range
  bound i hi := mem_range.1 (mem_reverse.1 hi)
  used := by simp [poolNew]

/-- Two pages have room for an item. -/
theorem poolNew_pop (sys : System) (base : Nat) : ∃ r, (poolNew sys base).pop = some r := by
  have hpage : 4096 ≤ getpagesize sys := Nat.pow_le_pow_right (n := 2) (by decide) sys.large
  have hlength : (poolNew sys base).unused.length ≠ 0 := by
    have hitems : (poolNew sys base).unused.length = (getpagesize sys * 2 - 80) / 40 := by
      simp [poolNew]
    omega
  unfold Pool.pop
  cases hunused : (poolNew sys base).unused with
  | nil => exact absurd (by rw [hunused]; rfl) hlength
  | cons i unused => exact ⟨_, rfl⟩

theorem poolNew_uses (sys : System) (base : Nat) (item : ItemPtr) :
    ¬ (poolNew sys base).Uses item := by
  rintro ⟨-, hlt, hnot⟩
  exact hnot (mem_reverse.2 (mem_range.2 hlt))

/-- From the `n`-th call on, the system maps and locks pages; there is an address for them. -/
def System.Grants (sys : System) (n : Nat) : Prop :=
  ∀ k ≥ n, sys.mlock k = true ∧ ∀ mapped : Nat → Bool,
    (∃ top, ∀ base ≥ top, mapped base = false) → (sys.mmap k mapped).isSome

theorem System.Grants.mono {m n : Nat} (h : sys.Grants m) (hmn : m ≤ n) : sys.Grants n :=
  fun k hk => h k (hmn.trans hk)

/-- The calls of `pool_alloc` and `sec_acquire_pages` on this heap do not fail. -/
structure Available (sys : System) (h : Heap) : Prop where
  grants : sys.Grants h.calls
  bounded : ∃ top, ∀ base ≥ top, h.malloced base = none

theorem Available.of_heap {h h' : Heap} (hg : Available sys h) (hcalls : h.calls ≤ h'.calls)
    (hmalloced : h'.malloced = h.malloced) : Available sys h' :=
  ⟨hg.grants.mono hcalls, hmalloced.symm ▸ hg.bounded⟩

/-- Pages are mapped. -/
theorem Available.mmap (hg : Available sys h) : sys.mmap h.calls h.mapped ≠ none := by
  obtain ⟨top, htop⟩ := hg.bounded
  have hpools : ∀ pool ∈ h.pools, pool.base ≤ (h.pools.map Pool.base).max?.getD 0 := fun pool hpool =>
    List.le_max?_getD_of_mem (mem_map_of_mem hpool)
  have hblocks : ∀ b ∈ h.blocks, b.words ≤ (h.blocks.map Block.words).max?.getD 0 := fun b hb =>
    List.le_max?_getD_of_mem (mem_map_of_mem hb)
  have hfree : ∀ base ≥ top + (h.pools.map Pool.base).max?.getD 0 +
      (h.blocks.map Block.words).max?.getD 0 + 1, h.mapped base = false := by
    intro base hbase
    unfold Heap.mapped
    rw [htop base (by omega)]
    simp only [Bool.or_eq_false_iff, any_eq_false, beq_iff_eq, Option.isSome_none, and_true]
    refine ⟨fun pool hpool heq => ?_, fun b hb heq => ?_⟩
    · have := hpools pool hpool
      omega
    · have := hblocks b hb
      omega
  exact Option.isSome_iff_ne_none.1 ((hg.grants _ le_rfl).2 _ ⟨_, hfree⟩)

/-- `pool_alloc` fails, or gives an item that was not in use, filled with zeros. -/
theorem poolAlloc_spec (sys : System) (hok : PoolsOk h.pools) :
    (∃ calls, poolAlloc sys h = .ok (none, { h with calls }) ∧ ¬ Available sys h) ∨
    ∃ item pools calls, poolAlloc sys h = .ok (some item,
        { h with pools, calls, cells := Function.update h.cells item zeroCell }) ∧
      PoolsOk pools ∧ ¬ InUse h.pools item ∧
      (∀ q, InUse pools q ↔ InUse h.pools q ∨ q = item) ∧ h.calls ≤ calls := by
  unfold poolAlloc
  split
  · next item pools heq =>
      right
      obtain ⟨pre, pool, post, pool', hpools, rfl, hpop⟩ := popFirst_eq_some heq
      rw [hpools] at hok ⊢
      have hpool := hok.each pool (by simp)
      obtain ⟨hpool', hbase, hitem, hnot, huses⟩ := Pool.pop_spec hpool hpop
      have hothers := hok.not_inUse_others hitem
      refine ⟨item, _, h.calls, rfl, hok.replace hpool' hbase, ?_, fun q => ?_, le_rfl⟩
      · rw [inUse_append, inUse_cons]
        rintro (huse | huse | huse)
        · exact hothers.1 huse
        · exact hnot huse
        · exact hothers.2 huse
      · rw [inUse_append, inUse_cons, inUse_append, inUse_cons, huses q]
        tauto
  · split
    · next hnone => exact .inl ⟨_, rfl, fun hg => hg.mmap hnone⟩
    · next base _ =>
        right
        obtain ⟨⟨item, pool⟩, hpop⟩ := poolNew_pop sys base
        obtain ⟨hpool, hbase, hitem, -, huses⟩ := Pool.pop_spec (poolNew_ok sys base) hpop
        -- no pool is mapped at the address of the new one
        have hfresh : ∀ p ∈ h.pools, p.base ≠ base.val := by
          intro p hp heq
          have hmapped := base.property
          simp only [Heap.mapped, Bool.or_eq_false_iff, any_eq_false, beq_iff_eq] at hmapped
          exact hmapped.1.1 p hp heq
        rw [hpop]
        refine ⟨item, _, _, rfl, ⟨?_, ?_⟩, ?_, fun q => ?_, Nat.le_succ _⟩
        · intro p hp
          rcases mem_cons.1 hp with rfl | hp
          · exact hpool
          · exact hok.each p hp
        · rw [map_cons, nodup_cons]
          refine ⟨fun hmem => ?_, hok.nodup⟩
          obtain ⟨p, hp, heq⟩ := mem_map.1 hmem
          exact hfresh p hp (heq.trans hbase)
        · rintro ⟨p, hp, huse⟩
          exact hfresh p hp (huse.1.trans hitem)
        · rw [inUse_cons, huses q]
          have hnew := poolNew_uses sys base q
          tauto

/-! ## Freeing an item -/

theorem Pool.contains_of_uses (hpool : PoolOk pool) (huse : pool.Uses item) :
    pool.contains item = true := by
  obtain ⟨hbase, hlt, -⟩ := huse
  have hitems := hpool.nItems
  simp only [Pool.contains, hbase, beq_self_eq_true, Bool.true_and, decide_eq_true_eq]
  have : sizeofPool + sizeofItem * item.index ≤ pool.length := by
    simp only [sizeofPool, sizeofItem] at hitems ⊢
    omega
  exact this

/-- The pool that is found for an item in use. -/
theorem find_pool (hok : PoolsOk pools) (huse : InUse pools item) :
    ∃ pre pool post, pools = pre ++ pool :: post ∧ pool.Uses item ∧
      (pools.find? fun p => p.contains item) = some pool := by
  obtain ⟨pool, hmem, huses⟩ := huse
  have hcontains := Pool.contains_of_uses (hok.each pool hmem) huses
  obtain ⟨found, hfound⟩ : ∃ found, (pools.find? fun p => p.contains item) = some found :=
    Option.isSome_iff_exists.1 (find?_isSome.2 ⟨pool, hmem, hcontains⟩)
  have hfoundmem := mem_of_find?_eq_some hfound
  have hbase : found.base = pool.base := by
    have hc := find?_some hfound
    simp only [Pool.contains, Bool.and_eq_true, beq_iff_eq] at hc
    exact hc.1.trans huses.1.symm
  obtain rfl : found = pool := inj_on_of_nodup_map hok.nodup hfoundmem hmem hbase
  obtain ⟨pre, post, hsplit⟩ := append_of_mem hmem
  exact ⟨pre, found, post, hsplit, huses, hfound⟩

theorem Pool.used_pos (hpool : PoolOk pool) (huse : pool.Uses item) : pool.used ≠ 0 := by
  intro hzero
  have hlength := hpool.used
  rw [hzero, Nat.zero_add] at hlength
  -- the stack would have all the items
  have hsub : List.range pool.nItems ⊆ pool.unused := by
    have hsubset : pool.unused ⊆ List.range pool.nItems :=
      fun i hi => mem_range.2 (hpool.bound i hi)
    have hperm := (hpool.nodup.subperm hsubset).perm_of_length_le
      (by rw [length_range, hlength])
    exact hperm.symm.subset
  exact huse.2.2 (hsub (mem_range.2 huse.2.1))

theorem poolValid_of_inUse (hok : PoolsOk h.pools) (huse : InUse h.pools item) :
    poolValid h item = true := by
  obtain ⟨pre, pool, post, hpools, huses, hfind⟩ := find_pool hok huse
  have hpos := Pool.used_pos (hok.each pool (by simp [hpools])) huses
  simp only [poolValid, hfind, ne_eq, hpos, not_false_eq_true, decide_true]

/-- The only item in use of a pool. -/
theorem Pool.uses_of_used_one (hpool : PoolOk pool) (huse : pool.Uses item) (hone : pool.used = 1)
    {q : ItemPtr} (hq : pool.Uses q) : q = item := by
  obtain ⟨base, i⟩ := item
  obtain ⟨base', j⟩ := q
  obtain ⟨hb, hi, hni⟩ := huse
  obtain ⟨hb', hj, hnj⟩ := hq
  by_contra hne
  have hij : i ≠ j := by
    rintro rfl
    exact hne (congrArg (ItemPtr.mk · i) (hb'.symm.trans hb))
  have hnodup : (i :: j :: pool.unused).Nodup := by
    refine nodup_cons.2 ⟨?_, nodup_cons.2 ⟨hnj, hpool.nodup⟩⟩
    simp [hij, hni]
  have hsub : i :: j :: pool.unused ⊆ List.range pool.nItems := by
    intro k hk
    rcases mem_cons.1 hk with rfl | hk
    · exact mem_range.2 hi
    · rcases mem_cons.1 hk with rfl | hk
      · exact mem_range.2 hj
      · exact mem_range.2 (hpool.bound k hk)
  have hle := (hnodup.subperm hsub).length_le
  have hused := hpool.used
  simp only [length_cons, length_range] at hle
  omega

/-- The item is pushed on the stack of its pool. -/
theorem Pool.push_spec (hpool : PoolOk pool) (huse : pool.Uses item) :
    PoolOk { pool with used := pool.used - 1, unused := item.index :: pool.unused } ∧
      ∀ q, ({ pool with used := pool.used - 1, unused := item.index :: pool.unused } : Pool).Uses q ↔
        pool.Uses q ∧ q ≠ item := by
  have hpos := Pool.used_pos hpool huse
  refine ⟨⟨hpool.nItems, nodup_cons.2 ⟨huse.2.2, hpool.nodup⟩, ?_, ?_⟩, ?_⟩
  · intro i hi
    rcases mem_cons.1 hi with rfl | hi
    · exact huse.2.1
    · exact hpool.bound i hi
  · have := hpool.used
    change pool.used - 1 + (pool.unused.length + 1) = pool.nItems
    omega
  · intro q
    obtain ⟨base, j⟩ := q
    obtain ⟨base', i⟩ := item
    change (pool.base = base ∧ j < pool.nItems ∧ j ∉ i :: pool.unused) ↔
      (pool.base = base ∧ j < pool.nItems ∧ j ∉ pool.unused) ∧ (⟨base, j⟩ : ItemPtr) ≠ ⟨base', i⟩
    have hbase' : pool.base = base' := huse.1
    rw [mem_cons, ne_eq, ItemPtr.mk.injEq, ← hbase']
    constructor
    · rintro ⟨rfl, hj, hnot⟩
      exact ⟨⟨rfl, hj, fun hmem => hnot (.inr hmem)⟩, fun heq => hnot (.inl heq.2)⟩
    · rintro ⟨⟨rfl, hj, hnot⟩, hne⟩
      exact ⟨rfl, hj, fun hmem => hmem.elim (fun heq => hne ⟨rfl, heq⟩) hnot⟩

/-- `pool_free` of an item in use: the others stay, with what they hold. -/
theorem poolFree_spec (hok : PoolsOk h.pools) (huse : InUse h.pools item) :
    ∃ pools cells, poolFree h item = .ok { h with pools, cells } ∧ PoolsOk pools ∧
      (∀ q, InUse pools q ↔ InUse h.pools q ∧ q ≠ item) ∧ ∀ q, q ≠ item → cells q = h.cells q := by
  obtain ⟨pre, pool, post, hpools, huses, hfind⟩ := find_pool hok huse
  rw [hpools] at hok
  have hpool := hok.each pool (by simp)
  have hpos := Pool.used_pos hpool huses
  have hne := hok.base_ne
  have hothers := hok.not_inUse_others huses.1.symm
  have hq : ∀ q, InUse pre q ∨ InUse post q → q ≠ item := by
    rintro q (hq | hq) rfl
    · exact hothers.1 hq
    · exact hothers.2 hq
  unfold poolFree
  rw [hfind]
  dsimp only
  rw [if_neg hpos]
  by_cases hone : pool.used = 1
  · rw [if_pos hone]
    have hfilter : (h.pools.filter fun p => p.base ≠ pool.base) = pre ++ post := by
      rw [hpools, filter_append, filter_cons_of_neg (by simp)]
      congr 1
      · exact filter_eq_self.2 fun p hp => by simp [hne p (.inl hp)]
      · exact filter_eq_self.2 fun p hp => by simp [hne p (.inr hp)]
    rw [hfilter]
    refine ⟨pre ++ post, h.cells, rfl, ⟨fun p hp => hok.each p ?_, ?_⟩, fun q => ?_, fun _ _ => rfl⟩
    · rcases mem_append.1 hp with hp | hp
      · exact mem_append_left _ hp
      · exact mem_append_right _ (mem_cons_of_mem _ hp)
    · have hnodup := hok.nodup
      rw [map_append, map_cons] at hnodup
      rw [map_append]
      exact hnodup.sublist ((sublist_cons_self _ _).append_left _)
    · rw [hpools, inUse_append, inUse_append, inUse_cons]
      have hlast : pool.Uses q → q = item := Pool.uses_of_used_one hpool huses hone
      have := hq q
      tauto
  · rw [if_neg hone]
    have hmap : (h.pools.map fun p =>
        if p.base = pool.base then { p with used := p.used - 1, unused := item.index :: p.unused }
        else p) =
        pre ++ { pool with used := pool.used - 1, unused := item.index :: pool.unused } :: post := by
      rw [hpools, map_append, map_cons, if_pos rfl]
      congr 1
      · exact (map_congr_left fun p hp => if_neg (hne p (.inl hp))).trans (map_id _)
      · congr 1
        exact (map_congr_left fun p hp => if_neg (hne p (.inr hp))).trans (map_id _)
    obtain ⟨hpool', hpush⟩ := Pool.push_spec hpool huses
    rw [hmap]
    refine ⟨_, _, rfl, hok.replace hpool' rfl, fun q => ?_, fun q hne => ?_⟩
    · rw [hpools, inUse_append, inUse_cons, inUse_append, inUse_cons, hpush q]
      have := hq q
      tauto
    · exact Function.update_of_ne hne ..

end MateKeyring.Egg
