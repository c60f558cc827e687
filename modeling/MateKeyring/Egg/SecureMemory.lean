import Mathlib.Data.List.Basic
import Mathlib.Logic.Function.Basic
import MateKeyring.Egg.Buffer

/-!
# The secure memory of `egg-secure-memory.c`

Secure memory is taken from blocks of locked pages. A block is divided into cells; the record of a
cell is not in the block but in a pool of items, and the first and the last word of a cell are
pointers to its record. The cells that are not in use form a ring.

An address is a mapping with an offset into it: an item of a pool (`ItemPtr`), a word of a block
(`Ptr`, and a number where the block is known). A byte of a block is a plain byte or one byte of a
pointer to a cell, so that a word is read as a pointer only where a whole one was stored. What
`mmap`, `mlock` and the memory outside answer is a `System`; every pattern of failures is one. A word
has 8 bytes.
-/

set_option autoImplicit false

namespace MateKeyring.Egg

open Function (update)

/-! ## Memory -/

/-- The address of an item: its pool, and its place there. -/
structure ItemPtr where
  pool : Nat
  index : Nat
  deriving DecidableEq

/-- A byte of memory: a plain one, or byte `i` of a pointer to a cell. -/
inductive MemVal where
  | byte (b : UInt8)
  | fragment (cell : ItemPtr) (i : Nat)
  deriving DecidableEq

/-- `Cell`. `words` is counted from the words of its block. -/
structure Cell where
  words : Nat
  nWords : Nat
  allocated : Nat
  next : Option ItemPtr
  prev : Option ItemPtr

/-- `Block`, with the item it is stored in and the bytes of its pages. -/
structure Block where
  item : ItemPtr
  words : Nat
  nWords : Nat
  used : Nat
  unused : Option ItemPtr
  mem : Nat → MemVal

/-- `Pool`. The stack of the unused items is a list, the top first. -/
structure Pool where
  base : Nat
  length : Nat
  used : Nat
  unused : List Nat
  nItems : Nat

/-- An address of memory that is given out: the mapping, and the word in it. -/
structure Ptr where
  page : Nat
  word : Nat
  deriving DecidableEq

/-- The system below: the size of a page, what the `n`-th call of `mmap`, `mlock` and of the function
behind `egg_memory_fallback` answers, and what new memory outside holds. A mapping is never at an
address that is mapped. -/
structure System where
  shift : Nat
  large : 12 ≤ shift
  mmap : Nat → (mapped : Nat → Bool) → Option { base : Nat // mapped base = false }
  mlock : Nat → Bool
  realloc : Nat → (mapped : Nat → Bool) → Option { base : Nat // mapped base = false }
  garbage : Nat → List MemVal

/-- All of it: `all_pools`, the items as cells, `all_blocks`, the memory outside and the number of
calls to the system. -/
structure Heap where
  pools : List Pool
  cells : ItemPtr → Cell
  blocks : List Block
  malloced : Nat → Option (List MemVal)
  calls : Nat

def getpagesize (sys : System) : Nat := 2 ^ sys.shift

/-- Something is mapped at the address. -/
def Heap.mapped (h : Heap) (base : Nat) : Bool :=
  h.pools.any (fun pool => pool.base == base) || h.blocks.any (fun block => block.words == base) ||
    (h.malloced base).isSome

/-- A block is stored back. -/
def Heap.setBlock (h : Heap) (block : Block) : Heap :=
  { h with blocks := h.blocks.map fun b => if b.words = block.words then block else b }

/-! ## Pools of items -/

/-- `sizeof (Item)`. -/
abbrev sizeofItem : Nat := 40

/-- `sizeof (Pool)`: the header with one item. -/
abbrev sizeofPool : Nat := 80

/-- An item filled with zeros. -/
def zeroCell : Cell := { words := 0, nWords := 0, allocated := 0, next := none, prev := none }

/-- An item filled with 0xCD. -/
def staleCell : Cell :=
  let word := 0xcdcdcdcdcdcdcdcd
  { words := word, nWords := word, allocated := word, next := some ⟨word, 0⟩, prev := some ⟨word, 0⟩ }

/-- A new pool: the items are pushed in turn. -/
def poolNew (sys : System) (base : Nat) : Pool :=
  let length := getpagesize sys * 2
  let nItems := (length - sizeofPool) / sizeofItem
  { base, length, used := 0, unused := (List.range nItems).reverse, nItems }

/-- `++pool->used` and `unused_pop`. -/
def Pool.pop (pool : Pool) : Option (ItemPtr × Pool) :=
  match pool.unused with
  | [] => none
  | i :: unused => some (⟨pool.base, i⟩, { pool with used := pool.used + 1, unused })

/-- An item of the first pool that has one. -/
def popFirst : List Pool → Option (ItemPtr × List Pool)
  | [] => none
  | pool :: pools =>
    match pool.pop with
    | some (item, pool) => some (item, pool :: pools)
    | none => (popFirst pools).map fun r => (r.1, pool :: r.2)

/-- `pool_alloc`. -/
def poolAlloc (sys : System) (h : Heap) : Checked (Option ItemPtr × Heap) :=
  match popFirst h.pools with
  | some (item, pools) =>
    .ok (some item, { h with pools, cells := update h.cells item zeroCell })
  | none =>
    match sys.mmap h.calls h.mapped with
    | none => .ok (none, { h with calls := h.calls + 1 })
    | some base =>
      match (poolNew sys base).pop with
      | none => .error .assertion
      | some (item, pool) =>
        .ok (some item,
          { h with pools := pool :: h.pools, calls := h.calls + 1,
                   cells := update h.cells item zeroCell })

/-- The address is one of an item of the pool, or the one after the last. -/
def Pool.contains (pool : Pool) (item : ItemPtr) : Bool :=
  pool.base == item.pool && sizeofPool + sizeofItem * item.index ≤ pool.length

/-- `pool_free`. -/
def poolFree (h : Heap) (item : ItemPtr) : Checked Heap :=
  match h.pools.find? fun pool => pool.contains item with
  | none => .error .assertion
  | some pool =>
    if pool.used = 0 then .error .assertion
    else if pool.used = 1 then
      .ok { h with pools := h.pools.filter fun p => p.base ≠ pool.base }
    else
      .ok { h with
        pools := h.pools.map fun p =>
          if p.base = pool.base then { p with used := p.used - 1, unused := item.index :: p.unused }
          else p
        cells := update h.cells item staleCell }

/-- `pool_valid`. -/
def poolValid (h : Heap) (item : ItemPtr) : Bool :=
  match h.pools.find? fun pool => pool.contains item with
  | none => false
  | some pool => pool.used ≠ 0

/-! ## Words -/

/-- A pointer to a cell is stored in a word. -/
def writeWord (mem : Nat → MemVal) (w : Nat) (cell : ItemPtr) : Nat → MemVal :=
  fun a => if 8 * w ≤ a ∧ a < 8 * w + 8 then .fragment cell (a - 8 * w) else mem a

/-- The pointer to a cell in a word. -/
def readWord (mem : Nat → MemVal) (w : Nat) : Option ItemPtr :=
  match mem (8 * w) with
  | .byte _ => none
  | .fragment cell _ =>
    if ∀ i ∈ List.range 8, mem (8 * w + i) = .fragment cell i then some cell else none

/-- `memset (mem + start, 0, stop - start)`. -/
def memset (mem : Nat → MemVal) (start stop : Nat) : Nat → MemVal :=
  fun a => if start ≤ a ∧ a < stop then .byte 0 else mem a

/-- `memcpy (mem + start, src, n)`. -/
def memcpy (mem : Nat → MemVal) (start : Nat) (src : Nat → MemVal) (n : Nat) : Nat → MemVal :=
  fun a => if start ≤ a ∧ a < start + n then src (a - start) else mem a

/-- `sec_size_to_words`. -/
def secSizeToWords (length : Nat) : Nat := (if length % 8 ≠ 0 then 1 else 0) + length / 8

/-- `sec_write_guards`. -/
def secWriteGuards (mem : Nat → MemVal) (cells : ItemPtr → Cell) (cell : ItemPtr) : Nat → MemVal :=
  writeWord (writeWord mem (cells cell).words cell) ((cells cell).words + (cells cell).nWords - 1) cell

/-- `sec_check_guards`. -/
def secCheckGuards (mem : Nat → MemVal) (cells : ItemPtr → Cell) (cell : ItemPtr) :
    Checked Unit := do
  cAssert (readWord mem (cells cell).words = some cell)
  cAssert (readWord mem ((cells cell).words + (cells cell).nWords - 1) = some cell)

/-! ## The ring of the unused cells -/

def setNext (cells : ItemPtr → Cell) (cell : ItemPtr) (next : Option ItemPtr) : ItemPtr → Cell :=
  update cells cell { cells cell with next }

def setPrev (cells : ItemPtr → Cell) (cell : ItemPtr) (prev : Option ItemPtr) : ItemPtr → Cell :=
  update cells cell { cells cell with prev }

/-- `sec_insert_cell_ring`. -/
def secInsertCellRing (cells : ItemPtr → Cell) (ring : Option ItemPtr) (cell : ItemPtr) :
    Checked ((ItemPtr → Cell) × Option ItemPtr) := do
  cAssert (ring ≠ some cell)
  cAssert ((cells cell).next = none)
  cAssert ((cells cell).prev = none)
  let cells ←
    match ring with
    | none => pure (setPrev (setNext cells cell (some cell)) cell (some cell))
    | some first =>
      match (cells first).next with
      | none => .error .nullPointer
      | some next =>
        let cells := setPrev (setNext cells cell (some next)) cell (some first)
        pure (setNext (setPrev cells next (some cell)) first (some cell))
  cAssert (((cells cell).next.bind fun next => (cells next).prev) = some cell)
  cAssert (((cells cell).prev.bind fun prev => (cells prev).next) = some cell)
  pure (cells, some cell)

/-- `sec_remove_cell_ring`. -/
def secRemoveCellRing (cells : ItemPtr → Cell) (ring : Option ItemPtr) (cell : ItemPtr) :
    Checked ((ItemPtr → Cell) × Option ItemPtr) :=
  match ring, (cells cell).next, (cells cell).prev with
  | some first, some next, some prev => do
      cAssert ((cells next).prev = some cell)
      cAssert ((cells prev).next = some cell)
      let ring ←
        if cell = first then
          if next = cell then do
            cAssert (prev = cell)
            pure none
          else do
            cAssert (prev ≠ cell)
            pure (some next)
        else pure ring
      let cells := setNext (setPrev cells next (some prev)) prev (some next)
      let cells := setPrev (setNext cells cell none) cell none
      cAssert (ring ≠ some cell)
      pure (cells, ring)
  | _, _, _ => .error .assertion

/-- `sec_remove_cell_ring`, when the cell is in the ring. -/
def removeIfLinked (cells : ItemPtr → Cell) (ring : Option ItemPtr) (cell : ItemPtr) :
    Checked ((ItemPtr → Cell) × Option ItemPtr) :=
  if (cells cell).next ≠ none then secRemoveCellRing cells ring cell else pure (cells, ring)

/-- `sec_insert_cell_ring`, when the cell is not in the ring. -/
def insertIfLoose (cells : ItemPtr → Cell) (ring : Option ItemPtr) (cell : ItemPtr) :
    Checked ((ItemPtr → Cell) × Option ItemPtr) :=
  if (cells cell).next = none then secInsertCellRing cells ring cell else pure (cells, ring)

/-- `sec_is_valid_word`. -/
def secIsValidWord (block : Block) (word : Nat) : Bool := word < block.nWords

/-- The cell a guard word belongs to, with its guards checked. -/
def guardedCell (block : Block) (cells : ItemPtr → Cell) (word : Nat) : Checked ItemPtr :=
  match readWord block.mem word with
  | none => .error .nullPointer
  | some cell => do
      secCheckGuards block.mem cells cell
      pure cell

/-- `sec_neighbor_before`. -/
def secNeighborBefore (block : Block) (cells : ItemPtr → Cell) (cell : ItemPtr) :
    Checked (Option ItemPtr) :=
  if (cells cell).words = 0 ∨ secIsValidWord block ((cells cell).words - 1) = false then .ok none
  else do
    let other ← guardedCell block cells ((cells cell).words - 1)
    pure (some other)

/-- `sec_neighbor_after`. -/
def secNeighborAfter (block : Block) (cells : ItemPtr → Cell) (cell : ItemPtr) :
    Checked (Option ItemPtr) :=
  if secIsValidWord block ((cells cell).words + (cells cell).nWords) = false then .ok none
  else do
    let other ← guardedCell block cells ((cells cell).words + (cells cell).nWords)
    pure (some other)

/-! ## Cells of a block -/

/-- The first unused cell that is long enough; the walk ends where it began. -/
def findUnused (cells : ItemPtr → Cell) (unused : ItemPtr) (nWords : Nat) :
    Nat → ItemPtr → Checked (Option ItemPtr)
  | 0, _ => .error .outOfBounds
  | fuel + 1, cell =>
    if (cells cell).nWords < nWords then
      match (cells cell).next with
      | none => .error .nullPointer
      | some next =>
        if next = unused then .ok none else findUnused cells unused nWords fuel next
    else .ok (some cell)

/-- The part of `sec_alloc` that takes the cell or, when it is too long, its first words, which become
a cell of their own. -/
def stealFromCell (sys : System) (h : Heap) (block : Block) (cell : ItemPtr) (nWords : Nat) :
    Checked (Option (ItemPtr × Block) × Heap) :=
  if (h.cells cell).nWords > nWords + 4 then do
    let (other, h) ← poolAlloc sys h
    match other with
    | none => pure (none, h)
    | some other =>
      let cells := update h.cells other
        { h.cells other with nWords, words := (h.cells cell).words }
      let cells := update cells cell
        { cells cell with nWords := (cells cell).nWords - nWords,
                          words := (cells cell).words + nWords }
      let mem := secWriteGuards (secWriteGuards block.mem cells other) cells cell
      pure (some (other, { block with mem }), { h with cells })
  else pure (some (cell, block), h)

/-- `sec_alloc`. Memory is given out as the word it begins at. -/
def secAlloc (sys : System) (h : Heap) (block : Block) (length : Nat) :
    Checked (Option Nat × Block × Heap) := do
  cAssert (length ≠ 0)
  match block.unused with
  | none => pure (none, block, h)
  | some unused =>
    let nWords := secSizeToWords length + 2
    match ← findUnused h.cells unused nWords (block.nWords + 1) unused with
    | none => pure (none, block, h)
    | some cell =>
      cAssert ((h.cells cell).allocated = 0)
      cAssert ((h.cells cell).prev ≠ none)
      secCheckGuards block.mem h.cells cell
      match ← stealFromCell sys h block cell nWords with
      | (none, h) => pure (none, block, h)
      | (some (cell, block), h) =>
        let (cells, unused) ← removeIfLinked h.cells block.unused cell
        let cells := update cells cell { cells cell with allocated := length }
        let memory := (cells cell).words + 1
        pure (some memory,
          { block with used := block.used + 1, unused := unused,
                       mem := memset block.mem (8 * memory) (8 * memory + length) },
          { h with cells := cells })

/-- The cell of memory that is given back, with the checks made on the way. -/
def cellOfMemory (h : Heap) (block : Block) (memory : Nat) : Checked ItemPtr := do
  cAssert (memory ≠ 0)
  cAssert (secIsValidWord block (memory - 1) = true)
  match readWord block.mem (memory - 1) with
  | none => .error .assertion
  | some cell =>
    cAssert (poolValid h cell = true)
    secCheckGuards block.mem h.cells cell
    pure cell

/-- The checks on a cell in use. -/
def assertInUse (cell : Cell) : Checked Unit := do
  cAssert (cell.next = none)
  cAssert (cell.prev = none)
  cAssert (cell.allocated ≠ 0)

/-- The part of `sec_free` that joins the cell to an unused one before it. -/
def mergeBefore (h : Heap) (block : Block) (cell : ItemPtr) : Checked (ItemPtr × Block × Heap) := do
  match ← secNeighborBefore block h.cells cell with
  | none => pure (cell, block, h)
  | some other =>
    if (h.cells other).allocated = 0 then do
      cAssert ((h.cells other).next ≠ none ∧ (h.cells other).prev ≠ none)
      let cells := update h.cells other
        { h.cells other with nWords := (h.cells other).nWords + (h.cells cell).nWords }
      let mem := secWriteGuards block.mem cells other
      let h ← poolFree { h with cells } cell
      pure (other, { block with mem }, h)
    else pure (cell, block, h)

/-- The part of `sec_free` that joins the cell to an unused one after it. -/
def mergeAfter (h : Heap) (block : Block) (cell : ItemPtr) : Checked (ItemPtr × Block × Heap) := do
  match ← secNeighborAfter block h.cells cell with
  | none => pure (cell, block, h)
  | some other =>
    if (h.cells other).allocated = 0 then do
      cAssert ((h.cells other).next ≠ none ∧ (h.cells other).prev ≠ none)
      let cells := update h.cells other
        { h.cells other with nWords := (h.cells other).nWords + (h.cells cell).nWords,
                             words := (h.cells cell).words }
      let (cells, unused) ← removeIfLinked cells block.unused cell
      let mem := secWriteGuards block.mem cells other
      let h ← poolFree { h with cells := cells } cell
      pure (other, { block with mem, unused := unused }, h)
    else pure (cell, block, h)

/-- `sec_free`. -/
def secFree (h : Heap) (block : Block) (memory : Nat) : Checked (Block × Heap) := do
  let cell ← cellOfMemory h block memory
  let mem := memset block.mem (8 * memory) (8 * memory + (h.cells cell).allocated)
  let block := { block with mem }
  secCheckGuards block.mem h.cells cell
  assertInUse (h.cells cell)
  let (cell, block, h) ← mergeBefore h block cell
  let (cell, block, h) ← mergeAfter h block cell
  let (cells, unused) ← insertIfLoose h.cells block.unused cell
  let cells := update cells cell { cells cell with allocated := 0 }
  pure ({ block with unused := unused, used := block.used - 1 }, { h with cells := cells })

/-- The loop of `sec_realloc` that takes words from the neighbor. -/
def growCell (nWords : Nat) : Nat → Heap → Block → ItemPtr → Checked (Block × Heap)
  | 0, _, _, _ => .error .outOfBounds
  | fuel + 1, h, block, cell =>
    if (h.cells cell).nWords < nWords then do
      match ← secNeighborAfter block h.cells cell with
      | none => pure (block, h)
      | some other =>
        if (h.cells other).allocated ≠ 0 then pure (block, h)
        else if nWords - (h.cells cell).nWords + 4 ≥ (h.cells other).nWords then do
          -- the whole neighbor
          let cells := update h.cells cell
            { h.cells cell with nWords := (h.cells cell).nWords + (h.cells other).nWords }
          let mem := secWriteGuards block.mem cells cell
          let (cells, unused) ← secRemoveCellRing cells block.unused other
          let h ← poolFree { h with cells := cells } other
          growCell nWords fuel h { block with mem, unused := unused } cell
        else
          -- some words of it
          let more := nWords - (h.cells cell).nWords
          let cells := update h.cells other
            { h.cells other with words := (h.cells other).words + more,
                                 nWords := (h.cells other).nWords - more }
          let mem := secWriteGuards block.mem cells other
          let cells := update cells cell { cells cell with nWords }
          let mem := secWriteGuards mem cells cell
          growCell nWords fuel { h with cells } { block with mem } cell
    else pure (block, h)

/-- `sec_realloc`. -/
def secRealloc (sys : System) (h : Heap) (block : Block) (memory length : Nat) :
    Checked (Option Nat × Block × Heap) := do
  cAssert (length ≠ 0)
  let cell ← cellOfMemory h block memory
  assertInUse (h.cells cell)
  let valid := (h.cells cell).allocated
  let nWords := secSizeToWords length + 2
  let allocate := fun (h : Heap) =>
    { h with cells := update h.cells cell { h.cells cell with allocated := length } }
  let alloc := 8 * ((h.cells cell).words + 1)
  if nWords ≤ (h.cells cell).nWords then
    let mem := if length < valid then memset block.mem (alloc + length) (alloc + valid) else block.mem
    pure (some ((h.cells cell).words + 1), { block with mem }, allocate h)
  else
    let (block, h) ← growCell nWords (block.nWords + 2) h block cell
    if (h.cells cell).nWords ≥ nWords then
      cAssert (valid ≤ length)
      let mem := memset block.mem (alloc + valid) (alloc + length)
      pure (some ((h.cells cell).words + 1), { block with mem }, allocate h)
    else
      match ← secAlloc sys h block length with
      | (none, block, h) => pure (none, block, h)
      | (some alloc, block, h) =>
        let mem := memcpy block.mem (8 * alloc) (fun i => block.mem (8 * memory + i)) valid
        let (block, h) ← secFree h { block with mem } memory
        pure (some alloc, block, h)

/-- `sec_allocated`. -/
def secAllocated (h : Heap) (block : Block) (memory : Nat) : Checked Nat := do
  let cell ← cellOfMemory h block memory
  assertInUse (h.cells cell)
  pure (h.cells cell).allocated

/-- `sec_validate`. -/
def secValidate (h : Heap) (block : Block) : Nat → Nat → Checked Unit
  | 0, _ => .error .outOfBounds
  | fuel + 1, word => do
      cAssert (word < block.nWords)
      match readWord block.mem word with
      | none => .error .assertion
      | some cell =>
        cAssert (poolValid h cell = true)
        secCheckGuards block.mem h.cells cell
        if (h.cells cell).allocated > 0 then
          cAssert ((h.cells cell).next = none)
          cAssert ((h.cells cell).prev = none)
          cAssert ((h.cells cell).allocated ≤ ((h.cells cell).nWords - 2) * 8)
        else
          cAssert (((h.cells cell).next.bind fun next => (h.cells next).prev) = some cell)
          cAssert (((h.cells cell).prev.bind fun prev => (h.cells prev).next) = some cell)
        if word + (h.cells cell).nWords = block.nWords then pure ()
        else secValidate h block fuel (word + (h.cells cell).nWords)

/-! ## Blocks -/

/-- `DEFAULT_BLOCK_SIZE`. -/
abbrev defaultBlockSize : Nat := 16384

/-- `sec_acquire_pages`: the address and the size. Anonymous pages hold zeros. -/
def secAcquirePages (sys : System) (h : Heap) (size : Nat) : Option (Nat × Nat) × Heap :=
  let pgsize := getpagesize sys
  let size := (size + pgsize - 1) / pgsize * pgsize
  let pages :=
    match sys.mmap h.calls h.mapped with
    | none => none
    | some pages => if sys.mlock h.calls then some (pages.val, size) else none
  (pages, { h with calls := h.calls + 1 })

/-- `sec_block_create`. -/
def secBlockCreate (sys : System) (h : Heap) (size : Nat) : Checked (Option Block × Heap) := do
  match ← poolAlloc sys h with
  | (none, h) => pure (none, h)
  | (some item, h) =>
    match ← poolAlloc sys h with
    | (none, h) =>
      let h ← poolFree h item
      pure (none, h)
    | (some cell, h) =>
      let size := if size < defaultBlockSize then defaultBlockSize else size
      match secAcquirePages sys h size with
      | (none, h) =>
        let h ← poolFree h item
        let h ← poolFree h cell
        pure (none, h)
      | (some (words, size), h) =>
        let nWords := size / 8
        let cells := update h.cells cell
          { h.cells cell with words := 0, nWords, allocated := 0 }
        let mem := secWriteGuards (fun _ => .byte 0) cells cell
        let (cells, unused) ← secInsertCellRing cells none cell
        let block := { item, words, nWords, used := 0, unused := unused, mem }
        pure (some block, { h with cells := cells, blocks := block :: h.blocks })

/-- The loop of `sec_block_destroy` that frees the cells. -/
def releaseCells : Nat → Option ItemPtr → Heap → Checked Heap
  | 0, _, _ => .error .outOfBounds
  | _ + 1, none, h => .ok h
  | fuel + 1, some cell, h => do
      let (cells, unused) ← secRemoveCellRing h.cells (some cell) cell
      let h ← poolFree { h with cells := cells } cell
      releaseCells fuel unused h

/-- `sec_block_destroy`. -/
def secBlockDestroy (sys : System) (h : Heap) (block : Block) : Checked Heap := do
  cAssert (block.used = 0)
  cAssert ((h.blocks.any fun b => b.words = block.words) = true)
  let h := { h with blocks := h.blocks.filter fun b => b.words ≠ block.words }
  let h ← releaseCells (block.nWords + 1) block.unused h
  cAssert (block.nWords * 8 % getpagesize sys = 0)
  poolFree h block.item

/-! ## The functions for clients -/

/-- `egg_memory_fallback`: a function of the application with the semantics of `realloc`. -/
def eggMemoryFallback (sys : System) (h : Heap) (memory : Option Ptr) (length : Nat) :
    Option Ptr × Heap :=
  let old := (memory.bind fun p => h.malloced p.page).getD []
  let freed :=
    match memory with
    | none => h.malloced
    | some p => update h.malloced p.page none
  if length = 0 then (none, { h with malloced := freed })
  else
    match sys.realloc h.calls (Heap.mapped { h with malloced := freed }) with
    | none => (none, { h with calls := h.calls + 1 })
    | some base =>
      let fresh := (List.range length).map fun i =>
        (old ++ (sys.garbage h.calls).drop old.length).getD i (.byte 0)
      (some ⟨base, 0⟩,
        { h with malloced := update freed base (some fresh), calls := h.calls + 1 })

/-- The loop of `egg_secure_alloc_full` over the blocks. -/
def allocFrom (sys : System) (length : Nat) : List Block → Heap → Checked (Option Ptr × Heap)
  | [], h => pure (none, h)
  | block :: blocks, h => do
      match ← secAlloc sys h block length with
      | (some word, block, h) => pure (some ⟨block.words, word⟩, h.setBlock block)
      | (none, block, h) => allocFrom sys length blocks (h.setBlock block)

/-- The part of `egg_secure_alloc_full` that allocates from a new block. -/
def allocNew (sys : System) (h : Heap) (length : Nat) : Checked (Option Ptr × Heap) := do
  match ← secBlockCreate sys h length with
  | (none, h) => pure (none, h)
  | (some block, h) => allocFrom sys length [block] h

/-- The part of `egg_secure_alloc_full` that falls back to memory outside; it is filled with zeros. -/
def allocFallback (sys : System) (h : Heap) (length : Nat) : Option Ptr × Heap :=
  match eggMemoryFallback sys h none length with
  | (none, h) => (none, h)
  | (some memory, h) =>
    let zeros := List.replicate length (.byte 0)
    (some memory, { h with malloced := update h.malloced memory.page (some zeros) })

/-- `egg_secure_alloc_full`; `fallback` is the flag `GKR_SECURE_USE_FALLBACK`. -/
def eggSecureAllocFull (sys : System) (h : Heap) (length : Nat) (fallback : Bool) :
    Checked (Option Ptr × Heap) := do
  if length > 0xffffffff / 2 then pure (none, h)
  else if length = 0 then pure (none, h)
  else
    match ← allocFrom sys length h.blocks h with
    | (some memory, h) => pure (some memory, h)
    | (none, h) =>
      match ← allocNew sys h length with
      | (some memory, h) => pure (some memory, h)
      | (none, h) => if fallback then pure (allocFallback sys h length) else pure (none, h)

/-- The block an address belongs to. -/
def Heap.blockOf (h : Heap) (memory : Ptr) : Option Block :=
  h.blocks.find? fun block => block.words == memory.page && secIsValidWord block memory.word

/-- `egg_secure_free_full`. -/
def eggSecureFreeFull (sys : System) (h : Heap) (memory : Option Ptr) (fallback : Bool) :
    Checked Heap :=
  match memory with
  | none => pure h
  | some memory =>
    match h.blockOf memory with
    | some block => do
        let (block, h) ← secFree h block memory.word
        let h := h.setBlock block
        if block.used = 0 then secBlockDestroy sys h block else pure h
    | none =>
      if fallback then pure (eggMemoryFallback sys h (some memory) 0).2
      else .error .assertion

/-- A byte of memory that was given out. -/
def Heap.read (h : Heap) (memory : Ptr) (i : Nat) : MemVal :=
  match h.blockOf memory with
  | some block => block.mem (8 * memory.word + i)
  | none => ((h.malloced memory.page).getD []).getD i (.byte 0)

/-- `n` bytes are copied to memory that was given out, from an offset on. -/
def Heap.copy (h : Heap) (memory : Ptr) (offset : Nat) (src : Nat → MemVal) (n : Nat) : Heap :=
  match h.blockOf memory with
  | some block =>
    h.setBlock { block with mem := memcpy block.mem (8 * memory.word + offset) src n }
  | none =>
    let contents := (h.malloced memory.page).map fun contents =>
      (List.range contents.length).map
        (memcpy (fun i => contents.getD i (.byte 0)) offset src n)
    { h with malloced := update h.malloced memory.page contents }

/-- `egg_secure_realloc_full`. -/
def eggSecureReallocFull (sys : System) (h : Heap) (memory : Option Ptr) (length : Nat)
    (fallback : Bool) : Checked (Option Ptr × Heap) := do
  if length > 0xffffffff / 2 then pure (none, h)
  else
    match memory with
    | none => eggSecureAllocFull sys h length fallback
    | some memory =>
      if length = 0 then do
        let h ← eggSecureFreeFull sys h (some memory) fallback
        pure (none, h)
      else
        match h.blockOf memory with
        | some block => do
            let previous ← secAllocated h block memory.word
            let (alloc, block, h) ← secRealloc sys h block memory.word length
            let h := h.setBlock block
            let h ← if block.used = 0 then secBlockDestroy sys h block else pure h
            match alloc with
            | some alloc => pure (some ⟨block.words, alloc⟩, h)
            | none =>
              match ← eggSecureAllocFull sys h length fallback with
              | (none, h) => pure (none, h)
              | (some alloc, h) =>
                let h := h.copy alloc 0 (h.read memory) previous
                let h ← eggSecureFreeFull sys h (some memory) fallback
                pure (some alloc, h)
        | none =>
          if fallback then pure (eggMemoryFallback sys h (some memory) length)
          else .error .assertion

end MateKeyring.Egg
