import OsArmv8a.PageAlloc

/-! The kernel heap of `heap.c`. Arenas and blocks live in pages of the page allocator and
are reached through the linear map. A `kernel_heap_page` has its fields `magic`,
`page_count`, `next`, `usable_bytes` and `first_block` at offsets 0, 8, 16, 24 and 32 and is
40 bytes long; a `kernel_heap_block` has `size`, `is_free`, `next` and `prev` at offsets
0, 8, 16 and 24 and is 32 bytes long. -/

set_option autoImplicit false

namespace OsArmv8a.Heap

/-- The file-scope variables of `heap.c` over the page allocator. -/
structure State where
  pages : PageAlloc.State
  /-- `kernel_heap_pages`, the most recent arena or null. -/
  heapPages : Nat
  pagesUsed : Nat
  freeSpace : Nat
  usedSpace : Nat
  allocations : Nat
  failed : Nat

namespace State

/-- A 64-bit load through a kernel virtual address. -/
def load (s : State) (va : Nat) : Nat := (s.pages.mem (va - kernelVaOffset)).toNat

def store (s : State) (va value : Nat) : State :=
  { s with pages := { s.pages with
      mem := s.pages.mem.set (va - kernelVaOffset) (BitVec.ofNat 64 value) } }

end State

/-- `KERNEL_HEAP_PAGE_MAGIC`. -/
def pageMagic : Nat := 0x4b48454150414745

def pagesForSize (size : Nat) : Nat :=
  let alignedSize := Word64.alignUp size 16
  let blockStart := Word64.alignUp 40 16
  let requiredBytes := Word64.add (Word64.add blockStart 32) alignedSize
  Word64.alignUp requiredBytes 4096 / 4096

/-- The loop of `kernel_heap_page_from_pointer`, over at most `fuel` arenas; the outer
option is `none` when the list has not ended by then. -/
def pageFromPointer (s : State) (ptr : Nat) : Nat → Nat → Option (Option Nat)
  | 0, _ => none
  | fuel + 1, page =>
    if page = 0 then some none
    else
      let arenaEnd := Word64.add page (Word64.mul 4096 (s.load (page + 8)))
      if page ≤ ptr ∧ ptr < arenaEnd then
        if s.load page = pageMagic then some (some page) else some none
      else pageFromPointer s ptr fuel (s.load (page + 16))

/-- `kernel_heap_add_arena`; `none` is the null pointer. -/
def addArena (s : State) (pageCount : Nat) : Option Nat × State :=
  match PageAlloc.pageAllocContiguous s.pages pageCount with
  | (none, pages) => (none, { s with pages := pages, failed := Word64.add s.failed 1 })
  | (some rawPa, pages) =>
    let page := rawPa + kernelVaOffset
    let blockStart := Word64.alignUp (page + 40) 16
    let totalBytes := Word64.mul 4096 pageCount
    let usableBytes := Word64.sub (Word64.sub totalBytes (Word64.sub blockStart page)) 32
    let s := { s with pages := pages }
    let s := s.store page pageMagic
    let s := s.store (page + 8) pageCount
    let s := s.store (page + 16) s.heapPages
    let s := s.store (page + 24) usableBytes
    let s := s.store (page + 32) blockStart
    let s := { s with
      heapPages := page
      pagesUsed := Word64.add s.pagesUsed pageCount
      freeSpace := Word64.add s.freeSpace usableBytes }
    let s := s.store blockStart usableBytes
    let s := s.store (blockStart + 8) 1
    let s := s.store (blockStart + 16) 0
    let s := s.store (blockStart + 24) 0
    (some page, s)

def splitBlock (s : State) (block size : Nat) : State :=
  if s.load block < Word64.add size 48 then s
  else
    let remainingSize := Word64.sub (Word64.sub (s.load block) size) 32
    let newBlock := Word64.add (block + 32) size
    let s := s.store newBlock remainingSize
    let s := s.store (newBlock + 8) 1
    let s := s.store (newBlock + 16) (s.load (block + 16))
    let s := s.store (newBlock + 24) block
    let s := if s.load (newBlock + 16) ≠ 0 then s.store (s.load (newBlock + 16) + 24) newBlock else s
    let s := s.store block size
    s.store (block + 16) newBlock

/-- The first-fit scan of `kernel_heap_allocate_from_arena`, over at most `fuel` blocks;
the outer option is `none` when the list has not ended by then. -/
def firstFit (s : State) (size : Nat) : Nat → Nat → Option (Option Nat)
  | 0, _ => none
  | fuel + 1, block =>
    if block = 0 then some none
    else if s.load (block + 8) ≠ 0 ∧ size ≤ s.load block then some (some block)
    else firstFit s size fuel (s.load (block + 16))

/-- What `kernel_heap_allocate_from_arena` does with the block it has found. -/
def takeBlock (s : State) (block size : Nat) : State :=
  let s := splitBlock s block size
  let s := s.store (block + 8) 0
  { s with
    freeSpace := Word64.sub s.freeSpace (s.load block)
    usedSpace := Word64.add s.usedSpace (s.load block)
    allocations := Word64.add s.allocations 1 }

def allocateFromArena (s : State) (fuel page size : Nat) : Option (Option Nat × State) :=
  (firstFit s size fuel (s.load (page + 32))).map fun
    | none => (none, s)
    | some block => (some (block + 32), takeBlock s block size)

/-- The loop of `kmalloc` over the arenas. -/
def searchArenas (s : State) (size blockFuel : Nat) : Nat → Nat → Option (Option Nat × State)
  | 0, _ => none
  | fuel + 1, page =>
    if page = 0 then some (none, s)
    else
      (allocateFromArena s blockFuel page size).bind fun
        | (some ptr, s) => some (some ptr, s)
        | (none, s) => searchArenas s size blockFuel fuel (s.load (page + 16))

/-- A bound on the loops: no list of arenas or blocks inside RAM is longer. -/
def loopFuel : Nat := 2 ^ 23

/-- `kmalloc`; `none` when a loop does not end, and the pointer is `none` for null. -/
def kmalloc (s : State) (size : Nat) : Option (Option Nat × State) :=
  if size = 0 then some (none, s)
  else
    let alignedSize := Word64.alignUp size 16
    let requiredPages := pagesForSize alignedSize
    (searchArenas s alignedSize loopFuel loopFuel s.heapPages).bind fun
      | (some allocation, s) => some (some allocation, s)
      | (none, s) =>
        match addArena s requiredPages with
        | (none, s) => some (none, s)
        | (some page, s) => allocateFromArena s loopFuel page alignedSize

/-- The first half of `kernel_heap_coalesce`. -/
def mergeNext (s : State) (block : Nat) : State :=
  let next := s.load (block + 16)
  if next ≠ 0 ∧ s.load (next + 8) ≠ 0 then
    let s := s.store block (Word64.add (s.load block) (Word64.add 32 (s.load next)))
    let s := s.store (block + 16) (s.load (next + 16))
    if s.load (block + 16) ≠ 0 then s.store (s.load (block + 16) + 24) block else s
  else s

/-- The second half of `kernel_heap_coalesce`. -/
def mergePrev (s : State) (block : Nat) : State :=
  let prev := s.load (block + 24)
  if prev ≠ 0 ∧ s.load (prev + 8) ≠ 0 then
    let s := s.store prev (Word64.add (s.load prev) (Word64.add 32 (s.load block)))
    let s := s.store (prev + 16) (s.load (block + 16))
    if s.load (block + 16) ≠ 0 then s.store (s.load (block + 16) + 24) prev else s
  else s

def coalesce (s : State) (block : Nat) : State := mergePrev (mergeNext s block) block

/-- What `kfree` does with a block that is in use. -/
def releaseBlock (s : State) (block : Nat) : State :=
  let s := s.store (block + 8) 1
  let s := { s with
    usedSpace := Word64.sub s.usedSpace (s.load block)
    freeSpace := Word64.add s.freeSpace (s.load block) }
  coalesce s block

/-- The heap's variables as `kernel_heap_init` clears them. -/
def empty (pages : PageAlloc.State) : State :=
  { pages := pages, heapPages := 0, pagesUsed := 0, freeSpace := 0, usedSpace := 0,
    allocations := 0, failed := 0 }

/-- `kernel_heap_init`; a heap that could not get its first page stays empty. -/
def init (pages : PageAlloc.State) : State := (addArena (empty pages) 1).2

/-- `kfree`; `none` when the search for the arena does not end. -/
def kfree (s : State) (ptr : Nat) : Option State :=
  if ptr = 0 then some s
  else
    (pageFromPointer s ptr loopFuel s.heapPages).map fun
      | none => s
      | some _ =>
        let block := ptr - 32
        if s.load (block + 8) ≠ 0 then s else releaseBlock s block

end OsArmv8a.Heap
