import OsArmv8a.Lib.Chain
import OsArmv8a.Lib.Memory
import OsArmv8a.Lib.Word64

/-! The physical page allocator of `page_alloc.c`. `PAGE_SIZE` is 4096 and the QEMU
`virt` RAM window is `[0x40000000, 0x48000000)`, so `pages[]` has 32768 entries. -/

set_option autoImplicit false

namespace OsArmv8a

/-- `KERNEL_VA_OFFSET`: the linear map places physical address `pa` at `pa` plus this. -/
def kernelVaOffset : Nat := 0xFFFF000000000000

/-- The linear map ends exactly at the top of the address space. -/
theorem kernelVaOffset_top : kernelVaOffset + 2 ^ 48 = 2 ^ 64 := by decide

theorem kernelVaOffset_pos : 0 < kernelVaOffset := by decide

attribute [irreducible] kernelVaOffset

/-- The addresses a `for (addr = start; ...; addr += PAGE_SIZE)` loop visits. -/
def pagesFrom : Nat → Nat → List Nat
  | _, 0 => []
  | start, count + 1 => start :: pagesFrom (start + 4096) count

namespace PageAlloc

inductive PageState where
  | unused | free | allocated
  deriving DecidableEq, Repr

structure Page where
  state : PageState
  /-- An `unsigned short` in the source. -/
  refCount : Nat
  deriving DecidableEq, Repr

/-- The file-scope variables of `page_alloc.c` with the memory it links the free
pages through. Memory is addressed physically: `page_pa_to_ptr` only chooses
which mapping of the same word is used. -/
structure State where
  mem : Mem
  mmuEnabled : Bool
  freeListPa : Nat
  totalPages : Nat
  freePages : Nat
  reservedBytes : Nat
  managedStart : Nat
  managedEnd : Nat
  invalidFreeCount : Nat
  doubleFreeCount : Nat
  pages : Nat → Page

/-- Where the linker put `__kernel_end`, as a physical address inside RAM. -/
structure KernelImage where
  kernelEnd : Nat
  inRam : 0x40000000 ≤ kernelEnd ∧ kernelEnd ≤ 0x48000000

/-- `pages[]` is indexed here by the absolute page frame, so entry `i` of the source is
frame `0x40000 + i`. -/
def pageIndexFromAddress (address : Nat) : Nat := address / 4096

/-- The entry of an address lies inside `pages[]`. -/
def inPagesArray (address : Nat) : Prop :=
  0x40000 ≤ pageIndexFromAddress address ∧ pageIndexFromAddress address < 0x48000

instance (address : Nat) : Decidable (inPagesArray address) :=
  inferInstanceAs (Decidable (_ ∧ _))

/-- Strips `KERNEL_VA_OFFSET` when the MMU is on. -/
def pagePtrToPa (mmuEnabled : Bool) (ptr : Nat) : Nat :=
  if mmuEnabled = true ∧ kernelVaOffset ≤ ptr then ptr - kernelVaOffset else ptr

namespace State

def stateAt (s : State) (pa : Nat) : PageState := (s.pages (pageIndexFromAddress pa)).state

def refAt (s : State) (pa : Nat) : Nat := (s.pages (pageIndexFromAddress pa)).refCount

def setPage (s : State) (pa : Nat) (page : Page) : State :=
  { s with pages := fun index => if index = pageIndexFromAddress pa then page else s.pages index }

/-- The page addresses of `[managed_start, managed_end)`, in ascending order. -/
def managedPages (s : State) : List Nat :=
  pagesFrom s.managedStart ((s.managedEnd - s.managedStart) / 4096)

/-- `node->next` of the free-list node stored at the start of page `pa`. -/
def link (s : State) (pa : Nat) : Option Nat :=
  let next := pagePtrToPa s.mmuEnabled (s.mem pa).toNat
  if next = 0 then none else some next

def head (s : State) : Option Nat :=
  if s.freeListPa = 0 then none else some s.freeListPa

end State

def zeroPage (s : State) (pa : Nat) : State := { s with mem := s.mem.zero pa 4096 }

/-- Stores the current head in the page and makes the page the head. -/
def pushFree (s : State) (pa : Nat) : State :=
  { s with mem := s.mem.set pa (BitVec.ofNat 64 s.freeListPa), freeListPa := pa }

/-- One iteration of the loop in `page_allocator_rebuild_free_list`. -/
def rebuildPage (pa : Nat) (s : State) : State :=
  if s.stateAt pa = .free then pushFree s pa else s

/-- The loop runs from the last managed page down to the first. -/
def rebuildFreeList (s : State) : State :=
  s.managedPages.foldr rebuildPage { s with freeListPa := 0 }

def initPage (s : State) (pa : Nat) : State :=
  let s := (pushFree s pa).setPage pa { state := .free, refCount := 0 }
  { s with totalPages := s.totalPages + 1, freePages := s.freePages + 1 }

/-- `page_allocator_init`, on memory of any contents. -/
def init (image : KernelImage) (mem : Mem) (mmuEnabled : Bool) : State :=
  let managedStart := Word64.alignUp image.kernelEnd 4096
  let s : State :=
    { mem := mem, mmuEnabled := mmuEnabled, freeListPa := 0, totalPages := 0, freePages := 0,
      reservedBytes := managedStart - 0x40000000, managedStart := managedStart,
      managedEnd := 0x48000000, invalidFreeCount := 0, doubleFreeCount := 0,
      pages := fun _ => { state := .unused, refCount := 0 } }
  s.managedPages.foldl initPage s

/-- `page_alloc`; `none` is the null pointer. -/
def pageAlloc (s : State) : Option Nat × State :=
  match s.head with
  | none => (none, s)
  | some pa =>
    let s' := { s with freeListPa := pagePtrToPa s.mmuEnabled (s.mem pa).toNat }
    let s' := s'.setPage pa { state := .allocated, refCount := 1 }
    (some pa, zeroPage { s' with freePages := s'.freePages - 1 } pa)

/-- The search loop of `page_alloc_contiguous` with its two accumulators. -/
def findRun (s : State) (pageCount : Nat) : List Nat → Nat → Nat → Option Nat
  | [], _, _ => none
  | pa :: rest, runStart, runLength =>
    if s.stateAt pa = .free then
      let runStart := if runLength = 0 then pa else runStart
      if runLength + 1 = pageCount then some runStart
      else findRun s pageCount rest runStart (runLength + 1)
    else findRun s pageCount rest runStart 0

def takePage (s : State) (pa : Nat) : State :=
  zeroPage (s.setPage pa { state := .allocated, refCount := 1 }) pa

def pageAllocContiguous (s : State) (pageCount : Nat) : Option Nat × State :=
  if pageCount = 0 ∨ s.freePages < pageCount then (none, s)
  else
    match findRun s pageCount s.managedPages 0 0 with
    | none => (none, s)
    | some runStart =>
      let s := (pagesFrom runStart pageCount).foldl takePage s
      (some runStart, rebuildFreeList { s with freePages := s.freePages - pageCount })

/-- Puts a page back at the head of the free list. -/
def releasePage (s : State) (pa : Nat) : State :=
  let s := (pushFree s pa).setPage pa { state := .free, refCount := 0 }
  { s with freePages := s.freePages + 1 }

def pageFree (s : State) (pa : Nat) : State :=
  if pa = 0 then s
  else if pa % 4096 ≠ 0 then { s with invalidFreeCount := s.invalidFreeCount + 1 }
  else if pa < s.managedStart ∨ s.managedEnd ≤ pa then
    { s with invalidFreeCount := s.invalidFreeCount + 1 }
  else if s.stateAt pa ≠ .allocated then { s with doubleFreeCount := s.doubleFreeCount + 1 }
  else if 1 < s.refAt pa then
    s.setPage pa { state := .allocated, refCount := s.refAt pa - 1 }
  else releasePage s pa

/-- The counter saturates: a page at `(unsigned short)~0U` is left alone. -/
def pageRefInc (s : State) (pa : Nat) : State :=
  if pa < s.managedStart ∨ s.managedEnd ≤ pa then s
  else if s.stateAt pa ≠ .allocated ∨ s.refAt pa = 0 ∨ s.refAt pa = 2 ^ 16 - 1 then s
  else s.setPage pa { state := .allocated, refCount := s.refAt pa + 1 }

/-- `page_ref_dec`; the flag says whether the page was freed. -/
def pageRefDec (s : State) (pa : Nat) : Bool × State :=
  if pa < s.managedStart ∨ s.managedEnd ≤ pa then (false, s)
  else if s.stateAt pa ≠ .allocated ∨ s.refAt pa = 0 then (false, s)
  else if s.refAt pa - 1 ≠ 0 then
    (false, s.setPage pa { state := .allocated, refCount := s.refAt pa - 1 })
  else (true, releasePage s pa)

def pageRefGet (s : State) (pa : Nat) : Nat :=
  if pa < s.managedStart ∨ s.managedEnd ≤ pa then 0
  else if s.stateAt pa ≠ .allocated then 0
  else s.refAt pa

/-- What the checking loop of `page_free_contiguous` finds. -/
inductive SpanCheck where
  | allAllocated
  | notAllocated
  /-- `pages[]` would be read past its end. -/
  | outOfBounds
  deriving DecidableEq, Repr

/-- The checking loop from `offset` on, with `remaining` pages to go. -/
def checkSpan (s : State) (pageAddr : Nat) : Nat → Nat → SpanCheck
  | _, 0 => .allAllocated
  | offset, remaining + 1 =>
    let freeAddr := Word64.add pageAddr (Word64.mul 4096 offset)
    if ¬ inPagesArray freeAddr then .outOfBounds
    else if s.stateAt freeAddr ≠ .allocated then .notAllocated
    else checkSpan s pageAddr (offset + 1) remaining

/-- Only the state is reset; the stale reference count stays in `pages[]`. -/
def freeSpanPage (s : State) (pa : Nat) : State :=
  s.setPage pa { state := .free, refCount := s.refAt pa }

/-- `page_free_contiguous`; `none` when the checking loop leaves `pages[]`. -/
def pageFreeContiguous (s : State) (pageAddr pageCount : Nat) : Option State :=
  if pageAddr = 0 ∨ pageCount = 0 then some s
  else if pageAddr % 4096 ≠ 0 then
    some { s with invalidFreeCount := s.invalidFreeCount + 1 }
  else if pageAddr < s.managedStart ∨
      s.managedEnd < Word64.add pageAddr (Word64.mul 4096 pageCount) then
    some { s with invalidFreeCount := s.invalidFreeCount + 1 }
  else
    match checkSpan s pageAddr 0 pageCount with
    | .outOfBounds => none
    | .notAllocated => some { s with doubleFreeCount := s.doubleFreeCount + 1 }
    | .allAllocated =>
      let s := (pagesFrom pageAddr pageCount).foldl freeSpanPage s
      some (rebuildFreeList { s with freePages := s.freePages + pageCount })

/-- `count_free_list_nodes`, following at most `fuel` links. -/
def countFreeListNodes (s : State) (fuel : Nat) : Option Nat :=
  Intrusive.count s.link fuel s.head

def countState (s : State) (state : PageState) : Nat :=
  s.managedPages.countP fun pa => s.stateAt pa = state

/-- `page_allocator_check_consistency`: the number of mismatches. -/
def checkConsistency (s : State) (fuel : Nat) : Option Nat :=
  let stateFree := countState s .free
  let stateAllocated := countState s .allocated
  let unknown := countState s .unused
  (countFreeListNodes s fuel).map fun nodes =>
    unknown + (if stateFree + stateAllocated ≠ s.totalPages then 1 else 0) +
      (if stateFree ≠ s.freePages then 1 else 0) +
      (if nodes ≠ s.freePages then 1 else 0)

end PageAlloc

end OsArmv8a
