import OsArmv8a.Lib.Radix
import OsArmv8a.MmLifecycle
import OsArmv8a.MmuDesc
import OsArmv8a.PageAlloc

/-! The address spaces of `mmu_vmsa.c`: page tables in physical memory, the pages each
`struct mm_context` owns, page faults, cloning and unmapping. TLB maintenance, logging and
the name registry of table pages have no effect on these and are left out. -/

set_option autoImplicit false

namespace OsArmv8a.Mmu

open PageAlloc (pageAlloc pageFree pageRefInc pageRefDec pageRefGet)

/-- `struct mm_context`; `pages` is `pages[0 .. page_count)`. -/
structure MmContext where
  rootPa : Nat
  asid : Nat
  life : MmLifecycle.Lifecycle
  pages : List Nat
  deriving Repr

/-- `asid_bitmap` and `next_asid`. -/
structure Asids where
  used : Nat → Bool
  next : Nat

/-- Physical memory with its allocator, and the contexts that exist. A context is named by
the address `kmalloc` gave it; `live` are the ones not yet released. -/
structure World where
  pages : PageAlloc.State
  asids : Asids
  cpuContext : Fin 4 → Option Nat
  live : List Nat
  contexts : Nat → MmContext

namespace Asids

/-- The search loop of `mmu_asid_alloc`; 0 when every attempt met an ASID in use. -/
def search : Nat → Asids → Nat × Asids
  | 0, s => (0, s)
  | attempts + 1, s =>
    let asid := s.next
    let s := { s with next := if 255 < asid + 1 then 1 else asid + 1 }
    if asid = 0 ∨ 255 < asid ∨ s.used asid = true then search attempts s
    else (asid, { s with used := fun other => if other = asid then true else s.used other })

def alloc (s : Asids) : Nat × Asids := search 255 s

def free (s : Asids) (asid : Nat) : Asids :=
  if asid = 0 ∨ 255 < asid then s
  else { s with used := fun other => if other = asid then false else s.used other }

end Asids

namespace MmContext

def withPages (mm : MmContext) (pages : List Nat) : MmContext := { mm with pages := pages }

/-- `mmu_context_add_page_locked`; `none` is the failure result. -/
def addPage (mm : MmContext) (pa : Nat) : Option MmContext :=
  if pa = 0 then none
  else if pa ∈ mm.pages then some mm
  else if 256 ≤ mm.pages.length then none
  else some (mm.withPages (mm.pages ++ [pa]))

/-- `mmu_context_remove_page_locked`: the first match leaves the array. -/
def removePage (mm : MmContext) (pa : Nat) : MmContext :=
  if pa = 0 then mm else mm.withPages (mm.pages.erase pa)

end MmContext

namespace World

abbrev load (w : World) (address : Nat) : BitVec 64 := w.pages.mem address

def setMem (w : World) (mem : Mem) : World := { w with pages := { w.pages with mem := mem } }

def store (w : World) (address : Nat) (value : BitVec 64) : World :=
  w.setMem (w.pages.mem.set address value)

def setPages (w : World) (pages : PageAlloc.State) : World := { w with pages := pages }

def setContext (w : World) (id : Nat) (mm : MmContext) : World :=
  { w with contexts := fun other => if other = id then mm else w.contexts other }

def setLife (w : World) (id : Nat) (life : MmLifecycle.Lifecycle) : World :=
  w.setContext id { w.contexts id with life := life }

def setCpu (w : World) (cpu : Fin 4) (context : Option Nat) : World :=
  { w with cpuContext := fun other => if other = cpu then context else w.cpuContext other }

def setAsids (w : World) (asids : Asids) : World := { w with asids := asids }

/-- A new context joins the live ones. -/
def enroll (w : World) (id : Nat) (mm : MmContext) : World :=
  { w.setContext id mm with live := id :: w.live }

def expel (w : World) (id : Nat) : World := { w with live := w.live.erase id }

def addPage (w : World) (id pa : Nat) : Option World :=
  ((w.contexts id).addPage pa).map (w.setContext id)

def removePage (w : World) (id pa : Nat) : World :=
  w.setContext id ((w.contexts id).removePage pa)

end World

/-- `L0_INDEX_FOR` to `L3_INDEX_FOR`. -/
def l0Index (va : Nat) : Nat := va / 2 ^ 39 % 512
def l1Index (va : Nat) : Nat := va / 2 ^ 30 % 512
def l2Index (va : Nat) : Nat := va / 2 ^ 21 % 512
def l3Index (va : Nat) : Nat := va / 2 ^ 12 % 512

/-- The next table of a walk: the entry must be valid with type bits `11`. -/
def child (entry : BitVec 64) : Option Nat :=
  if IsTable entry then some (descAddr entry) else none

/-- The table or page a path of indexes leads to in a context. -/
def node (m : Mem) (mm : MmContext) (path : List Nat) : Option Nat :=
  Radix.descend child m mm.rootPa path

/-- `mmu_resolve_user_page_desc`: the address of the level 3 entry. -/
def resolveUserPageDesc (m : Mem) (mm : MmContext) (va : Nat) : Option Nat :=
  (node m mm [l0Index va, l1Index va, l2Index va]).map fun l3 => l3 + 8 * l3Index va

/-- `mmu_resolve_user_page`: the page and its descriptor. -/
def resolveUserPage (m : Mem) (mm : MmContext) (va : Nat) : Option (Nat × BitVec 64) :=
  (resolveUserPageDesc m mm va).bind fun entry =>
    if IsTable (m entry) then some (descAddr (m entry), m entry) else none

/-- `mmu_user_access_allowed`. -/
def userAccessAllowed (entry : BitVec 64) (write : Bool) : Bool :=
  if write = true then Writable entry else Writable entry ∨ entry &&& userApMask = userApRo

/-- `mmu_alloc_sub_table_locked`. -/
def allocSubTable (w : World) (id : Nat) : Option Nat × World :=
  match pageAlloc w.pages with
  | (none, _) => (none, w)
  | (some pa, pages) =>
    match (w.setPages pages).addPage id pa with
    | none => (none, w.setPages (pageFree pages pa))
    | some w => (some pa, w.setMem (w.pages.mem.zero pa 4096))

/-- The loop of `mmu_split_block_locked` that fills the new table. -/
def fillSplit (m : Mem) (table blockPa step : Nat) (attrs : BitVec 64) : Nat → Mem
  | 0 => m
  | i + 1 =>
    (fillSplit m table blockPa step attrs i).set (table + 8 * i)
      (BitVec.ofNat 64 (blockPa + i * step) ||| attrs)

/-- `mmu_split_block_locked`; a failed allocation leaves the block in place. -/
def splitBlock (w : World) (id entry level : Nat) : World :=
  let desc := w.load entry
  let attrs := desc &&& ~~~addrMask
  let step := if level = 1 then 0x200000 else 4096
  let nextType := if level = 1 then descBlock else descTable
  match allocSubTable w id with
  | (none, w) => w
  | (some pa, w) =>
    let w := w.setMem (fillSplit w.pages.mem pa (descAddr desc) step (attrs ||| nextType) 512)
    w.store entry (tableEntry pa)

/-- One level of `mmu_find_pte_locked` at the entry address: a block is split and a missing
table allocated, both only with `create`. Level 0 has no block test. -/
def nextTable (w : World) (id entry level : Nat) (create : Bool) : Option Nat × World :=
  let block := level ≠ 0 ∧ IsBlock (w.load entry)
  if block ∧ create = false then (none, w)
  else
    let w := if block then splitBlock w id entry level else w
    if Valid (w.load entry) then (some (descAddr (w.load entry)), w)
    else if create = false then (none, w)
    else
      match allocSubTable w id with
      | (none, w) => (none, w)
      | (some pa, w) =>
        let w := w.store entry (tableEntry pa)
        (some (descAddr (w.load entry)), w)

def findTable (id : Nat) (create : Bool) : World → Nat → Nat → List Nat → Option Nat × World
  | w, _, table, [] => (some table, w)
  | w, level, table, index :: rest =>
    match nextTable w id (table + 8 * index) level create with
    | (none, w) => (none, w)
    | (some next, w) => findTable id create w (level + 1) next rest

/-- `mmu_find_pte_locked`. What it returns is the level 3 table, not the entry in it. -/
def findPte (w : World) (id va : Nat) (create : Bool) : Option Nat × World :=
  findTable id create w 0 (w.contexts id).rootPa [l0Index va, l1Index va, l2Index va]

/-- `mmu_map_user_page_locked`. -/
def mapUserPage (w : World) (id va pa : Nat) (flags : BitVec 64) : Bool × World :=
  match findPte w id va true with
  | (none, w) => (false, w)
  | (some l3, w) => (true, w.store (l3 + 8 * l3Index va) (pageEntry pa flags))

/-- `mmu_context_create`; `block` is the answer of `kmalloc`. -/
def contextCreate (w : World) (block : Option Nat) : Option Nat × World :=
  match block with
  | none => (none, w)
  | some id =>
    match pageAlloc w.pages with
    | (none, _) => (none, w)
    | (some root, pages) =>
      let (asid, asids) := w.asids.alloc
      let w := (w.setPages pages).setAsids asids
      if asid = 0 then (none, w.setPages (pageFree pages root))
      else
        let mm : MmContext :=
          { rootPa := root, asid := asid, life := MmLifecycle.created, pages := [] }
        match mm.addPage root with
        | none => (none, (w.setPages (pageFree pages root)).setAsids (asids.free asid))
        | some mm => (some id, w.enroll id mm)

/-- `mmu_context_release`: the pages go back last to first. -/
def contextRelease (w : World) (id : Nat) : World :=
  let mm := w.contexts id
  let pages := mm.pages.foldr (fun pa s => if pa = 0 then s else pageFree s pa) w.pages
  ((w.setPages pages).setAsids (w.asids.free mm.asid)).expel id

def contextGet (w : World) (id : Nat) : Bool × World :=
  let life := (w.contexts id).life
  (life.get.1, w.setLife id life.get.2)

def contextPut (w : World) (id : Nat) : World :=
  let life := (w.contexts id).life
  let w := w.setLife id life.put.2
  if life.put.1 = true then contextRelease w id else w

/-- The CPU's old context loses its bit of `active_cpu_mask`. -/
def leaveOld (w : World) (cpu : Fin 4) : World :=
  match w.cpuContext cpu with
  | none => w
  | some old => w.setLife old ((w.contexts old).life.leave cpu).2

/-- The locked section of `mmu_context_switch`: the CPU gives up its old context and installs
the new one unless that is dying. -/
def switchContext (w : World) (cpu : Fin 4) (target : Option Nat) : World :=
  let w := leaveOld w cpu
  match target.filter fun id => (w.contexts id).life.installable with
  | none => w.setCpu cpu none
  | some id => (w.setLife id ((w.contexts id).life.enter cpu)).setCpu cpu (some id)

/-- `mmu_context_switch` on one CPU; the old context may be released after the lock. -/
def contextSwitch (w : World) (cpu : Fin 4) (target : Option Nat) : World :=
  if w.pages.mmuEnabled = false then w
  else
    match w.cpuContext cpu with
    | none => switchContext w cpu target
    | some old =>
      if ((w.contexts old).life.leave cpu).1 = true then
        contextRelease (switchContext w cpu target) old
      else switchContext w cpu target

/-- A loop over slots that returns at the first failure. -/
def untilFailure (body : Nat → World → Bool × World) : List Nat → World → Bool × World
  | [], w => (true, w)
  | slot :: rest, w =>
    match body slot w with
    | (false, w) => (false, w)
    | (true, w) => untilFailure body rest w

/-- The level 3 branch of `mmu_clone_walk_locked`: the page is shared, read-only on both
sides. The destination tracks the page before it takes the reference. -/
def cloneLeaf (dst srcTable dstTable slot : Nat) (w : World) : Bool × World :=
  let entry := w.load (srcTable + 8 * slot)
  if ¬ Valid entry then (true, w)
  else
    match w.addPage dst (descAddr entry) with
    | none => (false, w)
    | some w =>
      let w := w.setPages (pageRefInc w.pages (descAddr entry))
      let w := w.store (dstTable + 8 * slot) (cowEntry entry)
      (true, w.store (srcTable + 8 * slot) (cowEntry entry))

/-- The table branch before its recursive call: the copy of the table, linked and empty.
`none` in the first component is the failure return. -/
def cloneSubTable (dst dstTable slot : Nat) (entry : BitVec 64) (w : World) : Option Nat × World :=
  match pageAlloc w.pages with
  | (none, _) => (none, w)
  | (some pa, pages) =>
    match (w.setPages pages).addPage dst pa with
    | none => (none, w.setPages (pageFree pages pa))
    | some w =>
      let w := w.setMem (w.pages.mem.zero pa 4096)
      (some pa, w.store (dstTable + 8 * slot) (clonedTableEntry pa entry))

/-- `mmu_clone_walk_locked` at level `3 - below`. Blocks are skipped. -/
def cloneWalk (dst : Nat) : Nat → Nat → Nat → World → Bool × World
  | 0, srcTable, dstTable, w => untilFailure (cloneLeaf dst srcTable dstTable) (List.range 512) w
  | below + 1, srcTable, dstTable, w =>
    untilFailure (fun slot w =>
      let entry := w.load (srcTable + 8 * slot)
      if IsTable entry then
        match cloneSubTable dst dstTable slot entry w with
        | (none, w) => (false, w)
        | (some pa, w) => cloneWalk dst below (descAddr entry) pa w
      else (true, w)) (List.range 512) w

/-- `mmu_context_clone`; a walk that fails drops the new context. -/
def contextClone (w : World) (src : Nat) (block : Option Nat) : Option Nat × World :=
  match contextCreate w block with
  | (none, w) => (none, w)
  | (some dst, w) =>
    match cloneWalk dst 3 (w.contexts src).rootPa (w.contexts dst).rootPa w with
    | (true, w) => (some dst, w)
    | (false, w) => (none, contextPut w dst)

inductive VmType where
  | anon | elf | heap
  deriving DecidableEq, Repr

/-- `struct vm_region`. Every place that registers a region composes its flags from the
`MMU_USER_PAGE_*` constants. -/
structure VmRegion where
  start : Nat
  stop : Nat
  type : VmType
  flags : BitVec 64
  elfImage : Nat
  elfOffset : Nat
  fileSize : Nat
  plain : flags &&& ~~~userAttributes = 0#64

/-- The part of `struct process` the fault handler reads. -/
structure VmLayout where
  regions : List VmRegion
  brk : Nat

/-- The address and length of what the fault handler copies from `elf_image` into the page
at `pageVa`. -/
def elfSource (region : VmRegion) (pageVa : Nat) : Option (Nat × Nat) :=
  let regionOffset := Word64.sub pageVa region.start
  if region.type = .elf ∧ region.elfImage ≠ 0 ∧ regionOffset < region.fileSize then
    some (Word64.add (Word64.add region.elfImage region.elfOffset) regionOffset,
      min (region.fileSize - regionOffset) 4096)
  else none

/-- A byte read through a kernel pointer. -/
def kernelByte (m : Mem) (address : Nat) : BitVec 8 := m.byte (PageAlloc.pagePtrToPa true address)

/-- A page is zeroed, then filled from the image. -/
def fillFromRegion (region : VmRegion) (pageVa pa : Nat) (m : Mem) : Mem :=
  let m := m.zero pa 4096
  match elfSource region pageVa with
  | none => m
  | some (source, length) =>
    m.fillBytes pa (fun m j => kernelByte m (Word64.add source j)) length

/-- The end both translation-fault paths share: a new page is prepared, tracked and mapped,
and given back when either fails. -/
def mapNewPage (w : World) (id pageVa : Nat) (flags : BitVec 64) (prepare : Nat → Mem → Mem) :
    Bool × World :=
  match pageAlloc w.pages with
  | (none, _) => (false, w)
  | (some pa, pages) =>
    let w := (w.setPages pages).setMem (prepare pa pages.mem)
    match w.addPage id pa with
    | none => (false, w.setPages (pageFree w.pages pa))
    | some w =>
      match mapUserPage w id pageVa pa flags with
      | (true, w) => (true, w)
      | (false, w) =>
        let w := w.removePage id pa
        (false, w.setPages (pageFree w.pages pa))

/-- The flags of heap and stack pages outside every region. -/
def defaultFlags : BitVec 64 := 0x60000000000744#64

theorem defaultFlags_plain : defaultFlags &&& ~~~userAttributes = 0#64 := by decide

def regionFor (layout : VmLayout) (far : Nat) : Option VmRegion :=
  layout.regions.reverse.find? fun region => region.start ≤ far ∧ far < region.stop

/-- `[USER_HEAP_BASE, brk)` or the megabyte below `USER_STACK_TOP`. -/
def growable (layout : VmLayout) (far : Nat) : Bool :=
  (0x10000000 ≤ far ∧ far < layout.brk) ∨ (0x80000000 - 0x100000 ≤ far ∧ far < 0x80000000)

def translationFault (layout : VmLayout) (w : World) (id far : Nat) : Bool × World :=
  let pageVa := 4096 * (far / 4096)
  match regionFor layout far with
  | some region => mapNewPage w id pageVa region.flags (fillFromRegion region pageVa)
  | none =>
    if growable layout far = true then mapNewPage w id pageVa defaultFlags fun _ m => m
    else (false, w)

/-- The copy-on-write path. -/
def permissionFault (w : World) (id far : Nat) : Bool × World :=
  match resolveUserPageDesc w.pages.mem (w.contexts id) far with
  | none => (false, w)
  | some ptr =>
    let entry := w.load ptr
    if ¬ IsCow entry then (false, w)
    else if pageRefGet w.pages (descAddr entry) = 1 then (true, w.store ptr (upgradedEntry entry))
    else
      match pageAlloc w.pages with
      | (none, _) => (false, w)
      | (some pa, pages) =>
        let w := (w.setPages pages).setMem (pages.mem.copyBytes pa (descAddr entry) 4096)
        match w.addPage id pa with
        | none => (false, w.setPages (pageFree w.pages pa))
        | some w =>
          let w := w.store ptr (copiedEntry pa entry)
          let w := w.removePage id (descAddr entry)
          (true, w.setPages (pageRefDec w.pages (descAddr entry)).2)

/-- `fsc & 0x3C` of a syndrome register. -/
def fscType (esr : Nat) : Nat := esr &&& 0x3F &&& 0x3C

/-- `mmu_handle_process_page_fault_locked`. -/
def handlePageFault (layout : VmLayout) (w : World) (id far esr : Nat) : Bool × World :=
  if w.pages.mmuEnabled = false then (false, w)
  else if fscType esr = 0x04 ∧ (resolveUserPage w.pages.mem (w.contexts id) far).isSome = true then
    (true, w)
  else if fscType esr = 0x0C then permissionFault w id far
  else if fscType esr = 0x04 then translationFault layout w id far
  else (false, w)

/-- The body of the loop in `mmu_unmap_user_range`. It reads and clears the first entry of
the table `mmu_find_pte_locked` returns. -/
def unmapAt (id : Nat) (w : World) (curr : Nat) : World :=
  match findPte w id curr false with
  | (none, w) => w
  | (some pte, w) =>
    let entry := w.load pte
    if Valid entry then
      let w := (w.store pte 0#64).removePage id (descAddr entry)
      w.setPages (pageRefDec w.pages (descAddr entry)).2
    else w

/-- `mmu_unmap_user_range`. -/
def unmapUserRange (w : World) (id va len : Nat) : World :=
  if len = 0 then w
  else
    let start := Word64.alignDown va 4096
    let stop := Word64.alignDown (Word64.add (Word64.add va len) 4095) 4096
    (pagesFrom start ((stop - start) / 4096)).foldl (unmapAt id) w

/-- One critical section of `mmu_copy_user_range` that writes, or an EL0 store: the bytes go
to the page when its descriptor allows EL0 to write. -/
def writeUser (w : World) (id va : Nat) (bytes : List (BitVec 8)) : Option World :=
  (resolveUserPage w.pages.mem (w.contexts id) va).bind fun (pa, entry) =>
    if userAccessAllowed entry true = true then
      some (w.setMem (w.pages.mem.storeBytes (pa + va % 4096) bytes))
    else none

/-- `mmu_copy_to_user`, trying at most `fuel` times; `none` when that was not enough.
`current` says that the context is the running task's, whose faults can be handled. -/
def copyToUser (layout : VmLayout) (current : Bool) (id : Nat) :
    Nat → World → Nat → List (BitVec 8) → Option (Bool × World)
  | _, w, _, [] => some (true, w)
  | 0, _, _, _ => none
  | fuel + 1, w, va, bytes =>
    let faulted (esr : Nat) :=
      if current = true then
        match handlePageFault layout w id va esr with
        | (true, w) => copyToUser layout current id fuel w va bytes
        | (false, w) => some (false, w)
      else some (false, w)
    match resolveUserPage w.pages.mem (w.contexts id) va with
    | none => faulted 0x04
    | some (pa, entry) =>
      if userAccessAllowed entry true = true then
        let chunk := min (4096 - va % 4096) bytes.length
        let w := w.setMem (w.pages.mem.storeBytes (pa + va % 4096) (bytes.take chunk))
        copyToUser layout current id fuel w (Word64.add va chunk) (bytes.drop chunk)
      else faulted 0x0F

/-- The byte a user address reads, when it resolves. -/
def readUser (m : Mem) (mm : MmContext) (va : Nat) : Option (BitVec 8) :=
  (resolveUserPage m mm va).map fun page => m.byte (page.1 + va % 4096)

end OsArmv8a.Mmu
