import OsArmv8a.Mmu

/-! The ELF loader of `process.c`: header checks, load bases, segment regions and
`process_create_from_elf`. Header fields are read from image bytes and every sum is 64-bit. -/

set_option autoImplicit false

namespace OsArmv8a.Elf

open Mmu

/-- An image buffer. `byte` is what memory holds at an offset from its pointer, also outside the
buffer; offsets are taken modulo `2^64`. -/
structure Image where
  address : Nat
  size : Nat
  byte : Nat → BitVec 8
  size_lt : size < 2 ^ 64

namespace Image

/-- A little-endian field of `width` bytes. -/
def field (image : Image) (offset width : Nat) : Nat :=
  (List.range width).foldr
    (fun i rest => (image.byte (Word64.add offset i)).toNat + 256 * rest) 0

def eType (image : Image) : Nat := image.field 16 2
def eMachine (image : Image) : Nat := image.field 18 2
def eEntry (image : Image) : Nat := image.field 24 8
def ePhoff (image : Image) : Nat := image.field 32 8
def ePhentsize (image : Image) : Nat := image.field 54 2
def ePhnum (image : Image) : Nat := image.field 56 2

end Image

/-- The fields of `struct elf64_phdr` the loader reads. -/
structure Phdr where
  type : Nat
  flags : Nat
  offset : Nat
  vaddr : Nat
  filesz : Nat
  memsz : Nat
  deriving DecidableEq

namespace Image

/-- The program header at an offset of the image. -/
def phdrAt (image : Image) (offset : Nat) : Phdr :=
  { type := image.field offset 4
    flags := image.field (Word64.add offset 4) 4
    offset := image.field (Word64.add offset 8) 8
    vaddr := image.field (Word64.add offset 16) 8
    filesz := image.field (Word64.add offset 32) 8
    memsz := image.field (Word64.add offset 40) 8 }

/-- Where `&phdrs[index]` lies. -/
def phdrOffset (image : Image) (index : Nat) : Nat := Word64.add image.ePhoff (56 * index)

def phdrs (image : Image) : List Phdr :=
  (List.range image.ePhnum).map fun index => image.phdrAt (image.phdrOffset index)

/-- `process_is_elf_image`. -/
def isElfImage (image : Image) : Bool :=
  image.address ≠ 0 ∧ 64 ≤ image.size ∧ image.byte 0 = 0x7f#8 ∧ image.byte 1 = 0x45#8 ∧
    image.byte 2 = 0x4c#8 ∧ image.byte 3 = 0x46#8

/-- `process_validate_elf_header`. -/
def validHeader (image : Image) : Bool :=
  image.address ≠ 0 ∧ 64 ≤ image.size ∧ image.byte 4 = 2#8 ∧ image.byte 5 = 1#8 ∧
    (image.eType = 2 ∨ image.eType = 3) ∧ image.eMachine = 183 ∧ image.ePhoff ≠ 0 ∧
    image.ePhentsize = 56 ∧ image.ePhnum ≠ 0 ∧
    Word64.add image.ePhoff (56 * image.ePhnum) ≤ image.size

end Image

/-- `PT_LOAD` with something in memory: the headers the loader does not skip. -/
def Phdr.loads (p : Phdr) : Bool := p.type = 1 ∧ p.memsz ≠ 0

/-- The loop of `process_elf_load_bounds`; the accumulator is `none` while nothing was found. -/
def elfLoadBoundsFrom (found : Option (Nat × Nat)) : List Phdr → Option (Nat × Nat)
  | [] => found
  | p :: rest =>
    if p.loads = false then elfLoadBoundsFrom found rest
    else if p.memsz < p.filesz then none
    else
      let segmentEnd := Word64.add p.vaddr p.memsz
      if segmentEnd ≤ p.vaddr then none
      else
        elfLoadBoundsFrom
          (match found with
            | none => some (p.vaddr, segmentEnd)
            | some (low, high) => some (min p.vaddr low, max segmentEnd high)) rest

/-- `process_elf_load_bounds`. -/
def elfLoadBounds (phdrs : List Phdr) : Option (Nat × Nat) := elfLoadBoundsFrom none phdrs

def userCodeBase : Nat := 0x1000
def userHeapLimit : Nat := 0x70000000
def userStackTop : Nat := 0x80000000
def guardSize : Nat := 4096
def loadStride : Nat := 0x10000

/-- `process_choose_elf_load_bias`: the bias, 0 also for failure, and the moved cursor. -/
def chooseElfLoadBias (nextBase imageStart imageEnd : Nat) : Nat × Nat :=
  let span := Word64.alignUp (Word64.sub imageEnd imageStart) 4096
  if span = 0 ∨ userHeapLimit - userCodeBase ≤ span then (0, nextBase)
  else
    let maxBase := userHeapLimit - guardSize - span
    if maxBase < userCodeBase then (0, nextBase)
    else
      let base := if nextBase < userCodeBase ∨ maxBase < nextBase then userCodeBase else nextBase
      let moved := Word64.add base loadStride
      (Word64.sub base imageStart, if maxBase < moved then userCodeBase else moved)

/-- `process_elf_page_flags`, from `ELF_PF_W` (bit 1) and `ELF_PF_X` (bit 0). -/
def elfPageFlags (elfFlags : Nat) : BitVec 64 :=
  if elfFlags.testBit 1 = true then 0x60000000000744#64
  else if elfFlags.testBit 0 = true then 0x200000000007c4#64
  else 0x600000000007c4#64

theorem elfPageFlags_plain (elfFlags : Nat) : elfPageFlags elfFlags &&& ~~~userAttributes = 0#64 := by
  unfold elfPageFlags
  split
  · decide
  · split <;> decide

/-- `process_add_region`, with `PROCESS_VM_REGIONS_MAX` 16. -/
def addRegion (regions : List VmRegion) (region : VmRegion) : Option (List VmRegion) :=
  if 16 ≤ regions.length then none else some (regions ++ [region])

/-- The region a loaded segment is registered as. -/
def segmentRegion (image : Image) (loadBias : Nat) (p : Phdr) : VmRegion :=
  let alignedVaddr := Word64.alignDown p.vaddr 4096
  let offsetDiff := Word64.sub p.vaddr alignedVaddr
  { start := Word64.add loadBias alignedVaddr
    stop := Word64.add loadBias (Word64.alignUp (Word64.add p.vaddr p.memsz) 4096)
    type := .elf
    flags := elfPageFlags p.flags
    elfImage := image.address
    elfOffset := Word64.sub p.offset offsetDiff
    fileSize := Word64.add p.filesz offsetDiff
    plain := elfPageFlags_plain p.flags }

/-- `process_map_elf_segment`. -/
def mapElfSegment (image : Image) (loadBias : Nat) (regions : List VmRegion) (p : Phdr) :
    Option (List VmRegion) :=
  if p.loads = false then some regions
  else if p.flags.testBit 1 = true ∧ p.flags.testBit 0 = true then none
  else if p.memsz < p.filesz ∨ image.size < Word64.add p.offset p.filesz then none
  else
    let region := segmentRegion image loadBias p
    if region.start < userCodeBase ∨ userHeapLimit < region.stop ∨ region.stop ≤ region.start then none
    else addRegion regions region

/-- `struct process_elf_load_state`, the part of `struct process` it fills and the cursor
`process_next_elf_load_base`. -/
structure LoadState where
  nextBase : Nat
  objectCount : Nat
  maxMappedEnd : Nat
  mainPhdrVa : Nat
  mainPhent : Nat
  mainPhnum : Nat
  mainEntry : Nat
  interpLoadBias : Nat
  interpEntry : Nat
  entryVa : Nat
  regions : List VmRegion
  ownedImages : List Nat

/-- A C string; only as much as the code looks at. -/
abbrev CString := Nat → BitVec 8

/-- `process_copy_string` into a buffer of `room` bytes. -/
def copyString (src : CString) : (room index : Nat) → Option (List (BitVec 8))
  | 0, _ => none
  | room + 1, index =>
    if src index = 0#8 then some []
    else if room = 0 then none
    else (copyString src room (index + 1)).map (src index :: ·)

/-- The load bias of an object and the cursor after it. -/
def objectBias (image : Image) (nextBase imageStart imageEnd : Nat) : Nat × Nat :=
  if image.eType = 3 then chooseElfLoadBias nextBase imageStart imageEnd
  else
    let past := Word64.add imageStart (Word64.alignUp (Word64.sub imageEnd imageStart) 4096)
    (0, if nextBase < past then Word64.alignUp past loadStride else nextBase)

/-- The entry points: the main object's auxiliary-vector values, and `entry_va` when `setEntry`. -/
def recordEntry (state : LoadState) (image : Image) (loadBias : Nat) (setEntry : Bool) : LoadState :=
  let main := state.objectCount = 0
  let entry := Word64.add loadBias image.eEntry
  { state with
    mainPhdrVa := if main then Word64.add loadBias image.ePhoff else state.mainPhdrVa
    mainPhent := if main then image.ePhentsize else state.mainPhent
    mainPhnum := if main then image.ePhnum else state.mainPhnum
    mainEntry := if main then entry else state.mainEntry
    entryVa := if setEntry then entry else state.entryVa
    interpLoadBias := if setEntry ∧ ¬ main then loadBias else state.interpLoadBias
    interpEntry := if setEntry ∧ ¬ main then entry else state.interpEntry }

/-- The object is recorded once its segments are registered. -/
def finishObject (state : LoadState) (image : Image) (loadBias imageEnd nextBase : Nat)
    (regions : List VmRegion) : Option LoadState :=
  let mappedEnd := Word64.alignUp (Word64.add loadBias imageEnd) 4096
  if userHeapLimit < Word64.alignUp (Word64.add mappedEnd guardSize) 4096 then none
  else
    some { state with
      nextBase := nextBase
      regions := regions
      maxMappedEnd := max mappedEnd state.maxMappedEnd
      objectCount := state.objectCount + 1
      ownedImages := state.ownedImages ++ [image.address] }

/-- `process_register_loaded_object`; `none` is its 0. -/
def registerLoadedObject (state : LoadState) (name : CString) (image : Image) (setEntry : Bool) :
    Option LoadState :=
  if 8 ≤ state.objectCount then none
  else if image.validHeader = false then none
  else if copyString name 64 0 = none then none
  else
    match elfLoadBounds image.phdrs with
    | none => none
    | some (imageStart, imageEnd) =>
      let (loadBias, nextBase) := objectBias image state.nextBase imageStart imageEnd
      if image.eType = 3 ∧ loadBias = 0 ∧ imageStart ≠ 0 ∧ 0 < state.objectCount then none
      else if setEntry = true ∧ (image.eEntry < imageStart ∨ imageEnd ≤ image.eEntry) then none
      else
        match image.phdrs.foldlM (mapElfSegment image loadBias) state.regions with
        | none => none
        | some regions =>
          finishObject (recordEntry state image loadBias setEntry) image loadBias imageEnd nextBase
            regions

/-- The string of `PT_INTERP`: the first such header decides, and is ignored when it does not fit. -/
def interpPath (image : Image) : Option CString :=
  (image.phdrs.find? fun p => p.type = 3).bind fun p =>
    if Word64.add p.offset p.filesz ≤ image.size then
      some fun i => image.byte (Word64.add p.offset i)
    else none

/-- What `process_create_from_elf` gets from the rest of the kernel. -/
structure Kernel where
  /-- `kmalloc(sizeof(struct process))` succeeds. -/
  processBlock : Bool
  /-- `mmu_context_create()`. -/
  context : Option Nat
  /-- `process_load_file_image`. -/
  loadFile : CString → Option Image

/-- The layout fields of `struct process`. -/
structure Process where
  mm : Nat
  entryVa : Nat
  heapStart : Nat
  brk : Nat
  heapLimit : Nat
  heapMappedEnd : Nat
  regions : List VmRegion
  ownedImages : List Nat

/-- The megabyte below `USER_STACK_TOP`. -/
def stackRegion : VmRegion :=
  { start := userStackTop - 0x100000, stop := userStackTop, type := .anon, flags := defaultFlags,
    elfImage := 0, elfOffset := 0, fileSize := 0, plain := defaultFlags_plain }

def heapRegion (heapStart : Nat) : VmRegion :=
  { start := heapStart, stop := userHeapLimit, type := .anon, flags := defaultFlags,
    elfImage := 0, elfOffset := 0, fileSize := 0, plain := defaultFlags_plain }

/-- The caller does not look at the result of `process_add_region`. -/
def tryRegion (regions : List VmRegion) (region : VmRegion) : List VmRegion :=
  (addRegion regions region).getD regions

def mainName : CString := fun i => [0x3c#8, 0x6d#8, 0x61#8, 0x69#8, 0x6e#8, 0x3e#8].getD i 0#8

def emptyLoad : LoadState :=
  { nextBase := userCodeBase, objectCount := 0, maxMappedEnd := 0, mainPhdrVa := 0, mainPhent := 0,
    mainPhnum := 0, mainEntry := 0, interpLoadBias := 0, interpEntry := 0, entryVa := 0,
    regions := [], ownedImages := [] }

/-- The objects of a process: the main one, and the interpreter when a path names one. -/
def loadObjects (kernel : Kernel) (image : Image) : Option LoadState :=
  match interpPath image with
  | none => registerLoadedObject emptyLoad mainName image true
  | some path =>
    (registerLoadedObject emptyLoad mainName image false).bind fun state =>
      (kernel.loadFile path).bind fun interp => registerLoadedObject state path interp true

/-- The end of `process_create_from_elf`: heap, stack and heap regions, ownership of the images. -/
def finishProcess (mm : Nat) (state : LoadState) : Option Process :=
  let heapStart := Word64.alignUp (Word64.add state.maxMappedEnd guardSize) 4096
  if userHeapLimit < heapStart then none
  else
    some
      { mm := mm, entryVa := state.entryVa, heapStart := heapStart, brk := heapStart,
        heapLimit := userHeapLimit, heapMappedEnd := heapStart,
        regions := tryRegion (tryRegion state.regions stackRegion) (heapRegion heapStart),
        ownedImages := state.ownedImages.take 8 }

/-- `process_create_from_elf`; the contents of the argument stack are not part of the layout. -/
def createFromElf (kernel : Kernel) (image : Image) : Option Process :=
  if image.isElfImage = false then none
  else if image.validHeader = false then none
  else if kernel.processBlock = false then none
  else
    kernel.context.bind fun mm => (loadObjects kernel image).bind fun state => finishProcess mm state

end OsArmv8a.Elf
