import OsArmv8a.ElfLayout

/-! The kernel and `ld_main` on where the main object lies: `AT_PHDR` as `process_register_loaded_object`
computes it, the segments as the fault handler fills them, and the load bias `ld_main` gets back from the
two. -/

set_option autoImplicit false

namespace OsArmv8a.Elf

open Mmu

/-- What a byte of user memory starts out as. -/
inductive Source where
  | zero
  | file (address : Nat)
  deriving DecidableEq

/-- Where the fault handler takes the byte at `va` from when that address faults; `none` when the fault
is fatal. -/
def source (layout : VmLayout) (va : Nat) : Option Source :=
  match regionFor layout va with
  | some region =>
    some (match elfSource region (4096 * (va / 4096)) with
      | some (address, length) =>
        if va % 4096 < length then .file (Word64.add address (va % 4096)) else .zero
      | none => .zero)
  | none => if growable layout va = true then some .zero else none

def Source.byte (memory : Nat → BitVec 8) : Source → BitVec 8
  | .zero => 0#8
  | .file address => memory address

/-- What the process reads at an address; `memory` is kernel memory, with the images. -/
def userByte (memory : Nat → BitVec 8) (layout : VmLayout) (va : Nat) : Option (BitVec 8) :=
  (source layout va).map (Source.byte memory)

/-- The page a fault builds holds the byte of its source. -/
theorem fillFromRegion_source {layout : VmLayout} {region : VmRegion} {va pa : Nat} (m : Mem)
    (found : regionFor layout va = some region) (aligned : 4096 ∣ pa)
    (apart : ∀ address, source layout va = some (.file address) →
      PageAlloc.pagePtrToPa true address < pa ∨ pa + 4096 ≤ PageAlloc.pagePtrToPa true address) :
    some ((fillFromRegion region (4096 * (va / 4096)) pa m).byte (pa + va % 4096)) =
      userByte (kernelByte m) layout va := by
  have zeroed : (m.zero pa 4096).byte (pa + va % 4096) = 0#8 :=
    Mem.byte_zero m (by omega) (by omega)
  unfold userByte source at *
  rw [found] at apart ⊢
  unfold fillFromRegion
  dsimp only at apart ⊢
  split
  · rename_i none
    rw [none]
    exact congrArg some zeroed
  · rename_i address length filed
    rw [filed] at apart ⊢
    dsimp only at apart ⊢
    split
    · rename_i inside
      have outside := apart _ (by rw [if_pos inside])
      rw [Mem.byte_fillBytes _ _ _ inside]
      refine congrArg some (Mem.byte_congr ((Mem.fillBytes_outside _ _ _ ?_).trans
        (Mem.zero_outside m ?_))) <;> omega
    · rw [Mem.byte_fillBytes_outside _ _ _ (by omega)]
      exact congrArg some zeroed

def Process.layout (process : Process) : VmLayout :=
  { regions := process.regions, brk := process.brk }

/-- A field of user memory; `none` when a read of it faults. -/
def readField (read : Nat → Option (BitVec 8)) (address width : Nat) : Option Nat :=
  (List.range width).foldr
    (fun i rest => (read (Word64.add address i)).bind fun byte =>
      rest.map fun rest => byte.toNat + 256 * rest) (some 0)

/-- The loop of `ld_main` that looks for `PT_PHDR`, with `count` headers to go. -/
def phdrBias (read : Nat → Option (BitVec 8)) (phdr : Nat) : (count index : Nat) → Option Nat
  | 0, _ => some 0
  | count + 1, index =>
    (readField read (Word64.add phdr (56 * index)) 4).bind fun type =>
      if type = 6 then
        (readField read (Word64.add (Word64.add phdr (56 * index)) 16) 8).map (Word64.sub phdr)
      else phdrBias read phdr count (index + 1)

/-- The second method of `ld_main`: the table may lie behind an ELF header. -/
def headerBias (read : Nat → Option (BitVec 8)) (phdr : Nat) : Option Nat :=
  (read (Word64.sub phdr 64)).bind fun first =>
    if first ≠ 0x7f#8 then some 0
    else
      (read (Word64.add (Word64.sub phdr 64) 1)).map fun second =>
        if second = 0x45#8 then Word64.sub phdr 64 else 0

/-- `app_load_bias` of `ld_main`; a 0 from `PT_PHDR` counts as not found. -/
def appLoadBias (read : Nat → Option (BitVec 8)) (phdr phnum : Nat) : Option Nat :=
  (phdrBias read phdr phnum 0).bind fun bias =>
    if bias ≠ 0 then some bias else headerBias read phdr

/-- `ld_main` looks for the bias of an object that the kernel has mapped. -/
def Derives (state : LoadState) : Prop :=
  state.interpLoadBias ≠ 0 ∧ state.mainPhdrVa ≠ 0 ∧ 0 < state.mainPhnum ∧ state.mainEntry ≠ 0

instance (state : LoadState) : Decidable (Derives state) := inferInstanceAs (Decidable (_ ∧ _))

/-- `AT_PHDR` is where the program header table of the image is mapped, and `ld_main` finds the bias with
which the kernel has mapped it. -/
structure Agrees (memory : Nat → BitVec 8) (main : Image) (state : LoadState) (process : Process) :
    Prop where
  table : ∀ k < 56 * main.ePhnum, source process.layout (Word64.add state.mainPhdrVa k) =
    some (.file (Word64.add main.address (Word64.add main.ePhoff k)))
  bias : Derives state →
    appLoadBias (userByte memory process.layout) state.mainPhdrVa state.mainPhnum =
      some (objectBias main userCodeBase main.low main.high).1

/-- The bias of the main object, which is loaded first. -/
def Image.linkBias (image : Image) : Nat :=
  if image.eType = 3 then Word64.sub userCodeBase image.low else 0

theorem Image.linkBias_lt (image : Image) : image.linkBias < 2 ^ 64 := by
  unfold Image.linkBias
  split
  · exact Word64.sub_lt _ _
  · exact Nat.two_pow_pos 64

/-- The segment that holds the page of a link-time address; of several the last. -/
def Image.holder (image : Image) (v : Nat) : Option Phdr :=
  image.loadable.reverse.find? fun p => p.pageStart ≤ v ∧ v < p.pageEnd

/-- What the segments hold at a link-time address. -/
def Image.linkByte (image : Image) (v : Nat) : Option (BitVec 8) :=
  (image.holder v).map fun p =>
    if v < p.vaddr + p.filesz then image.byte (Word64.sub (Word64.add p.offset v) p.vaddr) else 0#8

/-- The segments hold the program header table at the link-time address `e_phoff`, unmoved. -/
def TableInPlace (main : Image) : Prop :=
  ∀ k < 56 * main.ePhnum, ∃ p, main.holder (Word64.add main.ePhoff k) = some p ∧
    p.vaddr = p.offset ∧ Word64.add main.ePhoff k < p.vaddr + p.filesz

/-- The bytes 64 below the table can be read and do not look like an ELF header. -/
def NoHeaderBelow (main : Image) : Prop :=
  match main.linkByte (Word64.sub main.ePhoff 64) with
  | none => 0x10000000 ≤ Word64.sub main.ePhoff 64
  | some first => first = 0x7f#8 → main.linkByte (Word64.add (Word64.sub main.ePhoff 64) 1) ≠ some 0x45#8

/-- Without `PT_PHDR`: the table follows the header of an image that is moved, or nothing like a header
lies before that of an unmoved one. -/
def HeaderGuessed (main : Image) : Prop :=
  if main.linkBias ≠ 0 then main.ePhoff = 64 else NoHeaderBelow main

/-- `PT_PHDR` gives `e_phoff` as the address of the table; where the difference to `AT_PHDR` is 0, that is
taken for no `PT_PHDR`. -/
def BiasFound (main : Image) : Prop :=
  match main.phdrs.find? fun p => p.type = 6 with
  | none => HeaderGuessed main
  | some p =>
    if p.vaddr = Word64.add main.linkBias main.ePhoff then HeaderGuessed main
    else p.vaddr = main.ePhoff

/-- The bias of the interpreter. -/
def interpBias (main interp : Image) : Nat :=
  if interp.eType = 3 then Word64.sub (interpBase main interp) interp.low else 0

/-- No segment of the interpreter shares a page with the table or the 64 bytes below it. -/
def TableApart (kernel : Kernel) (main : Image) : Prop :=
  ∀ interp ∈ interpreter kernel main, ∀ q ∈ interp.loadable, ∀ k < 64 + 56 * main.ePhnum,
    let page := Word64.add main.linkBias (Word64.add (Word64.sub main.ePhoff 64) k) / 4096
    let region := segmentRegion interp (interpBias main interp) q
    region.stop ≤ 4096 * page ∨ 4096 * page + 4096 ≤ region.start

section Segments

variable {image : Image} {p : Phdr} {bias v : Nat}

/-- A region that was moved as a whole page range. -/
structure Moved (image : Image) (bias : Nat) (p : Phdr) (v : Nat) : Prop where
  inside : (segmentRegion image bias p).start ≤ Word64.add bias v ∧
    Word64.add bias v < (segmentRegion image bias p).stop ↔ p.pageStart ≤ v ∧ v < p.pageEnd
  distance : p.pageStart ≤ v → v < p.pageEnd →
    Word64.add bias v = (segmentRegion image bias p).start + (v - p.pageStart)

/-- The bytes of a page before the segment are skipped in the file as well. -/
theorem file_position {offset vaddr v : Nat} (lower : 4096 * (vaddr / 4096) ≤ v) :
    Word64.add (Word64.sub offset (vaddr % 4096)) (v - 4096 * (vaddr / 4096)) =
      Word64.sub (Word64.add offset v) vaddr := by
  unfold Word64.add Word64.sub
  omega

/-- What the fault handler copies is the file from the segment's offset on. -/
theorem segment_source (address : image.address ≠ 0) (file : p.vaddr + p.filesz < 2 ^ 64)
    (aligned : bias % 4096 = 0) (moved : Moved image bias p v)
    (lower : p.pageStart ≤ v) (upper : v < p.pageEnd) :
    (match elfSource (segmentRegion image bias p) (4096 * (Word64.add bias v / 4096)) with
      | some (address, length) =>
        if Word64.add bias v % 4096 < length then
          Source.file (Word64.add address (Word64.add bias v % 4096))
        else .zero
      | none => .zero) =
      if v < p.vaddr + p.filesz then
        .file (Word64.add image.address (Word64.sub (Word64.add p.offset v) p.vaddr))
      else .zero := by
  have distance := moved.distance lower upper
  have start := segmentRegion_start_mod image bias p
  have top : Word64.add bias v < 2 ^ 64 := Word64.add_lt _ _
  have page : p.pageStart = 4096 * (p.vaddr / 4096) := rfl
  have size : (segmentRegion image bias p).fileSize = p.filesz + p.vaddr % 4096 := by
    simp only [segmentRegion, Word64.alignDown, Word64.add, Word64.sub]
    omega
  have fileOffset : (segmentRegion image bias p).elfOffset = Word64.sub p.offset (p.vaddr % 4096) := by
    simp only [segmentRegion, Word64.alignDown]
    simp only [Word64.sub]
    omega
  have skipped : Word64.sub (4096 * (Word64.add bias v / 4096)) (segmentRegion image bias p).start =
      4096 * (v / 4096) - p.pageStart := by
    rw [Word64.sub_of_le (by omega) (by omega)]
    omega
  have within : Word64.add bias v % 4096 = v % 4096 := by omega
  unfold elfSource
  rw [skipped, size, fileOffset, within]
  by_cases filed : v < p.vaddr + p.filesz
  · rw [if_pos filed, if_pos ⟨rfl, address, by omega⟩]
    dsimp only
    rw [if_pos (by omega)]
    have skip : Word64.add (4096 * (v / 4096) - p.pageStart) (v % 4096) = v - p.pageStart := by
      rw [Word64.add_of_lt (by omega)]
      omega
    rw [show (segmentRegion image bias p).elfImage = image.address from rfl, Word64.add_assoc,
      Word64.add_assoc, skip, page, file_position (by omega)]
  · rw [if_neg filed]
    split
    · rename_i address length found
      obtain ⟨-, same⟩ := Option.ite_none_right_eq_some.mp found
      rw [if_neg]
      rw [← (Prod.mk.inj (Option.some.inj same)).2]
      omega
    · rfl

end Segments

section Main

variable {kernel : Kernel} {main : Image} {state : LoadState} {process : Process}
variable {after : LoadState}

/-- The auxiliary-vector values come from the first object. -/
theorem registerLoadedObject_record {before : LoadState} {name : CString} {image : Image}
    {setEntry : Bool} (accepted : registerLoadedObject before name image setEntry = some after) :
    after.mainPhdrVa = (if before.objectCount = 0 then
        Word64.add (objectBias image before.nextBase image.low image.high).1 image.ePhoff
      else before.mainPhdrVa) ∧
      after.mainPhnum = if before.objectCount = 0 then image.ePhnum else before.mainPhnum := by
  unfold registerLoadedObject at accepted
  iterate 3
    split at accepted
    · cases accepted
  split at accepted
  · cases accepted
  rename_i low high bounds
  rw [(elfLoadBounds_spec bounds).low_eq, (elfLoadBounds_spec bounds).high_eq]
  cases chosen : objectBias image before.nextBase low high with
  | mk loadBias nextBase =>
  rw [chosen] at accepted
  dsimp only at accepted
  iterate 3
    split at accepted
    · cases accepted
  unfold finishObject at accepted
  dsimp only at accepted
  split at accepted
  · cases accepted
  · cases accepted
    exact ⟨rfl, rfl⟩

theorem loadObjects_record (loaded : loadObjects kernel main = some state) :
    state.mainPhdrVa =
        Word64.add (objectBias main userCodeBase main.low main.high).1 main.ePhoff ∧
      state.mainPhnum = main.ePhnum := by
  unfold loadObjects at loaded
  split at loaded
  · exact registerLoadedObject_record loaded
  · obtain ⟨middle, first, rest⟩ := Option.bind_eq_some_iff.mp loaded
    obtain ⟨interp, _, second⟩ := Option.bind_eq_some_iff.mp rest
    have empty : emptyLoad.regions.length ≤ 16 := Nat.zero_le 16
    obtain ⟨_, registered⟩ := registerLoadedObject_loads empty first
    have count : middle.objectCount ≠ 0 := by
      rw [registered.objectCount]
      exact Nat.succ_ne_zero _
    obtain ⟨phdr, phnum⟩ := registerLoadedObject_record second
    rw [if_neg count] at phdr phnum
    rw [phdr, phnum]
    exact registerLoadedObject_record first

/-- What `process_create_from_elf` has checked and set besides the regions. -/
theorem createFromElf_finished (accepted : createFromElf kernel main = some process)
    (loaded : loadObjects kernel main = some state) :
    main.isElfImage = true ∧ process.brk = process.heapStart ∧ process.heapStart ≤ userHeapLimit ∧
      process.heapStart = Word64.alignUp (Word64.add state.maxMappedEnd guardSize) 4096 ∧
      process.regions = tryRegion (tryRegion state.regions stackRegion)
        (heapRegion process.heapStart) := by
  unfold createFromElf at accepted
  split at accepted
  · cases accepted
  rename_i elf
  iterate 2
    split at accepted
    · cases accepted
  obtain ⟨mm, _, rest⟩ := Option.bind_eq_some_iff.mp accepted
  rw [loaded] at rest
  replace rest : finishProcess mm state = some process := rest
  unfold finishProcess at rest
  dsimp only at rest
  split at rest
  · cases rest
  · rename_i below
    cases rest
    exact ⟨Bool.of_not_eq_false elf, rfl, Nat.le_of_not_lt below, rfl, rfl⟩

variable {bias : Nat}

/-- The main object goes to the lowest base, so it is not accepted unless it starts on a page. -/
theorem Registered.startsOnPage
    (registered : Registered emptyLoad after main main.low main.high bias) : StartsOnPage main := by
  intro kind
  have object := registered.object
  have placed := registered.placed ⟨le_rfl, rfl⟩
  obtain ⟨moved, _⟩ := placed.dynamic kind
  obtain ⟨p, member, loads, lowest⟩ := object.bounds.lowest
  have start := (object.mapped p member loads).start
  rw [segmentRegion_start, moved, show emptyLoad.nextBase = userCodeBase from rfl, baseFor_bottom] at start
  simp only [Phdr.pageStart, Word64.add, Word64.sub, userCodeBase] at start
  omega

theorem Registered.linkBias (registered : Registered emptyLoad after main main.low main.high bias) :
    bias = main.linkBias := by
  have placed := registered.placed ⟨le_rfl, rfl⟩
  unfold Image.linkBias
  split
  · rename_i kind
    rw [(placed.dynamic kind).1, show emptyLoad.nextBase = userCodeBase from rfl, baseFor_bottom]
  · rename_i kind
    exact (placed.static kind).1

theorem loadObjects_bias (loaded : loadObjects kernel main = some state) :
    (objectBias main userCodeBase main.low main.high).1 = main.linkBias := by
  cases loadObjects_spec loaded with
  | alone _ registered =>
    rw [← registered.linkBias]
    exact congrArg Prod.fst registered.bias
  | linked _ registered _ =>
    rw [← registered.linkBias]
    exact congrArg Prod.fst registered.bias

/-- The regions of an accepted process from the main object's side. -/
structure Situated (kernel : Kernel) (main : Image) (process : Process) : Prop where
  address : main.address ≠ 0
  aligned : main.linkBias % 4096 = 0
  fits : ∀ p ∈ main.loadable, p.offset < 2 ^ 64 ∧ p.vaddr + p.memsz < 2 ^ 64 ∧ p.filesz ≤ p.memsz
  moved : ∀ p ∈ main.loadable, ∀ v < 2 ^ 64, Moved main main.linkBias p v
  range : ∀ p ∈ main.loadable, userCodeBase ≤ (segmentRegion main main.linkBias p).start ∧
    (segmentRegion main main.linkBias p).stop + guardSize ≤ process.heapStart
  regions : ∃ interps anon,
    process.regions = main.loadable.map (segmentRegion main main.linkBias) ++ interps ++ anon ∧
    (∀ r ∈ interps, ∃ interp ∈ interpreter kernel main, ∃ q ∈ interp.loadable,
      r = segmentRegion interp (interpBias main interp) q) ∧
    ∀ r ∈ anon, r.type = .anon ∧ process.heapStart ≤ r.start

theorem tryRegion_eq (regions : List VmRegion) (region : VmRegion) :
    ∃ added, tryRegion regions region = regions ++ added ∧ ∀ r ∈ added, r = region := by
  unfold tryRegion addRegion
  split
  · exact ⟨[], (List.append_nil _).symm, by simp⟩
  · exact ⟨[region], rfl, by simp⟩

theorem Registered.moved
    (registered : Registered emptyLoad after main main.low main.high main.linkBias) {p : Phdr}
    (loadable : p ∈ main.loadable) {v : Nat} (small : v < 2 ^ 64) : Moved main main.linkBias p v := by
  obtain ⟨member, loads⟩ := Image.mem_loadable.mp loadable
  have object := registered.object
  have placed := registered.placed ⟨le_rfl, rfl⟩
  obtain ⟨start, stop, _⟩ := placed.home object registered.startsOnPage member loads
  have covered := object.bounds.covers p member loads
  have high := object.bounds.high_lt
  have checked := object.mapped p member loads
  have bottom := checked.start
  have top := checked.stop
  rw [show emptyLoad.nextBase = userCodeBase from rfl, baseFor_bottom] at start stop
  unfold homeStart at start
  unfold homeEnd at stop
  simp only [userCodeBase, userHeapLimit] at *
  by_cases kind : main.eType = 3
  · rw [if_pos kind] at start stop
    have pagesEnd : p.pageEnd = 4096 * ((p.vaddr + p.memsz + 4095) / 4096) := rfl
    have bias : main.linkBias = Word64.sub userCodeBase main.low := if_pos kind
    have va : Word64.add main.linkBias v = (4096 + (2 ^ 64 - main.low) + v) % 2 ^ 64 := by
      rw [bias, Word64.sub, Word64.add, Nat.mod_eq_of_lt (by omega : main.low < 2 ^ 64)]
      exact Nat.mod_add_mod _ _ _
    refine ⟨?_, fun lower upper => ?_⟩
    · omega
    · omega
  · rw [if_neg kind] at start stop
    have bias : main.linkBias = 0 := if_neg kind
    have va : Word64.add main.linkBias v = v := by
      rw [bias, Word64.add_of_lt (by omega), Nat.zero_add]
    refine ⟨by rw [start, stop, va], fun lower upper => ?_⟩
    omega

/-- The bias of an interpreter, from where the main object has left the cursor. -/
theorem Registered.interpBias {middle : LoadState} {interp : Image} {moved : Nat}
    (first : Registered emptyLoad middle main main.low main.high bias)
    (second : Registered middle state interp interp.low interp.high moved) :
    moved = interpBias main interp := by
  have placed := first.secondPlaced second
  unfold Elf.interpBias
  split
  · rename_i kind
    exact (placed.dynamic kind).1
  · rename_i kind
    exact (placed.static kind).1

/-- The facts that do not depend on an interpreter. -/
theorem Registered.situated {limit : Nat} {interps : List VmRegion}
    (registered : Registered emptyLoad after main main.low main.high main.linkBias)
    (below : Word64.alignUp (Word64.add main.linkBias main.high) 4096 ≤ limit)
    (room : limit + guardSize ≤ userHeapLimit)
    (heap : process.heapStart = Word64.alignUp (Word64.add limit guardSize) 4096)
    (top : process.heapStart ≤ userHeapLimit) (regions : process.regions = tryRegion (tryRegion
      (main.loadable.map (segmentRegion main main.linkBias) ++ interps) stackRegion)
      (heapRegion process.heapStart))
    (others : ∀ r ∈ interps, ∃ interp ∈ interpreter kernel main, ∃ q ∈ interp.loadable,
      r = segmentRegion interp (Elf.interpBias main interp) q) : Situated kernel main process := by
  have object := registered.object
  have placed := registered.placed ⟨le_rfl, rfl⟩
  have aligned := registered.startsOnPage
  obtain ⟨stack, first, onlyStack⟩ := tryRegion_eq
    (main.loadable.map (segmentRegion main main.linkBias) ++ interps) stackRegion
  obtain ⟨heap', second, onlyHeap⟩ := tryRegion_eq
    (main.loadable.map (segmentRegion main main.linkBias) ++ interps ++ stack)
    (heapRegion process.heapStart)
  refine ⟨object.address, placed.bias_mod.mpr aligned, ?_, fun p member v => registered.moved member,
    ?_, interps, stack ++ heap', ?_, others, ?_⟩
  · intro p loadable
    obtain ⟨member, loads⟩ := Image.mem_loadable.mp loadable
    have covered := object.bounds.covers p member loads
    have high := object.bounds.high_lt
    exact ⟨(Image.phdrs_fit member).offset, by omega, covered.1⟩
  · intro p loadable
    obtain ⟨member, loads⟩ := Image.mem_loadable.mp loadable
    refine ⟨(object.mapped p member loads).start, ?_⟩
    rw [heap]
    exact object.belowHeap placed aligned below room _ (List.mem_map_of_mem loadable)
  · rw [regions, first, second, List.append_assoc]
  · intro r member
    rcases List.mem_append.mp member with old | new
    · rw [onlyStack r old]
      refine ⟨rfl, Nat.le_trans top ?_⟩
      decide
    · rw [onlyHeap r new]
      exact ⟨rfl, le_rfl⟩

theorem createFromElf_situated (accepted : createFromElf kernel main = some process)
    (loaded : loadObjects kernel main = some state) : Situated kernel main process := by
  obtain ⟨_, _, top, heap, regions⟩ := createFromElf_finished accepted loaded
  cases loadObjects_spec loaded with
  | alone none registered =>
    have bias := registered.linkBias
    subst bias
    have mapped := (registered.placed ⟨le_rfl, rfl⟩).mappedEnd registered.object
    have highest := registered.maxMappedEnd
    rw [show emptyLoad.maxMappedEnd = 0 from rfl, Nat.max_zero] at highest
    rw [highest] at heap
    refine registered.situated le_rfl mapped heap top ?_ (fun r member => absurd member List.not_mem_nil)
    rw [regions, registered.regions, List.append_nil]
    rfl
  | linked found first second =>
    have bias := first.linkBias
    have other := first.interpBias second
    subst bias other
    have mainEnd := (first.placed ⟨le_rfl, rfl⟩).mappedEnd first.object
    have interpEnd := (first.secondPlaced second).mappedEnd second.object
    have highest := second.maxMappedEnd
    rw [first.maxMappedEnd, show emptyLoad.maxMappedEnd = 0 from rfl, Nat.max_zero] at highest
    rw [highest] at heap
    refine first.situated (Nat.le_max_right _ _) (by omega) heap top
      (by rw [regions, first.bothRegions second]) ?_
    intro r member
    obtain ⟨q, loadable, rfl⟩ := List.mem_map.mp member
    exact ⟨_, found, q, loadable, rfl⟩

/-- No region of the interpreter reaches into the page of `va`. -/
def PageApart (kernel : Kernel) (main : Image) (va : Nat) : Prop :=
  ∀ interp ∈ interpreter kernel main, ∀ q ∈ interp.loadable,
    (segmentRegion interp (interpBias main interp) q).stop ≤ 4096 * (va / 4096) ∨
      4096 * (va / 4096) + 4096 ≤ (segmentRegion interp (interpBias main interp) q).start

theorem TableApart.page (apart : TableApart kernel main) {k : Nat} (inside : k < 56 * main.ePhnum) :
    PageApart kernel main (Word64.add main.linkBias (Word64.add main.ePhoff k)) := by
  intro interp found q loadable
  have outside := apart interp found q loadable (64 + k) (by omega)
  rwa [show Word64.add (Word64.sub main.ePhoff 64) (64 + k) = Word64.add main.ePhoff k by
    simp only [Word64.add, Word64.sub]; omega] at outside

/-- The first 64 of the addresses lie below the table. -/
theorem TableApart.header (apart : TableApart kernel main) {k : Nat} (inside : k < 64) :
    PageApart kernel main (Word64.add main.linkBias (Word64.add (Word64.sub main.ePhoff 64) k)) :=
  fun interp found q loadable => apart interp found q loadable k (by omega)

namespace Situated

variable {v : Nat}

/-- Regions are searched from the last to the first. -/
theorem regionFor_mains (situated : Situated kernel main process) (small : v < 2 ^ 64)
    (apart : PageApart kernel main (Word64.add main.linkBias v)) :
    ∃ anon : List VmRegion, (∀ r ∈ anon, r.type = .anon ∧ process.heapStart ≤ r.start) ∧
      regionFor process.layout (Word64.add main.linkBias v) =
        (anon.reverse.find? fun r => r.start ≤ Word64.add main.linkBias v ∧
          Word64.add main.linkBias v < r.stop).or
          ((main.holder v).map (segmentRegion main main.linkBias)) := by
  obtain ⟨interps, anon, regions, others, anonymous⟩ := situated.regions
  have nowhere : (interps.reverse.find? fun r => r.start ≤ Word64.add main.linkBias v ∧
      Word64.add main.linkBias v < r.stop) = none := by
    rw [List.find?_eq_none]
    intro r member
    obtain ⟨interp, found, q, loadable, rfl⟩ := others r (List.mem_reverse.mp member)
    have outside := apart interp found q loadable
    simp only [decide_eq_true_eq]
    omega
  have mains : ((main.loadable.map (segmentRegion main main.linkBias)).reverse.find? fun r =>
      r.start ≤ Word64.add main.linkBias v ∧ Word64.add main.linkBias v < r.stop) =
        (main.holder v).map (segmentRegion main main.linkBias) := by
    rw [← List.map_reverse, List.find?_map]
    congr 1
    refine List.find?_congr fun p member => ?_
    exact decide_eq_decide.mpr (situated.moved p (List.mem_reverse.mp member) v small).inside
  refine ⟨anon, anonymous, ?_⟩
  rw [regionFor, Process.layout, regions, List.reverse_append, List.reverse_append,
    List.find?_append, List.find?_append, nowhere, Option.none_or, mains]

variable {p : Phdr}

theorem holder_spec (held : main.holder v = some p) :
    p ∈ main.loadable ∧ p.pageStart ≤ v ∧ v < p.pageEnd := by
  have inside := List.find?_some held
  exact ⟨List.mem_reverse.mp (List.mem_of_find?_eq_some held), of_decide_eq_true inside⟩

/-- An address of the main object lies below the heap. -/
theorem below_heap (situated : Situated kernel main process) (small : v < 2 ^ 64)
    (held : main.holder v = some p) : userCodeBase ≤ Word64.add main.linkBias v ∧
      Word64.add main.linkBias v + guardSize < process.heapStart := by
  obtain ⟨loadable, inside⟩ := holder_spec held
  have within := (situated.moved p loadable v small).inside.mpr inside
  have range := situated.range p loadable
  omega

theorem anon_none {anon : List VmRegion} {heapStart va : Nat}
    (anonymous : ∀ r ∈ anon, r.type = .anon ∧ heapStart ≤ r.start) (below : va < heapStart) :
    (anon.reverse.find? fun r => r.start ≤ va ∧ va < r.stop) = none := by
  rw [List.find?_eq_none]
  intro r member
  have start := (anonymous r (List.mem_reverse.mp member)).2
  simp only [decide_eq_true_eq]
  omega

section

variable (situated : Situated kernel main process)

include situated

section

variable (small : v < 2 ^ 64) (apart : PageApart kernel main (Word64.add main.linkBias v))

include small apart

theorem source_held (held : main.holder v = some p) :
    source process.layout (Word64.add main.linkBias v) =
      some (if v < p.vaddr + p.filesz then
        .file (Word64.add main.address (Word64.sub (Word64.add p.offset v) p.vaddr)) else .zero) := by
  obtain ⟨anon, anonymous, found⟩ := situated.regionFor_mains small apart
  obtain ⟨loadable, lower, upper⟩ := holder_spec held
  obtain ⟨offset, memory, file⟩ := situated.fits p loadable
  have below := (situated.below_heap small held).2
  have heap := anon_none anonymous (Nat.lt_of_le_of_lt (Nat.le_add_right _ _) below)
  rw [heap, held] at found
  unfold source
  rw [found]
  exact congrArg some (segment_source situated.address (by omega) situated.aligned
    (situated.moved p loadable v small) lower upper)

theorem source_unheld (held : main.holder v = none) (address : Nat) :
    source process.layout (Word64.add main.linkBias v) ≠ some (.file address) := by
  obtain ⟨anon, anonymous, found⟩ := situated.regionFor_mains small apart
  rw [held, Option.map_none, Option.or_none] at found
  unfold source
  rw [found]
  intro filed
  split at filed
  · rename_i region first
    have type := (anonymous region (List.mem_reverse.mp (List.mem_of_find?_eq_some first))).1
    rw [elfSource, if_neg (by simp [type])] at filed
    cases filed
  · split at filed <;> cases filed

/-- Below the heap only the fallback for old heaps serves addresses outside the segments. -/
theorem source_below (held : main.holder v = none) (brk : process.brk = process.heapStart)
    (below : Word64.add main.linkBias v < process.heapStart) :
    source process.layout (Word64.add main.linkBias v) =
      if 0x10000000 ≤ Word64.add main.linkBias v then some .zero else none := by
  obtain ⟨anon, anonymous, found⟩ := situated.regionFor_mains small apart
  have heap := anon_none anonymous below
  rw [held, heap] at found
  unfold source
  rw [found]
  have grows : growable process.layout (Word64.add main.linkBias v) =
      decide (0x10000000 ≤ Word64.add main.linkBias v) := by
    simp only [growable, Process.layout]
    refine decide_eq_decide.mpr ?_
    omega
  simp only [Option.map_none, Option.or_none, grows, decide_eq_true_eq]

theorem userByte_held (held : main.holder v = some p) {memory : Nat → BitVec 8}
    (stored : ∀ i < 2 ^ 64, memory (Word64.add main.address i) = main.byte i) :
    userByte memory process.layout (Word64.add main.linkBias v) = main.linkByte v := by
  rw [userByte, situated.source_held small apart held, Image.linkByte, held]
  simp only [Option.map_some, Option.some.injEq]
  split
  · exact stored _ (Word64.sub_lt _ _)
  · rfl

end

/-- The table is mapped at `AT_PHDR` exactly when the segments have it at its file offset. -/
theorem table_iff (apart : TableApart kernel main) :
    (∀ k < 56 * main.ePhnum,
      source process.layout (Word64.add (Word64.add main.linkBias main.ePhoff) k) =
        some (.file (Word64.add main.address (Word64.add main.ePhoff k)))) ↔ TableInPlace main := by
  refine forall₂_congr fun k inside => ?_
  have small : Word64.add main.ePhoff k < 2 ^ 64 := Word64.add_lt _ _
  have page := apart.page inside
  rw [Word64.add_assoc]
  cases held : main.holder (Word64.add main.ePhoff k) with
  | none => simp [situated.source_unheld small page held]
  | some p =>
    obtain ⟨loadable, _⟩ := holder_spec held
    obtain ⟨offset, memory, file⟩ := situated.fits p loadable
    rw [situated.source_held small page held]
    generalize Word64.add main.ePhoff k = v at *
    simp only [Option.some.injEq, exists_eq_left']
    split
    · rename_i filed
      simp only [Source.file.injEq, Word64.add, Word64.sub]
      omega
    · rename_i unfiled
      simp [unfiled]

end

end Situated

end Main

section Bias

variable {image : Image} {read : Nat → Option (BitVec 8)} {phdr : Nat}

theorem readField_eq {address offset width : Nat} (bytes : ∀ i < width,
    read (Word64.add address i) = some (image.byte (Word64.add offset i))) :
    readField read address width = some (image.field offset width) := by
  have along : ∀ indices : List Nat, (∀ i ∈ indices, i < width) →
      indices.foldr (fun i rest => (read (Word64.add address i)).bind fun byte =>
        rest.map fun rest => byte.toNat + 256 * rest) (some 0) =
        some (indices.foldr (fun i rest => (image.byte (Word64.add offset i)).toNat + 256 * rest) 0) := by
    intro indices below
    induction indices with
    | nil => rfl
    | cons i rest ih =>
      obtain ⟨first, others⟩ := List.forall_mem_cons.mp below
      rw [List.foldr_cons, ih others, bytes i first]
      rfl
  exact along (List.range width) fun i member => List.mem_range.mp member

/-- A field of the table, read from user memory. -/
theorem readField_table (start width : Nat) (table : ∀ k < 56 * image.ePhnum,
      read (Word64.add phdr k) = some (image.byte (Word64.add image.ePhoff k)))
    (inside : start + width ≤ 56 * image.ePhnum) :
    readField read (Word64.add phdr start) width =
      some (image.field (Word64.add image.ePhoff start) width) := by
  have count : image.ePhnum < 256 ^ 2 := image.field_lt 56 2
  refine readField_eq fun i below => ?_
  rw [Word64.add_assoc, Word64.add_assoc, Word64.add_of_lt (by omega : start + i < 2 ^ 64)]
  exact table (start + i) (by omega)

/-- The loop of `ld_main` finds the first `PT_PHDR` of the image. -/
theorem phdrBias_eq (table : ∀ k < 56 * image.ePhnum,
      read (Word64.add phdr k) = some (image.byte (Word64.add image.ePhoff k))) :
    ∀ count index, index + count = image.ePhnum → phdrBias read phdr count index =
      some (((image.phdrs.drop index).find? fun p => p.type = 6).elim 0 fun p =>
        Word64.sub phdr p.vaddr) := by
  have number : image.ePhnum < 256 ^ 2 := image.field_lt 56 2
  have length : image.phdrs.length = image.ePhnum := by
    rw [Image.phdrs, List.length_map, List.length_range]
  intro count
  induction count with
  | zero =>
    intro index all
    rw [List.drop_eq_nil_of_le (by omega)]
    rfl
  | succ count ih =>
    intro index all
    have inside : index < image.phdrs.length := by omega
    have here : image.phdrs[index] = image.phdrAt (Word64.add image.ePhoff (56 * index)) := by
      simp only [Image.phdrs, List.getElem_map, List.getElem_range, Image.phdrOffset]
    have type := readField_table (56 * index) 4 table (by omega)
    have vaddr := readField_table (56 * index + 16) 8 table (by omega)
    rw [← Word64.add_of_lt (by omega : 56 * index + 16 < 2 ^ 64), ← Word64.add_assoc,
      ← Word64.add_assoc] at vaddr
    rw [phdrBias, type, Option.bind_some, vaddr, ih (index + 1) (by omega),
      List.drop_eq_getElem_cons inside, here]
    by_cases found : image.field (Word64.add image.ePhoff (56 * index)) 4 = 6
    · rw [if_pos found, List.find?_cons_of_pos (by simp [Image.phdrAt, found])]
      rfl
    · rw [if_neg found, List.find?_cons_of_neg (by simp [Image.phdrAt, found])]

theorem headerBias_cases {bias : Nat} (found : headerBias read phdr = some bias) :
    bias = 0 ∨ bias = Word64.sub phdr 64 := by
  obtain ⟨first, _, rest⟩ := Option.bind_eq_some_iff.mp found
  split at rest
  · exact .inl (Option.some.inj rest).symm
  · obtain ⟨second, _, rfl⟩ := Option.map_eq_some_iff.mp rest
    split
    · exact .inr rfl
    · exact .inl rfl

/-- Segments hold whole pages. -/
theorem Image.holder_page {v w : Nat} (same : v / 4096 = w / 4096) : image.holder v = image.holder w := by
  refine List.find?_congr fun p _ => decide_eq_decide.mpr ?_
  simp only [Phdr.pageStart, Phdr.pageEnd]
  omega

end Bias

section Agreement

variable {kernel : Kernel} {main : Image} {process : Process} {memory : Nat → BitVec 8}

/-- What the header is read from: with the table in place, the page of the table starts with the file. -/
theorem Situated.header_read (situated : Situated kernel main process) (apart : TableApart kernel main)
    (stored : ∀ i < 2 ^ 64, memory (Word64.add main.address i) = main.byte i)
    (table : TableInPlace main) (nonempty : main.ePhnum ≠ 0) (first : main.ePhoff = 64) {k : Nat}
    (inside : k < 64) :
    userByte memory process.layout (Word64.add main.linkBias k) = some (main.byte k) := by
  obtain ⟨p, held, vaddr, filed⟩ := table 0 (by omega)
  have page : main.holder k = some p := by
    rw [← held]
    exact Image.holder_page (by simp only [Word64.add]; omega)
  have below := apart.header inside
  rw [first, show Word64.add (Word64.sub 64 64) k = k by
    simp only [Word64.add, Word64.sub]; omega] at below
  rw [situated.userByte_held (by omega) below page stored, Image.linkByte, page, Option.map_some]
  simp only [Word64.add] at filed
  rw [if_pos (by omega)]
  congr 2
  simp only [Word64.add, Word64.sub]
  omega

/-- Below the heap of an unmoved object. -/
theorem Situated.read_unmoved (situated : Situated kernel main process) {v : Nat} (small : v < 2 ^ 64)
    (apart : PageApart kernel main v)
    (stored : ∀ i < 2 ^ 64, memory (Word64.add main.address i) = main.byte i)
    (unmoved : main.linkBias = 0) (brk : process.brk = process.heapStart)
    (below : v < process.heapStart) :
    userByte memory process.layout v =
      (main.linkByte v).or (if 0x10000000 ≤ v then some 0#8 else none) := by
  have stays : Word64.add main.linkBias v = v := by
    rw [unmoved, Word64.add_of_lt (by omega), Nat.zero_add]
  rw [← stays] at apart below
  cases held : main.holder v with
  | none =>
    have read := situated.source_below small apart held brk below
    rw [stays] at read
    rw [userByte, read, Image.linkByte, held, Option.map_none]
    split <;> rfl
  | some p =>
    have read := situated.userByte_held small apart held stored
    rw [stays] at read
    rw [read, Image.linkByte, held]
    rfl

theorem Image.linkByte_page {v w : Nat} {p : Phdr} (held : main.holder w = some p)
    (same : v / 4096 = w / 4096) : ∃ byte, main.linkByte v = some byte := by
  rw [Image.linkByte, Image.holder_page same, held]
  exact ⟨_, rfl⟩

/-- The two bytes that the second method looks at. -/
theorem headerBias_zero {read : Nat → Option (BitVec 8)} {phdr : Nat} (moved : Word64.sub phdr 64 ≠ 0) :
    headerBias read phdr = some 0 ↔ ∃ first, read (Word64.sub phdr 64) = some first ∧
      (first = 0x7f#8 → ∃ second, read (Word64.add (Word64.sub phdr 64) 1) = some second ∧
        second ≠ 0x45#8) := by
  unfold headerBias
  rw [Option.bind_eq_some_iff]
  refine exists_congr fun first => and_congr_right fun _ => ?_
  by_cases magic : first = 0x7f#8
  · rw [if_neg (not_not.mpr magic), Option.map_eq_some_iff]
    simp only [magic, forall_const]
    refine exists_congr fun second => and_congr_right fun _ => ?_
    split
    · rename_i letter
      simp [letter, moved]
    · rename_i other
      simp [other]
  · simp [magic]

section

variable (situated : Situated kernel main process) (apart : TableApart kernel main)
  (stored : ∀ i < 2 ^ 64, memory (Word64.add main.address i) = main.byte i)
  (table : TableInPlace main) (nonempty : main.ePhnum ≠ 0)

include situated apart stored table nonempty

/-- An object that is not moved lies above the first page, and so does its table. -/
theorem Situated.header_unmoved (unmoved : main.linkBias = 0)
    (brk : process.brk = process.heapStart) :
    headerBias (userByte memory process.layout) main.ePhoff = some 0 ↔ NoHeaderBelow main := by
  have small : main.ePhoff < 2 ^ 64 := main.field_lt 32 8
  have stays : ∀ v < 2 ^ 64, Word64.add main.linkBias v = v := by
    intro v below
    rw [unmoved, Word64.add_of_lt (by omega), Nat.zero_add]
  obtain ⟨p, held, _, _⟩ := table 0 (by omega)
  rw [Word64.add_of_lt (by omega), Nat.add_zero] at held
  obtain ⟨low, high⟩ := situated.below_heap small held
  rw [stays _ small] at low high
  have back : Word64.sub main.ePhoff 64 = main.ePhoff - 64 :=
    Word64.sub_of_le (Nat.le_trans (by decide) low) small
  obtain ⟨v, position⟩ : ∃ v, main.ePhoff = v + 64 :=
    ⟨main.ePhoff - 64, by simp only [userCodeBase] at low; omega⟩
  have below := apart.header (show 0 < 64 by omega)
  have after := apart.header (show 1 < 64 by omega)
  rw [back, position] at below after
  rw [stays _ (Word64.add_lt _ _), Word64.add_of_lt (by omega)] at below after
  have first := situated.read_unmoved (v := v) (by omega) below stored unmoved brk
    (by simp only [guardSize] at high; omega)
  have second := situated.read_unmoved (v := v + 1) (by omega) after stored unmoved brk
    (by simp only [guardSize] at high; omega)
  have next : Word64.add v 1 = v + 1 := Word64.add_of_lt (by omega)
  rw [headerBias_zero (by rw [back]; simp only [userCodeBase] at low; omega)]
  unfold NoHeaderBelow
  rw [back, position, Nat.add_sub_cancel, next, first, second]
  cases found : main.linkByte v with
  | none =>
    split
    · rename_i served
      simpa using served
    · rename_i refused
      simpa using refused
  | some byte =>
    -- The second byte lies in the same page, or in the first page of the table.
    obtain ⟨other, foundNext⟩ : ∃ byte, main.linkByte (v + 1) = some byte := by
      obtain ⟨q, heldFirst, _⟩ := Option.map_eq_some_iff.mp found
      by_cases same : (v + 1) / 4096 = v / 4096
      · exact Image.linkByte_page heldFirst same
      · exact Image.linkByte_page held (by omega)
    rw [foundNext]
    simp

theorem Situated.header_iff (elf : main.isElfImage = true) (brk : process.brk = process.heapStart) :
    headerBias (userByte memory process.layout) (Word64.add main.linkBias main.ePhoff) =
      some main.linkBias ↔ HeaderGuessed main := by
  have small : main.ePhoff < 2 ^ 64 := main.field_lt 32 8
  have bias : main.linkBias < 2 ^ 64 := main.linkBias_lt
  unfold HeaderGuessed
  split
  · rename_i moved
    constructor
    · intro found
      rcases headerBias_cases found with zero | guessed
      · exact absurd zero moved
      · simp only [Word64.add, Word64.sub] at guessed
        omega
    · intro first
      have magic : _ ∧ _ := of_decide_eq_true elf
      have back : Word64.sub (Word64.add main.linkBias main.ePhoff) 64 = main.linkBias := by
        simp only [Word64.add, Word64.sub]
        omega
      have start : Word64.add main.linkBias 0 = main.linkBias := Word64.add_of_lt (by omega)
      have zero := situated.header_read apart stored table nonempty first (show 0 < 64 by omega)
      have one := situated.header_read apart stored table nonempty first (show 1 < 64 by omega)
      rw [start] at zero
      unfold headerBias
      rw [back, zero, one, magic.2.2.1, magic.2.2.2.1]
      rfl
  · rename_i unmoved
    have unmoved := not_not.mp unmoved
    have stays : Word64.add main.linkBias main.ePhoff = main.ePhoff := by
      rw [unmoved, Word64.add_of_lt (by omega), Nat.zero_add]
    rw [stays, unmoved]
    exact situated.header_unmoved apart stored table nonempty unmoved brk

theorem Situated.bias_iff (elf : main.isElfImage = true) (brk : process.brk = process.heapStart) :
    appLoadBias (userByte memory process.layout) (Word64.add main.linkBias main.ePhoff)
      main.ePhnum = some main.linkBias ↔ BiasFound main := by
  have small : main.ePhoff < 2 ^ 64 := main.field_lt 32 8
  have reads : ∀ k < 56 * main.ePhnum, userByte memory process.layout
      (Word64.add (Word64.add main.linkBias main.ePhoff) k) =
        some (main.byte (Word64.add main.ePhoff k)) := by
    intro k inside
    rw [userByte, (situated.table_iff apart).mpr table k inside]
    exact congrArg some (stored _ (Word64.add_lt _ _))
  have guess := situated.header_iff apart stored table nonempty elf brk
  have loop := phdrBias_eq reads main.ePhnum 0 (Nat.zero_add _)
  rw [List.drop_zero] at loop
  unfold appLoadBias BiasFound
  cases found : main.phdrs.find? fun p => p.type = 6 with
  | none =>
    rw [found, Option.elim_none] at loop
    rw [loop]
    exact guess
  | some p =>
    rw [found, Option.elim_some] at loop
    rw [loop, Option.bind_some]
    dsimp only
    have fits := (Image.phdrs_fit (List.mem_of_find?_eq_some found)).vaddr
    have zero : Word64.sub (Word64.add main.linkBias main.ePhoff) p.vaddr = 0 ↔
        p.vaddr = Word64.add main.linkBias main.ePhoff := by
      have lower : Word64.add main.linkBias main.ePhoff < 2 ^ 64 := Word64.add_lt _ _
      simp only [Word64.sub]
      omega
    by_cases same : p.vaddr = Word64.add main.linkBias main.ePhoff
    · rw [if_neg (not_not.mpr (zero.mpr same)), if_pos same]
      exact guess
    · rw [if_pos (zero.not.mpr same), if_neg same, Option.some.injEq]
      have bias : main.linkBias < 2 ^ 64 := main.linkBias_lt
      simp only [Word64.sub, Word64.add]
      omega

end

end Agreement

section Samples

/-- A program whose first segment is the first page of the file, headers included, linked at `base`. -/
def samplePage (type base : Nat) : Image :=
  sampleImage 0x10000 type base 64
    [{ type := 1, flags := 5, offset := 0, vaddr := base, filesz := 4096, memsz := 4096 },
      { type := 6, flags := 4, offset := 64, vaddr := base + 64, filesz := 168, memsz := 168 },
      interpSegment]

/-- Kernel memory with an image in it. -/
def Image.stored (image : Image) (address : Nat) : BitVec 8 := image.byte (Word64.sub address image.address)

theorem Image.stored_at {image : Image} :
    ∀ i < 2 ^ 64, image.stored (Word64.add image.address i) = image.byte i := by
  intro i below
  unfold Image.stored
  congr 1
  simp only [Word64.add, Word64.sub]
  omega

end Samples

end OsArmv8a.Elf
