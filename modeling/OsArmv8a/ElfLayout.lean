import OsArmv8a.ElfObjects

/-! Where `process_create_from_elf` puts the segments of the main object and of the interpreter,
the heap and the stack. -/

set_option autoImplicit false

namespace OsArmv8a.Elf

open Mmu

section Layout

variable {kernel : Kernel} {main interp : Image} {low high loadBias : Nat}

/-- The layout a process is meant to have; the regions of the main object come first. -/
structure Layout (main : Image) (process : Process) : Prop where
  inside : ∀ r ∈ process.regions, r.type = .elf →
    r.start % 4096 = 0 ∧ r.stop % 4096 = 0 ∧ userCodeBase ≤ r.start ∧ r.stop ≤ userHeapLimit
  apart : ∀ r ∈ process.regions.take main.loadable.length,
    ∀ q ∈ process.regions.drop main.loadable.length, q.type = .elf →
      r.stop ≤ q.start ∨ q.stop ≤ r.start
  guarded : ∀ r ∈ process.regions, r.type = .elf → r.stop + guardSize ≤ process.heapStart
  stack : stackRegion ∈ process.regions
  heap : heapRegion process.heapStart ∈ process.regions

/-- An object that is moved starts on a page boundary. -/
def StartsOnPage (image : Image) : Prop := image.eType = 3 → image.low % 4096 = 0

/-- Where the interpreter goes when it is moved. -/
def interpBase (main interp : Image) : Nat :=
  baseFor (cursorAfter main main.low main.high) interp.low interp.high

/-- The segments of both objects, each at the place of its object, share no page. -/
def NoSharedPage (main interp : Image) : Prop :=
  ∀ p ∈ main.loadable, ∀ q ∈ interp.loadable,
    homeEnd main userCodeBase main.low p ≤ homeStart interp (interpBase main interp) interp.low q ∨
      homeEnd interp (interpBase main interp) interp.low q ≤ homeStart main userCodeBase main.low p

/-- The images a process can be laid out for: two entries of the region table are left over. -/
def Placeable (kernel : Kernel) (main : Image) : Prop :=
  StartsOnPage main ∧
    match interpreter kernel main with
    | none => main.loadable.length ≤ 14
    | some interp => StartsOnPage interp ∧ NoSharedPage main interp ∧
        main.loadable.length + interp.loadable.length ≤ 14

variable {nextBase : Nat}

theorem Placed.bias_mod (placed : Placed main nextBase low high loadBias) :
    loadBias % 4096 = 0 ↔ (main.eType = 3 → low % 4096 = 0) := by
  have paged := placed.paged
  by_cases kind : main.eType = 3
  · obtain ⟨bias, _⟩ := placed.dynamic kind
    rw [bias]
    simp only [kind, Word64.sub, forall_const]
    omega
  · obtain ⟨bias, _⟩ := placed.static kind
    simp [bias, kind]

/-- The regions of one object lie inside the user range, and are aligned when the object is. -/
theorem Object.inside (object : Object main low high loadBias)
    (placed : Placed main nextBase low high loadBias) :
    (∀ r ∈ main.loadable.map (segmentRegion main loadBias),
      r.start % 4096 = 0 ∧ r.stop % 4096 = 0 ∧ userCodeBase ≤ r.start ∧ r.stop ≤ userHeapLimit) ↔
      (main.eType = 3 → low % 4096 = 0) := by
  rw [← placed.bias_mod]
  constructor
  · intro inside
    obtain ⟨p, member, loads, _⟩ := object.bounds.lowest
    have region := inside _ (List.mem_map_of_mem (Image.mem_loadable.mpr ⟨member, loads⟩))
    rw [segmentRegion_start_mod] at region
    exact region.1
  · intro aligned r member
    obtain ⟨p, loadable, rfl⟩ := List.mem_map.mp member
    obtain ⟨memberP, loads⟩ := Image.mem_loadable.mp loadable
    have mapped := object.mapped p memberP loads
    exact ⟨(segmentRegion_start_mod main loadBias p).trans aligned,
      (segmentRegion_stop_mod main loadBias p).trans aligned, mapped.start, mapped.stop⟩

theorem segmentRegions_elf (image : Image) (loadBias : Nat) (phdrs : List Phdr) :
    ∀ r ∈ phdrs.map (segmentRegion image loadBias), r.type = .elf := by
  intro r member
  obtain ⟨p, _, rfl⟩ := List.mem_map.mp member
  rfl

variable {regions : List VmRegion}

/-- The stack and heap regions are entered after the segments, as far as there is room. -/
theorem finished_regions (heapStart : Nat) (room : regions.length ≤ 16) :
    ∃ anon, tryRegion (tryRegion regions stackRegion) (heapRegion heapStart) = regions ++ anon ∧
      (∀ r ∈ anon, r.type = .anon) ∧
      (stackRegion ∈ anon ∧ heapRegion heapStart ∈ anon ↔ regions.length ≤ 14) := by
  have different : heapRegion heapStart ≠ stackRegion := by
    intro same
    exact absurd (congrArg VmRegion.stop same) (by decide : userHeapLimit ≠ userStackTop)
  rcases Nat.lt_or_ge 15 regions.length with full | spare
  · refine ⟨[], ?_, by simp, by simp; omega⟩
    simp [tryRegion, addRegion, show 16 ≤ regions.length by omega]
  · rcases Nat.lt_or_ge 14 regions.length with last | free
    · refine ⟨[stackRegion], ?_, List.forall_mem_singleton.mpr rfl, ?_⟩
      · simp [tryRegion, addRegion, show ¬ 16 ≤ regions.length by omega,
          show 16 ≤ regions.length + 1 by omega]
      · simp [different]
        omega
    · refine ⟨[stackRegion, heapRegion heapStart], ?_, ?_, ?_⟩
      · simp [tryRegion, addRegion, show ¬ 16 ≤ regions.length by omega,
          show ¬ 16 ≤ regions.length + 1 by omega]
      · exact List.forall_mem_cons.mpr ⟨rfl, List.forall_mem_singleton.mpr rfl⟩
      · simp [free]

variable {mains interps anon : List VmRegion}

/-- The regions behind those of the main object, without the stack and the heap. -/
theorem mem_drop_elf (split : regions = mains ++ interps ++ anon)
    (elf : ∀ r ∈ interps, r.type = .elf) (anonymous : ∀ r ∈ anon, r.type = .anon) {count : Nat}
    (length : mains.length = count) (q : VmRegion) :
    q ∈ regions.drop count ∧ q.type = .elf ↔ q ∈ interps := by
  rw [split, List.append_assoc, List.drop_left' length, List.mem_append]
  constructor
  · rintro ⟨old | new, kind⟩
    · exact old
    · rw [anonymous q new] at kind
      cases kind
  · exact fun old => ⟨Or.inl old, elf q old⟩

theorem take_mains (split : regions = mains ++ interps ++ anon) {count : Nat}
    (length : mains.length = count) : regions.take count = mains := by
  rw [split, List.append_assoc, List.take_left' length]

variable {process : Process}

/-- The layout in terms of the regions of the two objects. -/
theorem layout_iff (regions : process.regions = mains ++ interps ++ anon)
    (count : mains.length = main.loadable.length) (elf : ∀ r ∈ mains ++ interps, r.type = .elf)
    (anonymous : ∀ r ∈ anon, r.type = .anon)
    (entered : stackRegion ∈ anon ∧ heapRegion process.heapStart ∈ anon ↔
      (mains ++ interps).length ≤ 14) :
    Layout main process ↔
      (∀ r ∈ mains ++ interps, r.start % 4096 = 0 ∧ r.stop % 4096 = 0 ∧ userCodeBase ≤ r.start ∧
        r.stop ≤ userHeapLimit) ∧
      (∀ r ∈ mains, ∀ q ∈ interps, r.stop ≤ q.start ∨ q.stop ≤ r.start) ∧
      (∀ r ∈ mains ++ interps, r.stop + guardSize ≤ process.heapStart) ∧
      (mains ++ interps).length ≤ 14 := by
  have members : ∀ r, r ∈ process.regions ∧ r.type = .elf ↔ r ∈ mains ++ interps := by
    intro r
    rw [regions, List.mem_append]
    constructor
    · rintro ⟨old | new, kind⟩
      · exact old
      · rw [anonymous r new] at kind
        cases kind
    · exact fun old => ⟨Or.inl old, elf r old⟩
  have firsts := take_mains regions count
  have others := mem_drop_elf regions (fun r member => elf r (List.mem_append_right _ member))
    anonymous count
  have tables : ∀ r : VmRegion, r.type = .anon → (r ∈ process.regions ↔ r ∈ anon) := by
    intro r kind
    rw [regions, List.mem_append]
    constructor
    · rintro (old | new)
      · rw [elf r old] at kind
        cases kind
      · exact new
    · exact Or.inr
  have stack := tables stackRegion rfl
  have heap := tables (heapRegion process.heapStart) rfl
  constructor
  · intro layout
    refine ⟨?_, ?_, ?_, entered.mp ⟨stack.mp layout.stack, heap.mp layout.heap⟩⟩
    · intro r member
      obtain ⟨old, kind⟩ := (members r).mpr member
      exact layout.inside r old kind
    · intro r memberR q memberQ
      obtain ⟨old, kind⟩ := (others q).mpr memberQ
      exact layout.apart r (firsts ▸ memberR) q old kind
    · intro r member
      obtain ⟨old, kind⟩ := (members r).mpr member
      exact layout.guarded r old kind
  · rintro ⟨inside, apart, guarded, short⟩
    obtain ⟨stackIn, heapIn⟩ := entered.mpr short
    refine ⟨?_, ?_, ?_, stack.mpr stackIn, heap.mpr heapIn⟩
    · exact fun r member kind => inside r ((members r).mp ⟨member, kind⟩)
    · intro r memberR q memberQ kind
      exact apart r (firsts ▸ memberR) q ((others q).mp ⟨memberQ, kind⟩)
    · exact fun r member kind => guarded r ((members r).mp ⟨member, kind⟩)

/-- An object leaves the guard page below the heap limit. -/
theorem Placed.mappedEnd (placed : Placed main nextBase low high loadBias)
    (object : Object main low high loadBias) :
    Word64.alignUp (Word64.add loadBias high) 4096 + guardSize ≤ userHeapLimit := by
  have small := object.bounds.high_lt
  have ordered := object.ordered
  have paged := placed.paged
  by_cases kind : main.eType = 3
  · obtain ⟨bias, _, top⟩ := placed.dynamic kind
    generalize baseFor nextBase low high = base at *
    have rounds : 4096 * ((base + high - low + 4095) / 4096) ≤ base + spanOf low high := by
      simp only [spanOf]
      omega
    simp only [userHeapLimit, guardSize] at *
    rw [bias, Word64.add_sub_rebase (by omega) (Nat.mod_eq_of_lt small).symm (by omega) (by omega),
      Word64.alignUp_page, Nat.mod_eq_of_lt (by omega)]
    omega
  · obtain ⟨bias, _, top⟩ := placed.static kind
    simp only [userHeapLimit, guardSize] at *
    rw [bias, Word64.add_of_lt (by omega), Word64.alignUp_page, Nat.mod_eq_of_lt (by omega)]
    omega

/-- The regions of an aligned object end a guard page below a heap put above its mapped end. -/
theorem Object.belowHeap {limit : Nat} (object : Object main low high loadBias)
    (placed : Placed main nextBase low high loadBias) (aligned : main.eType = 3 → low % 4096 = 0)
    (below : Word64.alignUp (Word64.add loadBias high) 4096 ≤ limit)
    (room : limit + guardSize ≤ userHeapLimit) :
    ∀ r ∈ main.loadable.map (segmentRegion main loadBias),
      r.stop + guardSize ≤ Word64.alignUp (Word64.add limit guardSize) 4096 := by
  intro r member
  obtain ⟨p, loadable, rfl⟩ := List.mem_map.mp member
  obtain ⟨memberP, loads⟩ := Image.mem_loadable.mp loadable
  have ends := (placed.home object aligned memberP loads).2.2.trans below
  simp only [userHeapLimit, guardSize] at *
  rw [Word64.add_of_lt (by omega), Word64.alignUp_page]
  omega

variable {middle state : LoadState} {interpHigh interpBias : Nat}

/-- The interpreter is placed from where the main object has left the cursor. -/
theorem Registered.secondPlaced {interpLow : Nat}
    (first : Registered emptyLoad middle main low high loadBias)
    (second : Registered middle state interp interpLow interpHigh interpBias) :
    Placed interp (cursorAfter main low high) interpLow interpHigh interpBias := by
  have placed := first.placed ⟨le_rfl, rfl⟩
  have advanced : userCodeBase ≤ cursorAfter main low high ∧ cursorAfter main low high % 4096 = 0 :=
    cursorAfter_bottom fun kind => (placed.static kind).2.1
  rw [← first.cursor rfl] at advanced ⊢
  exact second.placed advanced

theorem Registered.bothRegions {interpLow : Nat}
    (first : Registered emptyLoad middle main low high loadBias)
    (second : Registered middle state interp interpLow interpHigh interpBias) :
    state.regions = main.loadable.map (segmentRegion main loadBias) ++
      interp.loadable.map (segmentRegion interp interpBias) := by
  rw [second.regions, first.regions]
  rfl

/-- A process of one object. -/
theorem layout_alone (registered : Registered emptyLoad state main main.low main.high loadBias)
    (heapStart : process.heapStart = Word64.alignUp (Word64.add state.maxMappedEnd guardSize) 4096)
    (regions : process.regions =
      tryRegion (tryRegion state.regions stackRegion) (heapRegion process.heapStart)) :
    Layout main process ↔ StartsOnPage main ∧ main.loadable.length ≤ 14 := by
  have object := registered.object
  have placed := registered.placed ⟨le_rfl, rfl⟩
  have mapped := placed.mappedEnd object
  obtain ⟨anon, finished, anonymous, entered⟩ := finished_regions process.heapStart registered.room
  have mains : state.regions = main.loadable.map (segmentRegion main loadBias) ++ [] := by
    rw [registered.regions, List.append_nil]
    rfl
  rw [mains] at finished entered
  rw [mains, finished] at regions
  rw [layout_iff regions (List.length_map _) (by simpa using segmentRegions_elf main loadBias main.loadable)
    anonymous entered, List.append_nil, object.inside placed, List.length_map]
  constructor
  · exact fun ⟨aligned, _, _, short⟩ => ⟨aligned, short⟩
  · rintro ⟨aligned, short⟩
    refine ⟨aligned, fun _ _ q member => absurd member List.not_mem_nil, ?_, short⟩
    rw [heapStart, registered.maxMappedEnd, show emptyLoad.maxMappedEnd = 0 from rfl, Nat.max_zero]
    exact object.belowHeap placed aligned le_rfl mapped

/-- A process of two objects. -/
theorem layout_linked (first : Registered emptyLoad middle main main.low main.high loadBias)
    (second : Registered middle state interp interp.low interp.high interpBias)
    (heapStart : process.heapStart = Word64.alignUp (Word64.add state.maxMappedEnd guardSize) 4096)
    (regions : process.regions =
      tryRegion (tryRegion state.regions stackRegion) (heapRegion process.heapStart)) :
    Layout main process ↔ StartsOnPage main ∧ StartsOnPage interp ∧ NoSharedPage main interp ∧
      main.loadable.length + interp.loadable.length ≤ 14 := by
  have placed := first.placed ⟨le_rfl, rfl⟩
  have interpPlaced := first.secondPlaced second
  have mainEnd := placed.mappedEnd first.object
  have interpEnd := interpPlaced.mappedEnd second.object
  obtain ⟨anon, finished, anonymous, entered⟩ := finished_regions process.heapStart second.room
  have both := first.bothRegions second
  have elf : ∀ r ∈ main.loadable.map (segmentRegion main loadBias) ++
      interp.loadable.map (segmentRegion interp interpBias), r.type = .elf :=
    List.forall_mem_append.mpr
      ⟨segmentRegions_elf main loadBias main.loadable, segmentRegions_elf interp interpBias interp.loadable⟩
  have shared : StartsOnPage interp → StartsOnPage main →
      ((∀ r ∈ main.loadable.map (segmentRegion main loadBias),
        ∀ q ∈ interp.loadable.map (segmentRegion interp interpBias),
          r.stop ≤ q.start ∨ q.stop ≤ r.start) ↔ NoSharedPage main interp) := by
    intro interpAligned aligned
    simp only [List.forall_mem_map, NoSharedPage]
    refine forall₂_congr fun p memberP => forall₂_congr fun q memberQ => ?_
    obtain ⟨inMain, loadsP⟩ := Image.mem_loadable.mp memberP
    obtain ⟨inInterp, loadsQ⟩ := Image.mem_loadable.mp memberQ
    have homeP := placed.home first.object aligned inMain loadsP
    have homeQ := interpPlaced.home second.object interpAligned inInterp loadsQ
    rw [show emptyLoad.nextBase = userCodeBase from rfl, baseFor_bottom] at homeP
    rw [homeP.1, homeP.2.1, homeQ.1, homeQ.2.1, interpBase]
  rw [both] at finished entered
  rw [both, finished] at regions
  rw [layout_iff regions (List.length_map _) elf anonymous entered, List.forall_mem_append,
    first.object.inside placed, second.object.inside interpPlaced, List.length_append,
    List.length_map, List.length_map]
  constructor
  · rintro ⟨⟨aligned, interpAligned⟩, apart, _, short⟩
    exact ⟨aligned, interpAligned, (shared interpAligned aligned).mp apart, short⟩
  · rintro ⟨aligned, interpAligned, separate, short⟩
    refine ⟨⟨aligned, interpAligned⟩, (shared interpAligned aligned).mpr separate, ?_, short⟩
    rw [heapStart, second.maxMappedEnd, first.maxMappedEnd, show emptyLoad.maxMappedEnd = 0 from rfl,
      Nat.max_zero]
    exact List.forall_mem_append.mpr
      ⟨first.object.belowHeap placed aligned (Nat.le_max_right _ _) (by omega),
        second.object.belowHeap interpPlaced interpAligned (Nat.le_max_left _ _) (by omega)⟩

end Layout

/-- An accepted process has the intended layout exactly when both objects start on a page boundary
or stay unmoved, no page is used by both, and at most 14 segments are loaded. -/
theorem createFromElf_layout {kernel : Kernel} {main : Image} {process : Process}
    (accepted : createFromElf kernel main = some process) :
    Layout main process ↔ Placeable kernel main := by
  obtain ⟨state, loads, heapStart, regions⟩ := createFromElf_spec accepted
  unfold Placeable
  cases loads with
  | alone none registered =>
    rw [none]
    exact layout_alone registered heapStart regions
  | linked found first second =>
    rw [found]
    exact layout_linked first second heapStart regions

section Samples

def littleEndian (width value : Nat) : List (BitVec 8) :=
  (List.range width).map fun i => BitVec.ofNat 8 (value / 256 ^ i)

def Phdr.encode (p : Phdr) : List (BitVec 8) :=
  littleEndian 4 p.type ++ littleEndian 4 p.flags ++ littleEndian 8 p.offset ++
    littleEndian 8 p.vaddr ++ littleEndian 8 0 ++ littleEndian 8 p.filesz ++ littleEndian 8 p.memsz ++
    littleEndian 8 4096

/-- A page that holds an ELF header, a table of program headers behind it and zeros. -/
def sampleImage (address type entry phoff : Nat) (phdrs : List Phdr) : Image :=
  let bytes := [0x7f#8, 0x45#8, 0x4c#8, 0x46#8, 2#8, 1#8] ++ List.replicate 10 0#8 ++
    littleEndian 2 type ++ littleEndian 2 183 ++ littleEndian 4 1 ++ littleEndian 8 entry ++
    littleEndian 8 phoff ++ littleEndian 8 0 ++ littleEndian 4 0 ++ littleEndian 2 64 ++
    littleEndian 2 56 ++ littleEndian 2 phdrs.length ++ littleEndian 6 0 ++ phdrs.flatMap Phdr.encode
  { address := address, size := 4096, byte := fun i => bytes.getD i 0#8, size_lt := by decide }

/-- A readable and executable segment. -/
def textSegment (vaddr memsz : Nat) : Phdr :=
  { type := 1, flags := 5, offset := 0, vaddr := vaddr, filesz := 0, memsz := memsz }

/-- Names the interpreter by the string at offset 2048. -/
def interpSegment : Phdr :=
  { type := 3, flags := 4, offset := 2048, vaddr := 0, filesz := 1, memsz := 1 }

def sampleInterp : Image := sampleImage 0x20000 3 0 64 [textSegment 0 0x1000]

def sampleKernel : Kernel :=
  { processBlock := true, context := some 0, loadFile := fun _ => some sampleInterp }

/-- A position-independent program of the given size. -/
def sampleMain (memsz : Nat) : Image :=
  sampleImage 0x10000 3 0 64 [textSegment 0 memsz, interpSegment]

theorem sampleMain_interpreter :
    interpreter sampleKernel (sampleMain 0x1000) = some sampleInterp := by
  have named : (interpPath (sampleMain 0x1000)).isSome = true := by decide +kernel
  obtain ⟨path, named⟩ := Option.isSome_iff_exists.mp named
  rw [interpreter, named]
  rfl

theorem createFromElf_layout_small :
    ∃ process, createFromElf sampleKernel (sampleMain 0x1000) = some process ∧
      Layout (sampleMain 0x1000) process := by
  refine Transition.ends_imp (Q := fun _ => True) (by decide +kernel) fun process accepted _ => ?_
  refine (createFromElf_layout accepted).mpr ?_
  unfold Placeable
  rw [sampleMain_interpreter]
  unfold StartsOnPage NoSharedPage
  decide +kernel

/-- A main object larger than the load stride shares pages with the interpreter. -/
theorem createFromElf_layout_overlap :
    ∃ process, createFromElf sampleKernel (sampleMain 0x20000) = some process ∧
      process.regions.map (fun r => (r.start, r.stop)) =
        [(0x1000, 0x21000), (0x11000, 0x12000), (0x7ff00000, 0x80000000), (0x22000, 0x70000000)] ∧
      ¬ Layout (sampleMain 0x20000) process := by
  have evaluated : (createFromElf sampleKernel (sampleMain 0x20000)).map
      (fun process => process.regions.map fun r => (r.start, r.stop, r.type)) =
        some [(0x1000, 0x21000, .elf), (0x11000, 0x12000, .elf), (0x7ff00000, 0x80000000, .anon),
          (0x22000, 0x70000000, .anon)] := by
    decide +kernel
  obtain ⟨process, accepted, regions⟩ := Option.map_eq_some_iff.mp evaluated
  have count : (sampleMain 0x20000).loadable.length = 1 := by decide +kernel
  have ranges : process.regions.map (fun r => (r.start, r.stop)) =
      [(0x1000, 0x21000), (0x11000, 0x12000), (0x7ff00000, 0x80000000), (0x22000, 0x70000000)] := by
    have forgotten := congrArg (List.map fun r => (r.1, r.2.1)) regions
    rwa [List.map_map] at forgotten
  obtain ⟨r, others, first, ofMain, rest⟩ := List.map_eq_cons_iff.mp regions
  obtain ⟨q, _, second, ofInterp, _⟩ := List.map_eq_cons_iff.mp rest
  simp only [Prod.mk.injEq] at ofMain ofInterp
  refine ⟨process, accepted, ranges, fun layout => ?_⟩
  have apart := layout.apart r (by simp [count, first]) q (by simp [count, first, second]) ofInterp.2.2
  omega

end Samples

end OsArmv8a.Elf
