import OsArmv8a.ElfLayout

/-! Which bytes of an image the loader and, later, the fault handler read. The checks of the loader
add 64-bit fields of the image, so the bounds hold only where those sums do not wrap around. -/

set_option autoImplicit false

namespace OsArmv8a.Elf

open Mmu

/-- Every byte of the program header table lies inside the image. -/
def HeadersInside (image : Image) : Prop :=
  ∀ j < 56 * image.ePhnum, Word64.add image.ePhoff j < image.size

/-- Whatever address of the region faults, the bytes the handler copies lie inside the image. -/
def CopiesInside (image : Image) (region : VmRegion) : Prop :=
  ∀ far source length, region.start ≤ far → far < region.stop →
    elfSource region (4096 * (far / 4096)) = some (source, length) →
      ∀ j < length, Word64.sub (Word64.add source j) image.address < image.size

/-- The sum the header check compares with the image size has not wrapped. -/
def TableUnwrapped (image : Image) : Prop := image.ePhoff + 56 * image.ePhnum < 2 ^ 64

/-- How far into its region an object's first whole page starts. -/
def firstOffset (image : Image) : Nat := if image.eType = 3 then image.low % 4096 else 0

/-- The file bytes of a segment from its first whole page on do not pass the ends of the 64-bit
range; the handler starts `p_vaddr % 4096` bytes in front of `p_offset`. -/
def SegmentUnwrapped (first : Nat) (p : Phdr) : Prop :=
  first < p.filesz + p.vaddr % 4096 →
    p.vaddr % 4096 ≤ p.offset + first ∧
      (p.offset + p.filesz < 2 ^ 64 ∨ 2 ^ 64 + p.vaddr % 4096 ≤ p.offset + first)

/-- No sum the loader trusts has wrapped. -/
def Unwrapped (image : Image) : Prop :=
  TableUnwrapped image ∧ ∀ p ∈ image.loadable, SegmentUnwrapped (firstOffset image) p

section Headers

variable {image : Image}

/-- A wrapped table contains the byte at `2^64 - 1`, which no image has. -/
theorem headersInside_iff
    (table : Word64.add image.ePhoff (56 * image.ePhnum) ≤ image.size) :
    HeadersInside image ↔ TableUnwrapped image := by
  have small : image.ePhoff < 2 ^ 64 := image.field_lt 32 8
  have size := image.size_lt
  constructor
  · intro inside
    by_contra wrapped
    unfold TableUnwrapped at wrapped
    have last := inside (2 ^ 64 - 1 - image.ePhoff) (by omega)
    rw [Word64.add_of_lt (by omega)] at last
    omega
  · intro plain j before
    rw [Word64.add_of_lt plain] at table
    rw [Word64.add_of_lt (by omega)]
    omega

end Headers

section Copies

variable {image : Image} {loadBias : Nat} {p : Phdr}

theorem offsetDiff_eq (fits : p.vaddr < 2 ^ 64) :
    Word64.sub p.vaddr (Word64.alignDown p.vaddr 4096) = p.vaddr % 4096 := by
  unfold Word64.alignDown
  rw [Word64.sub_of_le (Nat.div_mul_le_self _ _) fits]
  omega

/-- The numbers of one region: its size in memory and in the file, and the offset of its file
bytes. -/
structure Numbers (image : Image) (loadBias : Nat) (p : Phdr) : Prop where
  fileSize : (segmentRegion image loadBias p).fileSize = p.filesz + p.vaddr % 4096
  stop : (segmentRegion image loadBias p).start + (p.filesz + p.vaddr % 4096) ≤
    (segmentRegion image loadBias p).stop
  small : (segmentRegion image loadBias p).stop ≤ userHeapLimit

theorem Mapped.numbers (mapped : Mapped image loadBias p) (ordered : p.filesz ≤ p.memsz)
    (fits : p.vaddr + p.memsz < 2 ^ 64) : Numbers image loadBias p := by
  have diff := offsetDiff_eq (by omega : p.vaddr < 2 ^ 64)
  have fileSize : (segmentRegion image loadBias p).fileSize = p.filesz + p.vaddr % 4096 := by
    show Word64.add p.filesz (Word64.sub p.vaddr (Word64.alignDown p.vaddr 4096)) = _
    rw [diff, Word64.add_of_lt (by omega)]
  refine ⟨fileSize, ?_, mapped.stop⟩
  have start := mapped.start
  have ends := mapped.stop
  have before := mapped.ordered
  rw [segmentRegion_start] at start before ⊢
  rw [segmentRegion_stop image loadBias fits] at ends before ⊢
  have long : p.pageStart + (p.filesz + p.vaddr % 4096) ≤ p.pageEnd := by
    simp only [Phdr.pageStart, Phdr.pageEnd]
    omega
  have top : p.pageEnd ≤ 2 ^ 64 := by
    simp only [Phdr.pageEnd]
    omega
  simp only [Word64.add, userCodeBase, userHeapLimit] at *
  omega

/-- The offset into the image at which byte `o` of the region's file part is read. -/
def readOffset (p : Phdr) (o : Nat) : Nat := (p.offset + (2 ^ 64 - p.vaddr % 4096) + o) % 2 ^ 64

theorem read_offset (p : Phdr) (address r j : Nat) (fits : p.vaddr < 2 ^ 64) :
    Word64.sub (Word64.add (Word64.add (Word64.add address
      (Word64.sub p.offset (Word64.sub p.vaddr (Word64.alignDown p.vaddr 4096)))) r) j) address =
        readOffset p (r + j) := by
  rw [offsetDiff_eq fits]
  simp only [Word64.add, Word64.sub, readOffset]
  omega

theorem elfSource_segment {pageVa source length : Nat} (address : image.address ≠ 0) :
    elfSource (segmentRegion image loadBias p) pageVa = some (source, length) ↔
      Word64.sub pageVa (segmentRegion image loadBias p).start <
        (segmentRegion image loadBias p).fileSize ∧
      source = Word64.add (Word64.add image.address
        (Word64.sub p.offset (Word64.sub p.vaddr (Word64.alignDown p.vaddr 4096))))
          (Word64.sub pageVa (segmentRegion image loadBias p).start) ∧
      length = min ((segmentRegion image loadBias p).fileSize -
        Word64.sub pageVa (segmentRegion image loadBias p).start) 4096 := by
  unfold elfSource
  rw [Option.ite_none_right_eq_some]
  constructor
  · rintro ⟨⟨_, _, inFile⟩, same⟩
    obtain ⟨first, second⟩ := Prod.mk.inj (Option.some.inj same)
    exact ⟨inFile, first.symm, second.symm⟩
  · rintro ⟨inFile, rfl, rfl⟩
    exact ⟨⟨rfl, address, inFile⟩, rfl⟩

/-- The handler copies exactly the file bytes from the first whole page on. -/
theorem copiesInside_iff {first : Nat} (numbers : Numbers image loadBias p)
    (address : image.address ≠ 0) (fits : p.vaddr < 2 ^ 64)
    (page : first < 4096 ∧ (loadBias + first) % 4096 = 0) :
    CopiesInside image (segmentRegion image loadBias p) ↔
      ∀ o, first ≤ o → o < p.filesz + p.vaddr % 4096 → readOffset p o < image.size := by
  have aligned := segmentRegion_start_mod image loadBias p
  obtain ⟨fileSize, stop, small⟩ := numbers
  unfold CopiesInside
  simp only [elfSource_segment address, fileSize, userHeapLimit] at *
  generalize (segmentRegion image loadBias p).start = low at *
  constructor
  · intro inside o behind below
    -- Byte `o` is copied when its own address faults.
    have whole : low ≤ 4096 * ((low + o) / 4096) := by omega
    have offset : Word64.sub (4096 * ((low + o) / 4096)) low = 4096 * ((low + o) / 4096) - low :=
      Word64.sub_of_le whole (by omega)
    have read := inside (low + o) _ _ (by omega) (by omega) ⟨by omega, rfl, rfl⟩
      (o - (4096 * ((low + o) / 4096) - low)) (by omega)
    rw [read_offset p image.address _ _ fits, offset] at read
    rwa [Nat.add_sub_cancel' (by omega)] at read
  · rintro inside far _ _ after before ⟨inFile, rfl, rfl⟩ j copied
    rw [read_offset p image.address _ _ fits]
    apply inside _ _ (by omega)
    -- A page that starts in front of the region is past the end of the file part.
    by_cases whole : low ≤ 4096 * (far / 4096)
    · rw [Word64.sub_of_le whole (by omega)]
      omega
    · exfalso
      simp only [Word64.sub] at inFile
      omega

/-- A range of file bytes that passes an end of the 64-bit range contains the byte at `2^64 - 1`. -/
theorem readOffset_inside_iff {first size : Nat} (fits : p.Fits)
    (file : Word64.add p.offset p.filesz ≤ size) (small : size < 2 ^ 64) (page : first < 4096) :
    (∀ o, first ≤ o → o < p.filesz + p.vaddr % 4096 → readOffset p o < size) ↔
      SegmentUnwrapped first p := by
  obtain ⟨offset, _, filesz, _⟩ := fits
  have diff : p.vaddr % 4096 < 4096 := Nat.mod_lt _ (by decide)
  unfold SegmentUnwrapped readOffset
  generalize p.vaddr % 4096 = before at *
  simp only [Word64.add] at file
  constructor
  · intro inside nonempty
    have front : before ≤ p.offset + first := by
      by_contra ahead
      have read := inside (before - p.offset - 1) (by omega) (by omega)
      omega
    refine ⟨front, ?_⟩
    by_contra crossing
    have read := inside (2 ^ 64 - 1 - p.offset + before) (by omega) (by omega)
    omega
  · intro plain o behind below
    omega

theorem Placed.firstOffset_page {nextBase : Nat}
    (placed : Placed image nextBase image.low image.high loadBias) :
    firstOffset image < 4096 ∧ (loadBias + firstOffset image) % 4096 = 0 := by
  have paged := placed.paged
  unfold firstOffset
  by_cases kind : image.eType = 3
  · obtain ⟨bias, _⟩ := placed.dynamic kind
    rw [if_pos kind, bias]
    simp only [Word64.sub]
    omega
  · obtain ⟨bias, _⟩ := placed.static kind
    rw [if_neg kind, bias]
    exact ⟨by decide, rfl⟩

/-- An accepted object is read inside its image exactly when its sums have not wrapped. -/
theorem Object.inside_iff {nextBase : Nat} (object : Object image image.low image.high loadBias)
    (placed : Placed image nextBase image.low image.high loadBias) :
    (HeadersInside image ∧
      ∀ r ∈ image.loadable.map (segmentRegion image loadBias), CopiesInside image r) ↔
      Unwrapped image := by
  have page := placed.firstOffset_page
  rw [headersInside_iff object.table.2, List.forall_mem_map]
  refine and_congr_right fun _ => forall₂_congr fun p loadable => ?_
  obtain ⟨member, loads⟩ := Image.mem_loadable.mp loadable
  have fits := Image.phdrs_fit member
  have mapped := object.mapped p member loads
  have covered := object.bounds.covers p member loads
  have small := object.bounds.high_lt
  have numbers := mapped.numbers covered.1 (by omega)
  rw [copiesInside_iff numbers object.address fits.vaddr page,
    readOffset_inside_iff fits mapped.file image.size_lt page.1]

end Copies

/-- Everything the loader and the fault handler read of the main image and of the interpreter lies
inside the image it belongs to. -/
structure InputSafe (kernel : Kernel) (main : Image) (process : Process) : Prop where
  headers : HeadersInside main
  copies : ∀ r ∈ process.regions.take main.loadable.length, CopiesInside main r
  interp : ∀ interp, interpreter kernel main = some interp →
    HeadersInside interp ∧ ∀ r ∈ process.regions.drop main.loadable.length, r.type = .elf →
      CopiesInside interp r

/-- An accepted process is safe exactly when no sum of header fields that the loader checks has
wrapped around. -/
theorem createFromElf_inputSafe {kernel : Kernel} {main : Image} {process : Process}
    (accepted : createFromElf kernel main = some process) :
    InputSafe kernel main process ↔
      Unwrapped main ∧ ∀ interp, interpreter kernel main = some interp → Unwrapped interp := by
  obtain ⟨state, loads, _, regions⟩ := createFromElf_spec accepted
  cases loads with
  | alone alone registered =>
    rename_i bias
    have safe := registered.object.inside_iff (registered.placed ⟨le_rfl, rfl⟩)
    obtain ⟨anon, finished, _, _⟩ := finished_regions process.heapStart registered.room
    have mains : state.regions = main.loadable.map (segmentRegion main bias) ++ [] := by
      rw [registered.regions, List.append_nil]
      rfl
    rw [finished, mains] at regions
    have firsts := take_mains regions (List.length_map _)
    have none : ∀ interp, interpreter kernel main ≠ some interp := by simp [alone]
    rw [← safe]
    constructor
    · exact fun ⟨headers, copies, _⟩ =>
        ⟨⟨headers, firsts ▸ copies⟩, fun interp found => absurd found (none interp)⟩
    · exact fun ⟨⟨headers, copies⟩, _⟩ =>
        ⟨headers, firsts.symm ▸ copies, fun interp found => absurd found (none interp)⟩
  | linked found first second =>
    rename_i middle interp bias interpBias
    have safe := first.object.inside_iff (first.placed ⟨le_rfl, rfl⟩)
    have interpSafe := second.object.inside_iff (first.secondPlaced second)
    obtain ⟨anon, finished, anonymous, _⟩ := finished_regions process.heapStart second.room
    rw [finished, first.bothRegions second] at regions
    have firsts := take_mains regions (List.length_map _)
    have others := mem_drop_elf regions (segmentRegions_elf interp interpBias interp.loadable)
      anonymous (List.length_map _)
    rw [← safe]
    constructor
    · rintro ⟨headers, copies, both⟩
      refine ⟨⟨headers, firsts ▸ copies⟩, ?_⟩
      intro other named
      cases found.symm.trans named
      obtain ⟨interpHeaders, interpCopies⟩ := both interp found
      refine interpSafe.mp ⟨interpHeaders, fun r member => ?_⟩
      obtain ⟨dropped, kind⟩ := (others r).mpr member
      exact interpCopies r dropped kind
    · rintro ⟨⟨headers, copies⟩, both⟩
      obtain ⟨interpHeaders, interpCopies⟩ := interpSafe.mpr (both interp found)
      refine ⟨headers, firsts.symm ▸ copies, ?_⟩
      intro other named
      cases found.symm.trans named
      exact ⟨interpHeaders, fun r member kind => interpCopies r ((others r).mp ⟨member, kind⟩)⟩

theorem createFromElf_inputSafe_small :
    ∃ process, createFromElf sampleKernel (sampleMain 0x1000) = some process ∧
      InputSafe sampleKernel (sampleMain 0x1000) process := by
  have plain : Unwrapped (sampleMain 0x1000) ∧ Unwrapped sampleInterp := by
    unfold Unwrapped TableUnwrapped SegmentUnwrapped
    decide +kernel
  refine Transition.ends_imp (Q := fun _ => True) (by decide +kernel) fun process accepted _ => ?_
  refine (createFromElf_inputSafe accepted).mpr ⟨plain.1, fun interp linked => ?_⟩
  cases sampleMain_interpreter.symm.trans linked
  exact plain.2

/-- A segment whose file offset is smaller than its offset in the page. -/
def displacedImage : Image :=
  sampleImage 0x10000 2 0x400010 64
    [{ type := 1, flags := 5, offset := 0, vaddr := 0x400010, filesz := 0x20, memsz := 0x20 }]

/-- The fault handler copies from 16 bytes in front of the image. -/
theorem createFromElf_inputSafe_displaced :
    ∃ process, createFromElf sampleKernel displacedImage = some process ∧
      (∃ r ∈ process.regions, elfSource r 0x400000 = some (displacedImage.address - 16, 0x30)) ∧
      ¬ InputSafe sampleKernel displacedImage process := by
  have evaluated : (createFromElf sampleKernel displacedImage).map
      (fun process => process.regions.map fun r => (r.start, r.stop, elfSource r 0x400000)) =
        some [(0x400000, 0x401000, some (0xfff0, 0x30)), (0x7ff00000, 0x80000000, none),
          (0x402000, 0x70000000, none)] := by
    decide +kernel
  obtain ⟨process, accepted, regions⟩ := Option.map_eq_some_iff.mp evaluated
  obtain ⟨r, others, first, values, _⟩ := List.map_eq_cons_iff.mp regions
  obtain ⟨start, stop, copied⟩ : r.start = 0x400000 ∧ r.stop = 0x401000 ∧
      elfSource r 0x400000 = some (0xfff0, 0x30) := by
    simpa using values
  have member : r ∈ process.regions := by simp [first]
  refine ⟨process, accepted, ⟨r, member, copied⟩, fun safe => ?_⟩
  have count : displacedImage.loadable.length = 1 := by decide +kernel
  have inside := safe.copies r (by simp [count, first]) 0x400000 0xfff0 0x30 (by omega) (by omega)
    copied 0 (by decide)
  revert inside
  decide +kernel

end OsArmv8a.Elf
