import OsArmv8a.Elf
import OsArmv8a.MmuDemand

/-! The segments of a shared object. `ld_load_object` maps each of them with `ld_mmap`,
`sys_mmap` registers a file-backed region, and the fault handler fills its pages. The length in
the file is not passed on: a region ends where the file ends. -/

set_option autoImplicit false

namespace OsArmv8a.LinkerMap

open Mmu Elf

/-- An open file of the RAM file system: `ramfs_get_data_ptr` and `file->size`. -/
structure OpenFile where
  data : Nat
  size : Nat

/-- The regions of a process and the static `next_mmap_addr` of `sys_mmap`. -/
structure Mappings where
  regions : List VmRegion
  nextMmapAddr : Nat

/-- The page flags `sys_mmap` makes of `prot`. -/
def mmapFlags (prot : Nat) : BitVec 64 :=
  let flags := 0x404#64
  let flags := if prot.testBit 0 = true then flags ||| 0xc0#64 else flags
  let flags := if prot.testBit 1 = true then flags &&& ~~~0xc0#64 ||| 0x40#64 else flags
  if prot.testBit 2 = true then flags else flags ||| 0x40000000000000#64

theorem mmapFlags_plain (prot : Nat) : mmapFlags prot &&& ~~~userAttributes = 0#64 := by
  unfold mmapFlags
  cases prot.testBit 0 <;> cases prot.testBit 1 <;> cases prot.testBit 2 <;> decide

/-- A file-backed region: it ends with the file, not with the segment. -/
def fileRegion (start len prot : Nat) (file : OpenFile) (offset : Nat) : VmRegion :=
  { start := start, stop := Word64.add start len, type := .elf, flags := mmapFlags prot,
    elfImage := file.data, elfOffset := offset, fileSize := Word64.sub file.size offset,
    plain := mmapFlags_plain prot }

/-- `sys_mmap`; `slot` is `task->files[fd]` and `none` stands for the result -1. -/
def sysMmap (st : Mappings) (addr len prot flags : Nat) (slot : Option OpenFile) (offset : Nat) :
    Option Nat × Mappings :=
  let file := if flags.testBit 5 = true then none else slot
  let start := if addr = 0 then st.nextMmapAddr else addr
  let st := if addr = 0 then
      { st with nextMmapAddr := Word64.add st.nextMmapAddr (Word64.alignUp len 4096) }
    else st
  let add (region : VmRegion) : Option Nat × Mappings :=
    match addRegion st.regions region with
    | none => (none, st)
    | some regions => (some start, { st with regions := regions })
  match file with
  | some file => if file.data = 0 then (none, st) else add (fileRegion start len prot file offset)
  | none =>
    add { start := start, stop := Word64.add start len, type := .heap, flags := mmapFlags prot,
          elfImage := 0, elfOffset := 0, fileSize := 0, plain := mmapFlags_plain prot }

/-- What a call of `sys_mmap` does to the regions. -/
theorem sysMmap_cases (st : Mappings) (addr len prot flags : Nat) (slot : Option OpenFile)
    (offset : Nat) :
    ((sysMmap st addr len prot flags slot offset).1 = none ∧
      (sysMmap st addr len prot flags slot offset).2.regions = st.regions) ∨
    ∃ region, (sysMmap st addr len prot flags slot offset).1 = some region.start ∧
      (sysMmap st addr len prot flags slot offset).2.regions = st.regions ++ [region] ∧
      region.stop = Word64.add region.start len ∧ region.type ≠ .anon ∧
      (addr ≠ 0 → region.start = addr) ∧ ∀ file, flags.testBit 5 = false → slot = some file →
        region = fileRegion region.start len prot file offset := by
  unfold sysMmap addRegion
  by_cases full : 16 ≤ st.regions.length
  · left
    by_cases zero : addr = 0 <;> cases (if flags.testBit 5 = true then none else slot) with
    | none => simp [zero, full]
    | some file => by_cases null : file.data = 0 <;> simp [zero, full, null]
  · cases chosen : (if flags.testBit 5 = true then none else slot) with
    | none =>
      right
      by_cases zero : addr = 0 <;> simp [zero, full] <;> grind
    | some file =>
      by_cases null : file.data = 0
      · left; by_cases zero : addr = 0 <;> simp [zero, null]
      · right; by_cases zero : addr = 0 <;> simp [zero, full, null, fileRegion] <;> grind

/-- A file mapping adds the region of the file, at the address it was given. -/
theorem sysMmap_regions {st st' : Mappings} {addr len prot flags offset start : Nat} {file : OpenFile}
    (fileMapping : flags.testBit 5 = false)
    (mapped : sysMmap st addr len prot flags (some file) offset = (some start, st')) :
    st'.regions = st.regions ++ [fileRegion start len prot file offset] ∧
      (addr ≠ 0 → start = addr) := by
  have cases := sysMmap_cases st addr len prot flags (some file) offset
  rw [mapped] at cases
  obtain ⟨failed, _⟩ | ⟨region, started, grown, -, -, placed, filed⟩ := cases
  · cases failed
  · cases started
    rw [← filed file fileMapping rfl]
    exact ⟨grown, placed⟩

/-- `LD_PROT_*` from `ELF_PF_R`, `ELF_PF_W` and `ELF_PF_X`. -/
def ldProt (flags : Nat) : Nat :=
  (if flags.testBit 2 = true then 1 else 0) + (if flags.testBit 1 = true then 2 else 0) +
    if flags.testBit 0 = true then 4 else 0

/-- The `ld_mmap` call for one segment. -/
def mapSegment (file : OpenFile) (loadBias : Nat) (st : Mappings) (p : Phdr) :
    Option Nat × Mappings :=
  let vaddr := Word64.add p.vaddr loadBias
  let alignVaddr := Word64.alignDown vaddr 4096
  let alignOffset := Word64.alignDown p.offset 4096
  let diff := Word64.sub vaddr alignVaddr
  let alignMemsz := Word64.alignUp (Word64.add p.memsz diff) 4096
  sysMmap st alignVaddr alignMemsz (ldProt p.flags) 0 (some file) alignOffset

/-- The loop of `ld_load_object` over the program headers, and whether it got through. -/
def mapSegments (file : OpenFile) (loadBias : Nat) : List Phdr → Mappings → Bool × Mappings
  | [], st => (true, st)
  | p :: rest, st =>
    if p.type = 1 then
      match mapSegment file loadBias st p with
      | (none, st) => (false, st)
      | (some mapped, st) =>
        if mapped = 2 ^ 64 - 1 ∨ mapped = 0 then (false, st)
        else mapSegments file loadBias rest st
    else mapSegments file loadBias rest st

/-- A page that the range of a segment touches. -/
def HasPage (p : Phdr) (page : Nat) : Prop :=
  p.vaddr / 4096 ≤ page ∧ page < (p.vaddr + p.memsz + 4095) / 4096

/-- A shared object that can be mapped at the bias: offsets congruent to addresses, file parts
within the file, no page in two segments, and the image within the user addresses. -/
structure WellFormed (file : OpenFile) (loadBias : Nat) (phdrs : List Phdr) : Prop where
  congruent : ∀ p ∈ phdrs, p.type = 1 → p.offset % 4096 = p.vaddr % 4096
  sizes : ∀ p ∈ phdrs, p.type = 1 → p.filesz ≤ p.memsz
  inFile : ∀ p ∈ phdrs, p.type = 1 → p.offset + p.filesz ≤ file.size
  disjoint : phdrs.Pairwise fun p q => p.type = 1 → q.type = 1 →
    ∀ page, ¬ (HasPage p page ∧ HasPage q page)
  bias : 4096 ∣ loadBias ∧ 0 < loadBias
  user : ∀ p ∈ phdrs, p.type = 1 → loadBias + p.vaddr + p.memsz ≤ 2 ^ 48

/-- The contents of the file are in memory that is the kernel's or outside the page allocator. -/
structure Backed (s : System) (file : OpenFile) : Prop where
  present : file.data ≠ 0
  addressable : file.data + file.size < 2 ^ 64
  kept : ∀ i, i < file.size → ∀ pa, PageAlloc.Managed s.world.pages pa →
    pa ≤ PageAlloc.pagePtrToPa true (file.data + i) →
    PageAlloc.pagePtrToPa true (file.data + i) < pa + 4096 → s.kernel pa = true

def fileByte (m : Mem) (file : OpenFile) (i : Nat) : BitVec 8 := kernelByte m (file.data + i)

/-- What byte `k` of a segment means: a byte of the file, then zeros. -/
def elfByte (m : Mem) (file : OpenFile) (p : Phdr) (k : Nat) : BitVec 8 :=
  if k < p.filesz then fileByte m file (p.offset + k) else 0#8

/-- The region of a segment, with its arithmetic done. -/
def mappedRegion (file : OpenFile) (loadBias : Nat) (p : Phdr) : VmRegion :=
  { start := loadBias + p.vaddr / 4096 * 4096
    stop := loadBias + (p.vaddr + p.memsz + 4095) / 4096 * 4096
    type := .elf, flags := mmapFlags (ldProt p.flags), elfImage := file.data,
    elfOffset := p.offset / 4096 * 4096, fileSize := file.size - p.offset / 4096 * 4096
    plain := mmapFlags_plain _ }

section Segments

variable {s : System} {file : OpenFile} {loadBias : Nat} {phdrs : List Phdr} {p : Phdr}

section

variable (object : WellFormed file loadBias phdrs)

include object

theorem WellFormed.offset_le (member : p ∈ phdrs) (load : p.type = 1) : p.offset ≤ file.size :=
  Nat.le_trans (Nat.le_add_right _ _) (object.inFile p member load)

/-- No sum of the call wraps, so the call asks for the region of the segment. -/
theorem fileRegion_eq (small : file.size < 2 ^ 64) (member : p ∈ phdrs) (load : p.type = 1) :
    fileRegion (Word64.alignDown (Word64.add p.vaddr loadBias) 4096)
        (Word64.alignUp (Word64.add p.memsz (Word64.sub (Word64.add p.vaddr loadBias)
          (Word64.alignDown (Word64.add p.vaddr loadBias) 4096))) 4096)
        (ldProt p.flags) file (Word64.alignDown p.offset 4096) = mappedRegion file loadBias p := by
  have bias := object.bias.1
  have user := object.user p member load
  have offset := object.offset_le member load
  have vaddr : Word64.add p.vaddr loadBias = p.vaddr + loadBias := Word64.add_of_lt (by omega)
  have start : Word64.alignDown (p.vaddr + loadBias) 4096 = loadBias + p.vaddr / 4096 * 4096 := by
    unfold Word64.alignDown
    omega
  have diff : Word64.sub (p.vaddr + loadBias) (loadBias + p.vaddr / 4096 * 4096) =
      p.vaddr % 4096 := by
    rw [Word64.sub_of_le (by omega) (by omega)]
    omega
  have sum : Word64.add p.memsz (p.vaddr % 4096) = p.memsz + p.vaddr % 4096 :=
    Word64.add_of_lt (by omega)
  have length : Word64.alignUp (p.memsz + p.vaddr % 4096) 4096 =
      (p.memsz + p.vaddr % 4096 + 4095) / 4096 * 4096 := by
    unfold Word64.alignUp
    rw [Word64.add_of_lt (by omega)]
  have stop : Word64.add (loadBias + p.vaddr / 4096 * 4096)
      ((p.memsz + p.vaddr % 4096 + 4095) / 4096 * 4096) =
      loadBias + (p.vaddr + p.memsz + 4095) / 4096 * 4096 := by
    rw [Word64.add_of_lt (by omega)]
    omega
  have rest : Word64.sub file.size (p.offset / 4096 * 4096) =
      file.size - p.offset / 4096 * 4096 := Word64.sub_of_le (by omega) small
  unfold fileRegion mappedRegion
  rw [vaddr, start, diff, sum, length]
  congr 1

theorem mapSegment_regions (backed : Backed s file) (member : p ∈ phdrs) (load : p.type = 1)
    {st st' : Mappings} {start : Nat} (mapped : mapSegment file loadBias st p = (some start, st')) :
    st'.regions = st.regions ++ [mappedRegion file loadBias p] := by
  have bias := object.bias
  have user := object.user p member load
  have addressable := backed.addressable
  have nonzero : Word64.alignDown (Word64.add p.vaddr loadBias) 4096 ≠ 0 := by
    unfold Word64.alignDown
    rw [Word64.add_of_lt (by omega)]
    omega
  obtain ⟨regions, placed⟩ := sysMmap_regions (Nat.zero_testBit 5) mapped
  rw [regions, placed nonzero, fileRegion_eq object (by omega) member load]

/-- One region for each segment, in their order. -/
theorem mapSegments_regions (backed : Backed s file) {st' : Mappings} (rest : List Phdr) :
    ∀ {st : Mappings}, (∀ p ∈ rest, p ∈ phdrs) →
    mapSegments file loadBias rest st = (true, st') →
    st'.regions = st.regions ++
      (rest.filter fun p => p.type = 1).map (mappedRegion file loadBias) := by
  induction rest with
  | nil =>
    intro st _ mapped
    cases mapped
    simp
  | cons p rest ih =>
    intro st members mapped
    have later := fun q (member : q ∈ rest) => members q (List.mem_cons_of_mem p member)
    unfold mapSegments at mapped
    split at mapped
    · rename_i load
      split at mapped
      · cases mapped
      rename_i start middle first
      split at mapped
      · cases mapped
      have regions := mapSegment_regions object backed (members p List.mem_cons_self) load first
      rw [ih later mapped, regions, List.filter_cons_of_pos (by simpa using load), List.map_cons,
        List.append_assoc]
      rfl
    · rename_i skipped
      rw [ih later mapped, List.filter_cons_of_neg (by simpa using skipped)]

/-- A page of a segment lies under the region of the segment, and no later region covers it. -/
theorem regionFor_segment {before : List VmRegion} {brk : Nat} (member : p ∈ phdrs)
    (load : p.type = 1) {k : Nat} (inside : k < p.memsz) {x : Nat}
    (page : x / 4096 = (loadBias + p.vaddr + k) / 4096) :
    regionFor { regions := before ++
      (phdrs.filter fun p => p.type = 1).map (mappedRegion file loadBias), brk := brk } x =
      some (mappedRegion file loadBias p) := by
  obtain ⟨earlier, later, rfl⟩ := List.append_of_mem member
  obtain ⟨first, rfl⟩ := object.bias.1
  have apart := (List.pairwise_cons.mp (List.pairwise_append.mp object.disjoint).2.1).1
  have split : before ++ ((earlier ++ p :: later).filter fun p => p.type = 1).map
        (mappedRegion file (4096 * first)) =
      (before ++ (earlier.filter fun p => p.type = 1).map (mappedRegion file (4096 * first))) ++
        mappedRegion file (4096 * first) p ::
          (later.filter fun p => p.type = 1).map (mappedRegion file (4096 * first)) := by
    simp [List.filter_append, load]
  refine find?_last split (decide_eq_true ?_) fun other listed => decide_eq_false ?_
  · simp only [mappedRegion]
    omega
  · obtain ⟨q, found, rfl⟩ := List.mem_map.mp listed
    obtain ⟨found, loadQ⟩ := List.mem_filter.mp found
    have separate := apart q found load (of_decide_eq_true loadQ) ((p.vaddr + k) / 4096)
    unfold HasPage at separate
    simp only [mappedRegion]
    omega

theorem mappedRegion_ok (backed : Backed s file) (member : p ∈ phdrs) (load : p.type = 1) :
    ElfRegion (mappedRegion file loadBias p) where
  elf := rfl
  aligned := by
    obtain ⟨first, rfl⟩ := object.bias.1
    simp only [mappedRegion]
    omega
  user := by
    have user := object.user p member load
    obtain ⟨first, rfl⟩ := object.bias.1
    simp only [mappedRegion]
    omega
  source k filed _ := by
    have addressable := backed.addressable
    simp only [mappedRegion] at filed ⊢
    exact ⟨backed.present, by omega⟩

/-- The source of a segment is out of reach of the process's pages and tables. -/
theorem mappedRegion_guards (backed : Backed s file) (member : p ∈ phdrs) (load : p.type = 1)
    {marked : Nat → List Nat → Prop} (sound : Sound marked s) {id : Nat} (live : id ∈ s.live) :
    Guards s.world id (imageWords (mappedRegion file loadBias p)) := by
  have elf : ElfLayout s { regions := [mappedRegion file loadBias p], brk := 0 } := by
    constructor
    · intro region listed _
      exact List.mem_singleton.mp listed ▸ mappedRegion_ok object backed member load
    · exact List.pairwise_singleton _ _
    · intro region listed _ k filed _ pa managed lower upper
      cases List.mem_singleton.mp listed
      simp only [sourcePa, mappedRegion] at filed lower upper
      rw [Nat.add_assoc] at lower upper
      exact backed.kept (p.offset / 4096 * 4096 + k) (by omega) pa managed lower upper
  exact elf.guards (List.mem_singleton.mpr rfl) rfl sound live

/-- What the fault handler puts at byte `k` of a segment that the linker mapped: the file as far
as it goes. -/
theorem eagerByte_mappedRegion (member : p ∈ phdrs) (load : p.type = 1) (m : Mem) (k : Nat) :
    eagerByte m (mappedRegion file loadBias p) (loadBias + p.vaddr + k) =
      if p.offset + k < file.size then fileByte m file (p.offset + k) else 0#8 := by
  have congruent := object.congruent p member load
  have place : loadBias + p.vaddr + k - (loadBias + p.vaddr / 4096 * 4096) =
      p.offset % 4096 + k := by omega
  have source : file.data + p.offset / 4096 * 4096 + (p.offset % 4096 + k) =
      file.data + (p.offset + k) := by omega
  unfold eagerByte fileByte
  simp only [mappedRegion, place, source]
  by_cases filed : p.offset + k < file.size
  · rw [if_pos filed, if_pos (by omega)]
  · rw [if_neg filed, if_neg (by omega)]

/-- What it puts there for the kernel's own loader: the meaning of the segment. -/
theorem eagerByte_segmentRegion (member : p ∈ phdrs) (load : p.type = 1) {m : Mem} {image : Image}
    (small : file.size < 2 ^ 64)
    (same : ∀ i, i < file.size → kernelByte m (image.address + i) = fileByte m file i) {k : Nat}
    (inside : k < p.memsz) :
    eagerByte m (segmentRegion image loadBias p) (loadBias + p.vaddr + k) =
      elfByte m file p k := by
  have congruent := object.congruent p member load
  have inFile := object.inFile p member load
  have user := object.user p member load
  have down : Word64.alignDown p.vaddr 4096 = p.vaddr / 4096 * 4096 := rfl
  have diff : Word64.sub p.vaddr (p.vaddr / 4096 * 4096) = p.offset % 4096 := by
    rw [Word64.sub_of_le (by omega) (by omega)]
    omega
  have start : Word64.add loadBias (p.vaddr / 4096 * 4096) = loadBias + p.vaddr / 4096 * 4096 :=
    Word64.add_of_lt (by omega)
  have offset : Word64.sub p.offset (p.offset % 4096) = p.offset / 4096 * 4096 := by
    rw [Word64.sub_of_le (by omega) (by omega)]
    omega
  have length : Word64.add p.filesz (p.offset % 4096) = p.filesz + p.offset % 4096 :=
    Word64.add_of_lt (by omega)
  have place : loadBias + p.vaddr + k - (loadBias + p.vaddr / 4096 * 4096) =
      p.offset % 4096 + k := by omega
  have source : image.address + p.offset / 4096 * 4096 + (p.offset % 4096 + k) =
      image.address + (p.offset + k) := by omega
  unfold eagerByte elfByte
  simp only [segmentRegion, down, diff, start, offset, length, place, source]
  by_cases filed : k < p.filesz
  · rw [if_pos filed, if_pos (by omega), same _ (by omega)]
  · rw [if_neg filed, if_neg (by omega)]

end

end Segments

/-- A shared object is mapped into a process none of whose pages lie in it yet. After any sequence
of faults a byte of a segment that is present reads its ELF meaning exactly when it is a byte of
the file part, or lies past the end of the file, or the file has a zero there. The kernel's own
loader always gives the ELF meaning. -/
theorem run_mapSegments {s t : System} {st st' : Mappings} {brk id loadBias : Nat}
    {file : OpenFile} {phdrs : List Phdr} {faults : List (Nat × Nat)}
    (reached : Transition.Reachable Boot step Transition.always s) (live : id ∈ s.live)
    (object : WellFormed file loadBias phdrs) (backed : Backed s file)
    (mapped : mapSegments file loadBias phdrs st = (true, st'))
    (absent : ∀ p ∈ phdrs, p.type = 1 → ∀ k, k < p.memsz →
      resolveUserPage s.world.pages.mem (s.world.contexts id) (loadBias + p.vaddr + k) = none)
    (translations : ∀ fault ∈ faults, fault.1 < 2 ^ 48 ∧ fscType fault.2 = 0x04)
    (ran : Transition.run step s
      (faultEvents { regions := st'.regions, brk := brk } id faults) = some t)
    {p : Phdr} (member : p ∈ phdrs) (load : p.type = 1) {k : Nat} (inside : k < p.memsz) :
    (resolveUserPage t.world.pages.mem (t.world.contexts id) (loadBias + p.vaddr + k) ≠ none →
      (t.read id (loadBias + p.vaddr + k) = some (elfByte s.world.pages.mem file p k) ↔
        (p.filesz ≤ k → p.offset + k < file.size →
          fileByte s.world.pages.mem file (p.offset + k) = 0#8))) ∧
    ∀ image : Image, (∀ i, i < file.size →
        kernelByte s.world.pages.mem (image.address + i) = fileByte s.world.pages.mem file i) →
      eagerByte s.world.pages.mem (segmentRegion image loadBias p) (loadBias + p.vaddr + k) =
        elfByte s.world.pages.mem file p k := by
  have addressable := backed.addressable
  refine ⟨fun present => ?_, fun image same =>
    eagerByte_segmentRegion object member load (by omega) same inside⟩
  have sound := reachable_sound reached
  have ok := mappedRegion_ok object backed member load
  have within : (mappedRegion file loadBias p).start ≤ loadBias + p.vaddr + k ∧
      loadBias + p.vaddr + k < (mappedRegion file loadBias p).stop := by
    simp only [mappedRegion]
    omega
  have regions := mapSegments_regions object backed phdrs (fun _ listed => listed) mapped
  have chosen : ∀ x, x / 4096 = (loadBias + p.vaddr + k) / 4096 →
      regionFor { regions := st'.regions, brk := brk } x = some (mappedRegion file loadBias p) := by
    intro x page
    rw [regions]
    exact regionFor_segment object member load inside page
  have start : Loaded s.world.pages.mem (mappedRegion file loadBias p) id
      (loadBias + p.vaddr + k) s.world := by
    refine ⟨mappedRegion_guards object backed member load sound live, fun _ _ => rfl, ?_⟩
    intro pa entry resident
    cases (absent p member load k inside).symm.trans (resident_iff.mp resident)
  have loaded := (Loaded.run ok within.1 within.2 chosen faults translations sound live start ran).2.2.1
  obtain ⟨page, found⟩ := Option.ne_none_iff_exists'.mp present
  have resident : Resident t.world id (loadBias + p.vaddr + k) page.1 page.2 :=
    resident_iff.mpr found
  rw [read_of_resident resident, (loaded.resident _ _ resident).2,
    eagerByte_mappedRegion object member load, Option.some_inj]
  unfold elfByte
  have inFile := object.inFile p member load
  by_cases filed : k < p.filesz
  · rw [if_pos filed, if_pos (by omega)]
    exact ⟨fun _ tail => absurd tail (by omega), fun _ => rfl⟩
  · rw [if_neg filed]
    by_cases ends : p.offset + k < file.size
    · rw [if_pos ends]
      exact ⟨fun zero _ _ => zero, fun zero => zero (by omega) ends⟩
    · rw [if_neg ends]
      exact ⟨fun _ _ inside => absurd inside ends, fun _ => rfl⟩

/-- A shared object below the managed pages: an ELF header, one program header and eight bytes. -/
def objectMemory (filesz memsz : Nat) : Mem := fun a =>
  if 0x40001000 ≤ a then
    [0x00010102464c457f#64, 0#64, 0x0000000100b70003#64, 0#64, 64#64, 0#64, 0x0038004000000000#64,
      1#64, 0x0000000400000001#64, 0#64, 0#64, 0#64, BitVec.ofNat 64 filesz,
      BitVec.ofNat 64 memsz, 0x1000#64, 0x8877665544332211#64].getD ((a - 0x40001000) / 8) 0#64
  else 0#64

def objectFile : OpenFile := { data := kernelVaOffset + 0x40001000, size := 128 }

/-- The segment its program header describes. -/
def objectSegment (filesz memsz : Nat) : Phdr :=
  { type := 1, flags := 4, offset := 0, vaddr := 0, filesz := filesz, memsz := memsz }

theorem objectFile_data : objectFile.data = 0xffff000040001000 := by
  unfold objectFile kernelVaOffset
  rfl

theorem objectFile_size : objectFile.size = 128 := rfl

theorem wellFormed_object {filesz memsz : Nat} (sizes : filesz ≤ memsz) (inFile : filesz ≤ 128)
    (small : memsz ≤ 0x10000) : WellFormed objectFile 0x5000000 [objectSegment filesz memsz] where
  congruent p member _ := by cases List.mem_singleton.mp member; rfl
  sizes p member _ := by cases List.mem_singleton.mp member; exact sizes
  inFile p member _ := by
    cases List.mem_singleton.mp member
    rw [objectFile_size]
    simpa [objectSegment] using inFile
  disjoint := List.pairwise_singleton _ _
  bias := by omega
  user p member _ := by
    cases List.mem_singleton.mp member
    simp only [objectSegment]
    omega

theorem backed_object {s : System} (low : s.world.pages.managedStart = 0x47ff8000) :
    Backed s objectFile where
  present := by
    rw [objectFile_data]
    omega
  addressable := by
    rw [objectFile_data, objectFile_size]
    omega
  kept i inside pa managed lower _ := by
    have bound := managed.1
    have source : PageAlloc.pagePtrToPa true (objectFile.data + i) = 0x40001000 + i := by
      rw [objectFile_data]
      simp only [PageAlloc.pagePtrToPa, kernelVaOffset]
      rw [if_pos ⟨trivial, by omega⟩]
      omega
    rw [objectFile_size] at inside
    omega

def noMappings : Mappings := { regions := [], nextMmapAddr := 0x7000000000 }

/-- The mappings of the object. -/
def objectMappings (filesz memsz : Nat) : Mappings :=
  (mapSegments objectFile 0x5000000 [objectSegment filesz memsz] noMappings).2

theorem objectMappings_eq {filesz memsz : Nat}
    (mapped : (mapSegments objectFile 0x5000000 [objectSegment filesz memsz] noMappings).1 = true) :
    mapSegments objectFile 0x5000000 [objectSegment filesz memsz] noMappings =
      (true, objectMappings filesz memsz) := by
  rw [objectMappings, ← mapped]

theorem run_mapSegments_whole :
    ∃ s t, Transition.run step (booted (PageAlloc.init eightPages (objectMemory 128 136) true))
        [.create (some 1)] = some s ∧
      Transition.run step s (faultEvents
        { regions := (objectMappings 128 136).regions, brk := 0 } 1 [(0x5000000, 0x04)]) = some t ∧
      t.read 1 0x500007f = some 0x88#8 ∧ t.read 1 0x5000080 = some 0#8 := by
  obtain ⟨s, first, t, second, low, live, byte, pages⟩ : ∃ s, Transition.run step
      (booted (PageAlloc.init eightPages (objectMemory 128 136) true)) [.create (some 1)] = some s ∧
      ∃ t, Transition.run step s (faultEvents
        { regions := (objectMappings 128 136).regions, brk := 0 } 1 [(0x5000000, 0x04)]) = some t ∧
        s.world.pages.managedStart = 0x47ff8000 ∧ 1 ∈ s.live ∧
        elfByte s.world.pages.mem objectFile (objectSegment 128 136) 127 = 0x88#8 ∧
        ∀ k < 136,
          resolveUserPage s.world.pages.mem (s.world.contexts 1) (0x5000000 + 0 + k) = none ∧
          resolveUserPage t.world.pages.mem (t.world.contexts 1) (0x5000000 + 0 + k) ≠ none := by
    decide +kernel
  have absent : ∀ p ∈ [objectSegment 128 136], p.type = 1 → ∀ k, k < p.memsz →
      resolveUserPage s.world.pages.mem (s.world.contexts 1) (0x5000000 + p.vaddr + k) = none := by
    intro p member _ k inside
    cases List.mem_singleton.mp member
    exact (pages k inside).1
  have bytes := fun k (inside : k < 136) => run_mapSegments (.of_ran (booted_boot _ _ _) first) live
    (wellFormed_object (by decide) (by decide) (by decide)) (backed_object low)
    (objectMappings_eq (by decide +kernel)) absent
    (by decide) second (List.mem_singleton.mpr rfl) rfl inside
  refine ⟨s, t, first, second, ?_, ?_⟩
  · rw [← byte]
    exact ((bytes 127 (by decide)).1 (pages 127 (by decide)).2).mpr
      fun filed => absurd filed (by decide)
  · exact ((bytes 128 (by decide)).1 (pages 128 (by decide)).2).mpr
      fun _ filed => absurd filed (by decide)

/-- The last byte in memory of a segment that ends eight bytes before the file reads the last byte
of the file, not zero. -/
theorem run_mapSegments_trailing :
    WellFormed objectFile 0x5000000 [objectSegment 120 128] ∧
    ∃ s t, Transition.run step (booted (PageAlloc.init eightPages (objectMemory 120 128) true))
        [.create (some 1)] = some s ∧ Backed s objectFile ∧
      mapSegments objectFile 0x5000000 [objectSegment 120 128] noMappings =
        (true, objectMappings 120 128) ∧
      Transition.run step s (faultEvents
        { regions := (objectMappings 120 128).regions, brk := 0 } 1 [(0x5000000, 0x04)]) = some t ∧
      t.read 1 0x500007f = some 0x88#8 ∧
      elfByte s.world.pages.mem objectFile (objectSegment 120 128) 127 = 0#8 := by
  obtain ⟨s, first, t, second, low, bytes⟩ : ∃ s, Transition.run step
      (booted (PageAlloc.init eightPages (objectMemory 120 128) true)) [.create (some 1)] = some s ∧
      ∃ t, Transition.run step s (faultEvents
        { regions := (objectMappings 120 128).regions, brk := 0 } 1 [(0x5000000, 0x04)]) = some t ∧
        s.world.pages.managedStart = 0x47ff8000 ∧ t.read 1 0x500007f = some 0x88#8 ∧
        elfByte s.world.pages.mem objectFile (objectSegment 120 128) 127 = 0#8 := by
    decide +kernel
  exact ⟨wellFormed_object (by decide) (by decide) (by decide), s, t, first, backed_object low,
    objectMappings_eq (by decide +kernel), second, bytes⟩

end OsArmv8a.LinkerMap
