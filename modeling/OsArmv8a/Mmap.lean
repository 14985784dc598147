import OsArmv8a.ElfAgreement
import OsArmv8a.LinkerMap

/-! What a process sees of a file it maps. `sys_mmap` takes the address and the offset as they come
and computes the length of the file part as an unsigned difference; the fault handler computes the
distance of a page from the start of the region as another one. -/

set_option autoImplicit false

namespace OsArmv8a.Mmap

open Mmu Elf LinkerMap

section Faults

variable {s t : System} {layout : VmLayout} {id far esr : Nat}

/-- The address lies in no free page. -/
def Held (s : System) (address : Nat) : Prop :=
  ∀ pa, PageAlloc.Managed s.world.pages pa → pa ≤ PageAlloc.pagePtrToPa true address →
    PageAlloc.pagePtrToPa true address < pa + 4096 → s.world.pages.stateAt pa = .allocated

theorem Held.apart {address pa : Nat} {pages : PageAlloc.State} (held : Held s address)
    (acquired : PageAlloc.Acquired s.world.pages pages pa) :
    PageAlloc.pagePtrToPa true address < pa ∨ pa + 4096 ≤ PageAlloc.pagePtrToPa true address := by
  by_contra inside
  have allocated := held pa acquired.managed (by omega) (by omega)
  cases acquired.wasFree.symm.trans allocated

theorem Held.kernelByte {address pa : Nat} {pages : PageAlloc.State} (held : Held s address)
    (acquired : PageAlloc.Acquired s.world.pages pages pa) :
    kernelByte pages.mem address = kernelByte s.world.pages.mem address := by
  have apart := held.apart acquired
  have aligned := acquired.managed.2.2
  exact Mem.byte_congr (acquired.frame _ (by omega))

/-- A translation fault that builds a page shows what its source holds, when that is not taken
from a free page. -/
theorem fault_userByte (sound : Sound (fun _ _ => False) s) (live : id ∈ s.live)
    (translation : fscType esr = 0x04)
    (absent : resolveUserPage s.world.pages.mem (s.world.contexts id) far = none)
    (taken : step s (.fault layout id far esr) = some t)
    (present : resolveUserPage t.world.pages.mem (t.world.contexts id) far ≠ none)
    (held : ∀ address, source layout far = some (.file address) → Held s address) :
    t.read id far = userByte (kernelByte s.world.pages.mem) layout far := by
  obtain ⟨⟨pa, entry⟩, found⟩ := Option.ne_none_iff_exists'.mp present
  have resident : Resident t.world id far pa entry := resident_iff.mpr found
  have unmapped := resolveUserPage_none.mp absent
  obtain ⟨-, rfl⟩ := Transition.of_guard taken
  rw [read_of_resident resident]
  cases covered : regionFor layout far with
  | some region =>
    have served : Served layout s.world _ id far _ := handlePageFault_served (sound.atRest live)
      translation (Guards.empty _ id) Prod.mk.eta.symm
    obtain ⟨-, pages, acquired, contents⟩ := served.built unmapped pa entry region resident covered
    have aligned : 4096 ∣ pa := Nat.dvd_of_mod_eq_zero acquired.managed.2.2
    have filled := fillFromRegion_source pages.mem covered aligned
      fun address file => (held address file).apart acquired
    refine (congrArg some (Mem.byte_congr (contents _ (by omega) (by omega)))).trans
      (filled.trans ?_)
    unfold userByte
    cases origin : source layout far with
    | none => rfl
    | some origin' =>
      cases origin' with
      | zero => rfl
      | file address => exact congrArg some ((held address origin).kernelByte acquired)
  | none =>
    obtain ⟨grows, -, pages, acquired, contents⟩ := handlePageFault_fallback (sound.atRest live)
      translation unmapped covered Prod.mk.eta.symm resident
    have aligned : pa % 4096 = 0 := acquired.managed.2.2
    have zero : pages.mem.byte (pa + far % 4096) = 0#8 := by
      unfold Mem.byte
      rw [acquired.scrubbed _ (by omega) (by omega)]
      simp [wordByte]
    refine (congrArg some ((Mem.byte_congr (contents _ (by omega) (by omega))).trans zero)).trans ?_
    unfold userByte source
    rw [covered]
    rw [if_pos grows]
    rfl

end Faults

/-- What byte `k` of a mapping means: a byte of the file, then zeros. -/
def mappedByte (m : Mem) (file : OpenFile) (offset k : Nat) : BitVec 8 :=
  if offset + k < file.size then fileByte m file (offset + k) else 0#8

/-- A fault at `far` copies nothing but bytes of the file's buffer. -/
def Confined (layout : VmLayout) (file : OpenFile) (far : Nat) : Prop :=
  ∀ region, regionFor layout far = some region → ∀ address length,
    elfSource region (4096 * (far / 4096)) = some (address, length) →
    file.data ≤ address ∧ address + length ≤ file.data + file.size

/-- The layout shows the byte at `far`, and its page holds nothing from outside the file. -/
def Shown (m : Mem) (layout : VmLayout) (file : OpenFile) (far : Nat) (byte : BitVec 8) : Prop :=
  userByte (kernelByte m) layout far = some byte ∧ Confined layout file far

/-- When byte `k` of a mapping at `start` shows the file. The first page of a mapping that does not
start on a page boundary is never filled from a file that reaches to the offset; an offset past the
end of the file does no harm only where the sums wrap past the end of the address space. -/
def Faithful (m : Mem) (file : OpenFile) (start offset k : Nat) : Prop :=
  let page := 4096 * ((start + k) / 4096)
  if offset ≤ file.size then
    page < start → offset + k < file.size → fileByte m file (offset + k) = 0#8
  else if page < start then offset - file.size < start - page → start - page ≤ offset
  else
    2 ^ 64 ≤ offset + (page - start) ∧
      (offset + k < 2 ^ 64 + file.size → fileByte m file (offset + k - 2 ^ 64) = 0#8)

section Region

variable {m : Mem} {layout : VmLayout} {file : OpenFile} {start len prot offset k : Nat}

theorem elfSource_fileRegion (present : file.data ≠ 0) (start len prot offset page : Nat) :
    elfSource (fileRegion start len prot file offset) page =
      if Word64.sub page start < Word64.sub file.size offset then
        some (Word64.add (Word64.add file.data offset) (Word64.sub page start),
          min (Word64.sub file.size offset - Word64.sub page start) 4096)
      else none := by
  unfold elfSource fileRegion
  simp [present]

theorem shown_none {region : VmRegion} {far : Nat} {byte : BitVec 8}
    (covered : regionFor layout far = some region)
    (nothing : elfSource region (4096 * (far / 4096)) = none) :
    Shown m layout file far byte ↔ byte = 0#8 := by
  unfold Shown Confined userByte source
  simp only [covered, nothing, Option.map_some, Option.some_inj, Source.byte]
  constructor
  · exact fun shown => shown.1.symm
  · rintro rfl
    refine ⟨rfl, fun other same address length copied => ?_⟩
    cases same
    cases nothing.symm.trans copied

theorem shown_some {region : VmRegion} {far address length : Nat} {byte : BitVec 8}
    (covered : regionFor layout far = some region)
    (copied : elfSource region (4096 * (far / 4096)) = some (address, length)) :
    Shown m layout file far byte ↔
      (if far % 4096 < length then kernelByte m (Word64.add address (far % 4096)) else 0#8) = byte ∧
        file.data ≤ address ∧ address + length ≤ file.data + file.size := by
  unfold Shown Confined userByte source
  simp only [covered, copied, Option.map_some, Option.some_inj]
  refine and_congr ?_ ⟨fun confined => confined region rfl address length copied, ?_⟩
  · by_cases inside : far % 4096 < length <;> simp [inside, Source.byte]
  intro inside other same address' length' copied'
  cases same
  cases copied.symm.trans copied'
  exact inside

variable (covered : regionFor layout (start + k) = some (fileRegion start len prot file offset))
  (high : 4096 ≤ file.data) (addressable : file.data + file.size < 2 ^ 64) (small : offset < 2 ^ 64)

include covered high addressable

/-- A page that starts in the mapping, of a file that reaches to the offset. -/
theorem shown_within (user : start + k < 2 ^ 48) (reaches : offset ≤ file.size)
    (starts : start ≤ 4096 * ((start + k) / 4096)) :
    Shown m layout file (start + k) (mappedByte m file offset k) := by
  have distance : Word64.sub (4096 * ((start + k) / 4096)) start =
      4096 * ((start + k) / 4096) - start := Word64.sub_of_le starts (by omega)
  have rest : Word64.sub file.size offset = file.size - offset :=
    Word64.sub_of_le reaches (by omega)
  have elf := elfSource_fileRegion (by omega : file.data ≠ 0) start len prot offset
    (4096 * ((start + k) / 4096))
  rw [distance, rest] at elf
  unfold mappedByte fileByte
  by_cases filed : 4096 * ((start + k) / 4096) - start < file.size - offset
  · have base : Word64.add file.data offset = file.data + offset := Word64.add_of_lt (by omega)
    have address : Word64.add (file.data + offset) (4096 * ((start + k) / 4096) - start) =
        file.data + offset + (4096 * ((start + k) / 4096) - start) := Word64.add_of_lt (by omega)
    rw [if_pos filed, base, address] at elf
    refine (shown_some covered elf).mpr ⟨?_, by omega, by omega⟩
    by_cases inside : offset + k < file.size
    · rw [if_pos (by omega), if_pos inside, Word64.add_of_lt (by omega)]
      exact congrArg _ (by omega)
    · rw [if_neg (by omega), if_neg inside]
  · rw [if_neg filed] at elf
    exact (shown_none covered elf).mpr (if_neg (by omega))

/-- The distance of the page before the mapping wraps, and lies past the end of the file. -/
theorem shown_lead (reaches : offset ≤ file.size) (lead : 4096 * ((start + k) / 4096) < start) :
    Shown m layout file (start + k) (mappedByte m file offset k) ↔
      (offset + k < file.size → fileByte m file (offset + k) = 0#8) := by
  have distance : Word64.sub (4096 * ((start + k) / 4096)) start =
      2 ^ 64 - (start - 4096 * ((start + k) / 4096)) := by
    unfold Word64.sub
    omega
  have rest : Word64.sub file.size offset = file.size - offset :=
    Word64.sub_of_le reaches (by omega)
  have elf := elfSource_fileRegion (by omega : file.data ≠ 0) start len prot offset
    (4096 * ((start + k) / 4096))
  rw [distance, rest, if_neg (by omega)] at elf
  rw [shown_none covered elf]
  exact ite_eq_right_iff

include small

/-- An offset past the end of the file, on the page before the mapping. -/
theorem shown_pastLead (past : file.size < offset) (lead : 4096 * ((start + k) / 4096) < start) :
    Shown m layout file (start + k) (mappedByte m file offset k) ↔
      (offset - file.size < start - 4096 * ((start + k) / 4096) →
        start - 4096 * ((start + k) / 4096) ≤ offset) := by
  have distance : Word64.sub (4096 * ((start + k) / 4096)) start =
      2 ^ 64 - (start - 4096 * ((start + k) / 4096)) := by
    unfold Word64.sub
    omega
  have rest : Word64.sub file.size offset = 2 ^ 64 - (offset - file.size) := by
    unfold Word64.sub
    omega
  have elf := elfSource_fileRegion (by omega : file.data ≠ 0) start len prot offset
    (4096 * ((start + k) / 4096))
  have zero : mappedByte m file offset k = 0#8 := if_neg (by omega)
  rw [zero]
  by_cases copies : offset - file.size < start - 4096 * ((start + k) / 4096)
  · rw [if_pos (by omega), Word64.add_assoc] at elf
    rw [shown_some covered elf, if_neg (by omega)]
    simp only [copies, true_imp_iff, true_and]
    unfold Word64.add
    omega
  · rw [if_neg (by omega)] at elf
    simp [shown_none covered elf, copies]

/-- An offset past the end of the file, on a page that starts in the mapping. -/
theorem shown_past (user : start + k < 2 ^ 48) (past : file.size < offset)
    (starts : start ≤ 4096 * ((start + k) / 4096)) :
    Shown m layout file (start + k) (mappedByte m file offset k) ↔
      2 ^ 64 ≤ offset + (4096 * ((start + k) / 4096) - start) ∧
        (offset + k < 2 ^ 64 + file.size → fileByte m file (offset + k - 2 ^ 64) = 0#8) := by
  have distance : Word64.sub (4096 * ((start + k) / 4096)) start =
      4096 * ((start + k) / 4096) - start := Word64.sub_of_le starts (by omega)
  have rest : Word64.sub file.size offset = 2 ^ 64 - (offset - file.size) := by
    unfold Word64.sub
    omega
  have elf := elfSource_fileRegion (by omega : file.data ≠ 0) start len prot offset
    (4096 * ((start + k) / 4096))
  have zero : mappedByte m file offset k = 0#8 := if_neg (by omega)
  rw [distance, rest] at elf
  rw [zero]
  by_cases wraps : 2 ^ 64 ≤ offset + (4096 * ((start + k) / 4096) - start)
  · simp only [wraps, true_and]
    by_cases copies : 4096 * ((start + k) / 4096) - start < 2 ^ 64 - (offset - file.size)
    · have place : Word64.add offset (4096 * ((start + k) / 4096) - start) =
          offset + (4096 * ((start + k) / 4096) - start) - 2 ^ 64 := by
        unfold Word64.add
        omega
      rw [if_pos copies, Word64.add_assoc, place, Word64.add_of_lt (by omega)] at elf
      rw [shown_some covered elf]
      by_cases inside : offset + k < 2 ^ 64 + file.size
      · rw [if_pos (by omega), Word64.add_of_lt (by omega)]
        have address : file.data + (offset + (4096 * ((start + k) / 4096) - start) - 2 ^ 64) +
            (start + k) % 4096 = file.data + (offset + k - 2 ^ 64) := by omega
        rw [address]
        exact ⟨fun shown _ => shown.1, fun clear => ⟨clear inside, by omega, by omega⟩⟩
      · rw [if_neg (by omega)]
        exact ⟨fun _ within => absurd within inside, fun _ => ⟨rfl, by omega, by omega⟩⟩
    · rw [if_neg copies] at elf
      rw [shown_none covered elf]
      exact ⟨fun _ within => absurd within (by omega), fun _ => rfl⟩
  · rw [if_pos (by omega), Word64.add_assoc] at elf
    rw [shown_some covered elf]
    refine iff_of_false (fun shown => ?_) fun both => wraps both.1
    have inside := shown.2
    unfold Word64.add at inside
    omega

end Region

/-- What lies in the buffer of an open file is in no free page. -/
theorem Confined.held {s : System} {layout : VmLayout} {file : OpenFile} {far : Nat}
    (confined : Confined layout file far) (sound : Sound (fun _ _ => False) s)
    (backed : Backed s file) (address : Nat) (origin : source layout far = some (.file address)) :
    Held s address := by
  have addressable := backed.addressable
  unfold source at origin
  split at origin
  · rename_i region covered
    split at origin
    · rename_i first length copied
      have bounds := confined region covered first length copied
      split at origin
      · cases origin
        have place : Word64.add first (far % 4096) =
            file.data + (first - file.data + far % 4096) := by
          rw [Word64.add_of_lt (by omega)]
          omega
        rw [place]
        intro pa managed lower upper
        exact ((sound.inv 0).apart pa
          (backed.kept _ (by omega) pa managed lower upper)).2.1
      · cases origin
    · cases origin
  · split at origin <;> cases origin

/-- A region whose end wraps covers nothing. -/
theorem regionFor_wrapped {before later : List VmRegion} {region : VmRegion} {brk far : Nat}
    (wrapped : region.stop ≤ region.start) :
    regionFor { regions := before ++ [region] ++ later, brk := brk } far =
      regionFor { regions := before ++ later, brk := brk } far := by
  have missed : ¬ (region.start ≤ far ∧ far < region.stop) := by omega
  unfold regionFor
  simp [List.find?_append, missed]

/-- A file mapping and one fault in it. Take any reachable state in which a process has mapped an
open file and byte `k` of the mapping is absent, under no region that was registered later. Once the
translation fault there has been served, the byte reads as the file says and its page holds nothing
from outside the file's buffer exactly when `Faithful` holds; a mapping whose end wraps covers
nothing, and the address shows what the older regions say. -/
theorem run_sysMmap {s t : System} {st st' : Mappings}
    {brk id addr len prot flags offset start k esr : Nat} {file : OpenFile} {later : List VmRegion}
    (reached : Transition.Reachable Boot step Transition.always s) (live : id ∈ s.live)
    (backed : Backed s file) (high : 4096 ≤ file.data) (word : len < 2 ^ 64 ∧ offset < 2 ^ 64)
    (fileMapping : flags.testBit 5 = false)
    (mapped : sysMmap st addr len prot flags (some file) offset = (some start, st'))
    (inside : k < len) (user : start + k < 2 ^ 48)
    (uncovered : ∀ other ∈ later, ¬ (other.start ≤ start + k ∧ start + k < other.stop))
    (absent : resolveUserPage s.world.pages.mem (s.world.contexts id) (start + k) = none)
    (translation : fscType esr = 0x04)
    (taken : step s (.fault { regions := st'.regions ++ later, brk := brk } id (start + k) esr) = some t)
    (present : resolveUserPage t.world.pages.mem (t.world.contexts id) (start + k) ≠ none) :
    t.read id (start + k) = some (mappedByte s.world.pages.mem file offset k) ∧
        Confined { regions := st'.regions ++ later, brk := brk } file (start + k) ↔
      if start + len < 2 ^ 64 then Faithful s.world.pages.mem file start offset k
      else Shown s.world.pages.mem { regions := st.regions ++ later, brk := brk } file (start + k)
        (mappedByte s.world.pages.mem file offset k) := by
  have sound := reachable_sound reached
  have addressable := backed.addressable
  have regions := (sysMmap_regions fileMapping mapped).1
  rw [regions] at taken ⊢
  have shown : t.read id (start + k) = some (mappedByte s.world.pages.mem file offset k) ∧
      Confined ⟨st.regions ++ [fileRegion start len prot file offset] ++ later, brk⟩ file (start + k) ↔
      Shown s.world.pages.mem ⟨st.regions ++ [fileRegion start len prot file offset] ++ later, brk⟩
        file (start + k) (mappedByte s.world.pages.mem file offset k) := by
    refine and_congr_left fun confined => ?_
    rw [fault_userByte sound live translation absent taken present (confined.held sound backed)]
  rw [shown]
  by_cases fits : start + len < 2 ^ 64
  · have stop : (fileRegion start len prot file offset).stop = start + len := Word64.add_of_lt fits
    have covered : regionFor ⟨st.regions ++ [fileRegion start len prot file offset] ++ later, brk⟩
        (start + k) = some (fileRegion start len prot file offset) := by
      refine find?_last (List.append_assoc _ _ _) (decide_eq_true ⟨Nat.le_add_right _ _, ?_⟩)
        fun other member => decide_eq_false (uncovered other member)
      omega
    rw [if_pos fits]
    unfold Faithful
    dsimp only
    split
    · rename_i reaches
      by_cases lead : 4096 * ((start + k) / 4096) < start
      · simp only [lead, true_imp_iff]
        exact shown_lead covered high addressable reaches lead
      · exact iff_of_true (shown_within covered high addressable user reaches (by omega))
          fun before => absurd before lead
    · split
      · rename_i past lead
        exact shown_pastLead covered high addressable word.2 (by omega) lead
      · exact shown_past covered high addressable word.2 user (by omega) (by omega)
  · have wrapped : (fileRegion start len prot file offset).stop ≤
        (fileRegion start len prot file offset).start := by
      show Word64.add start len ≤ start
      unfold Word64.add
      omega
    rw [if_neg fits]
    unfold Shown Confined userByte source growable
    rw [regionFor_wrapped wrapped]

/-- One page of the file, mapped at a page boundary. -/
def pageMapping : Option Nat × Mappings :=
  sysMmap noMappings 0x600000 0x1000 1 2 (some objectFile) 64

theorem run_sysMmap_page :
    ∃ s t, Transition.run step (booted (PageAlloc.init eightPages (objectMemory 128 136) true))
        [.create (some 1)] = some s ∧
      step s (.fault { regions := pageMapping.2.regions ++ [], brk := 0 } 1 (0x600000 + 63) 0x04) =
        some t ∧
      t.read 1 (0x600000 + 63) = some 0x88#8 := by
  obtain ⟨s, first, t, second, low, live, byte, absent, present⟩ : ∃ s, Transition.run step
      (booted (PageAlloc.init eightPages (objectMemory 128 136) true)) [.create (some 1)] = some s ∧
      ∃ t, step s (.fault { regions := pageMapping.2.regions ++ [], brk := 0 } 1 (0x600000 + 63)
        0x04) = some t ∧ s.world.pages.managedStart = 0x47ff8000 ∧ 1 ∈ s.live ∧
        mappedByte s.world.pages.mem objectFile 64 63 = 0x88#8 ∧
        resolveUserPage s.world.pages.mem (s.world.contexts 1) (0x600000 + 63) = none ∧
        resolveUserPage t.world.pages.mem (t.world.contexts 1) (0x600000 + 63) ≠ none := by
    decide +kernel
  have mapped : pageMapping = (some 0x600000, pageMapping.2) := by
    rw [← show pageMapping.1 = some 0x600000 by decide +kernel]
  have high : 4096 ≤ objectFile.data := by
    rw [objectFile_data]
    omega
  have shown := run_sysMmap (k := 63) (.of_ran (booted_boot _ _ _) first) live (backed_object low)
    high (by omega) (by decide) mapped (by omega) (by omega) (List.forall_mem_nil _) absent
    (by decide) second present
  rw [if_pos (by omega), byte] at shown
  refine ⟨s, t, first, second, (shown.mpr ?_).1⟩
  unfold Faithful
  rw [objectFile_size]
  simp

/-- The first half of the file, with the rest of the buffer behind it. -/
def halfFile : OpenFile := { data := objectFile.data, size := 64 }

def leadMapping : Option Nat × Mappings :=
  sysMmap noMappings 0x600800 0x100 1 2 (some objectFile) 0

def pastMapping : Option Nat × Mappings :=
  sysMmap noMappings 0x600000 0x100 1 2 (some halfFile) 120

/-- An unaligned mapping shows zeros in its first page instead of the file, and a mapping from
behind the end of the file shows kernel memory. -/
theorem run_sysMmap_unfaithful :
    (∃ s t, Transition.run step (booted (PageAlloc.init eightPages (objectMemory 128 136) true))
        [.create (some 1)] = some s ∧ Backed s objectFile ∧
      leadMapping.1 = some 0x600800 ∧
      step s (.fault ⟨leadMapping.2.regions, 0⟩ 1 (0x600800 + 127) 0x04) = some t ∧
      t.read 1 (0x600800 + 127) = some 0#8 ∧
      mappedByte s.world.pages.mem objectFile 0 127 = 0x88#8) ∧
    ∃ s t, Transition.run step (booted (PageAlloc.init eightPages (objectMemory 128 136) true))
        [.create (some 1)] = some s ∧ Backed s halfFile ∧
      pastMapping.1 = some 0x600000 ∧
      step s (.fault ⟨pastMapping.2.regions, 0⟩ 1 (0x600000 + 7) 0x04) = some t ∧
      t.read 1 (0x600000 + 7) = some 0x88#8 ∧
      mappedByte s.world.pages.mem halfFile 120 7 = 0#8 := by
  obtain ⟨s, first, low, ⟨t, second, zero, byte⟩, u, third, leaked, expected⟩ : ∃ s,
      Transition.run step (booted (PageAlloc.init eightPages (objectMemory 128 136) true))
        [.create (some 1)] = some s ∧ s.world.pages.managedStart = 0x47ff8000 ∧
      (∃ t, step s (.fault ⟨leadMapping.2.regions, 0⟩ 1 (0x600800 + 127) 0x04) = some t ∧
        t.read 1 (0x600800 + 127) = some 0#8 ∧
        mappedByte s.world.pages.mem objectFile 0 127 = 0x88#8) ∧
      ∃ u, step s (.fault ⟨pastMapping.2.regions, 0⟩ 1 (0x600000 + 7) 0x04) = some u ∧
        u.read 1 (0x600000 + 7) = some 0x88#8 ∧
        mappedByte s.world.pages.mem halfFile 120 7 = 0#8 := by
    decide +kernel
  have whole : Backed s objectFile := backed_object low
  have data : halfFile.data = objectFile.data := rfl
  have size : halfFile.size = 64 := rfl
  have half : Backed s halfFile := by
    constructor
    · exact whole.present
    · rw [data, size, objectFile_data]
      omega
    · exact fun i inside => whole.kept i (Nat.lt_of_lt_of_le inside (by decide))
  exact ⟨⟨s, t, first, whole, by decide +kernel, second, zero, byte⟩,
    s, u, first, half, by decide +kernel, third, leaked, expected⟩

end OsArmv8a.Mmap
