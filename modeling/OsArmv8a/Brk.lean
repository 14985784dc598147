import OsArmv8a.Mmap

/-! The break and the regions of a process. Process creation leaves the range between `heap_start`
and `heap_limit` to the heap, but `process_brk` looks at the two limits only and `sys_mmap` takes any
address, so the granted heap can come to lie under a mapping. -/

set_option autoImplicit false

namespace OsArmv8a.Brk

open Mmu Elf LinkerMap

def userHeapBase : Nat := 0x10000000

/-- `process_create_flat_binary`. -/
def createFlatBinary (kernel : Kernel) (code codeSize : Nat) : Option Process :=
  if code = 0 ∨ codeSize = 0 then none
  else
    let codePages := Word64.alignUp codeSize 4096 / 4096
    let codeEnd := Word64.add userCodeBase (Word64.mul codePages 4096)
    if userHeapBase < codeEnd then none
    else if kernel.processBlock = false then none
    else
      let codeRegion : VmRegion :=
        { start := userCodeBase, stop := codeEnd, type := .elf, flags := 0x200000000007c4#64,
          elfImage := code, elfOffset := 0, fileSize := codeSize, plain := by decide }
      kernel.context.map fun mm =>
        { mm := mm, entryVa := userCodeBase, heapStart := userHeapBase, brk := userHeapBase,
          heapLimit := userHeapLimit, heapMappedEnd := userHeapBase,
          regions := tryRegion (tryRegion (tryRegion [] codeRegion) stackRegion)
            (heapRegion userHeapBase),
          ownedImages := [] }

/-- `process_brk`: the result of the call and the process. -/
def processBrk (process : Process) (newBreak : Nat) : Nat × Process :=
  if newBreak = 0 then (process.brk, process)
  else if newBreak < process.heapStart ∨ process.heapLimit < newBreak then (process.brk, process)
  else (newBreak, { process with brk := newBreak })

/-- A process and the static `next_mmap_addr`. -/
structure State where
  process : Process
  nextMmapAddr : Nat

/-- The calls that change the break or the regions. The mappings of the dynamic linker are calls
of `sys_mmap` like any other. -/
inductive Call where
  | brk (newBreak : Nat)
  | mmap (addr len prot flags : Nat) (slot : Option OpenFile) (offset : Nat)

def step (s : State) : Call → Option State
  | .brk newBreak => some { s with process := (processBrk s.process newBreak).2 }
  | .mmap addr len prot flags slot offset =>
    let mappings := (sysMmap ⟨s.process.regions, s.nextMmapAddr⟩ addr len prot flags slot offset).2
    some
      { process := { s.process with regions := mappings.regions }
        nextMmapAddr := mappings.nextMmapAddr }

/-- A process that `process_create_from_elf` or `process_create_flat_binary` has just made. A fork
copies the fields of its parent, so it adds nothing. -/
def Created (s : State) : Prop :=
  (∃ kernel main, createFromElf kernel main = some s.process) ∨
    ∃ kernel code codeSize, createFlatBinary kernel code codeSize = some s.process

/-- Two ranges of addresses have an address in common. -/
def Meets (start stop lower upper : Nat) : Prop := max start lower < min stop upper

instance (start stop lower upper : Nat) : Decidable (Meets start stop lower upper) :=
  inferInstanceAs (Decidable (_ < _))

/-- No region but the heap's own meets the range. -/
def Clear (process : Process) (lower upper : Nat) : Prop :=
  ∀ r ∈ process.regions, r ≠ heapRegion process.heapStart → ¬ Meets r.start r.stop lower upper

/-- The granted heap lies under no region but the heap's own. -/
def Apart (process : Process) : Prop := Clear process process.heapStart process.brk

/-- The checks that the two calls lack: a break that is accepted grants nothing that lies under a
region, and a mapping that is accepted does not meet the granted heap. -/
def Checked (s : State) : Call → Prop
  | .brk newBreak =>
    newBreak ≠ 0 → s.process.heapStart ≤ newBreak → newBreak ≤ s.process.heapLimit →
      Clear s.process s.process.brk newBreak
  | .mmap addr len prot flags slot offset =>
    ∀ start, (sysMmap ⟨s.process.regions, s.nextMmapAddr⟩ addr len prot flags slot offset).1 =
      some start → ¬ Meets start (Word64.add start len) s.process.heapStart s.process.brk

section Creation

variable {image : Image} {low high loadBias nextBase limit : Nat}

/-- The regions of an object, aligned or not, end less than a page behind its mapped end. -/
theorem segmentRegion_stop_le (object : Object image low high loadBias)
    (placed : Placed image nextBase low high loadBias)
    (below : Word64.alignUp (Word64.add loadBias high) 4096 ≤ limit) :
    ∀ r ∈ image.loadable.map (segmentRegion image loadBias), r.stop ≤ limit + 4095 := by
  intro r member
  obtain ⟨p, loadable, rfl⟩ := List.mem_map.mp member
  obtain ⟨memberP, loads⟩ := Image.mem_loadable.mp loadable
  obtain ⟨_, above, top⟩ := object.bounds.covers p memberP loads
  have small := object.bounds.high_lt
  have ends : p.pageEnd = 4096 * ((p.vaddr + p.memsz + 4095) / 4096) := rfl
  rw [segmentRegion_stop image _ (by omega)]
  by_cases kind : image.eType = 3
  · obtain ⟨bias, _, room⟩ := placed.dynamic kind
    simp only [spanOf, userHeapLimit] at room
    rw [bias, Word64.add_sub_rebase (by omega) (Nat.mod_eq_of_lt small).symm (by omega) (by omega),
      Word64.alignUp_page] at below
    rw [bias, Word64.add_sub_rebase (by omega) rfl (by omega) (by omega)]
    omega
  · obtain ⟨bias, _, room⟩ := placed.static kind
    simp only [userHeapLimit] at room
    rw [Word64.add_of_lt (by omega), Word64.alignUp_page] at below
    rw [Word64.add_of_lt (by omega)]
    omega

variable {kernel : Kernel} {main : Image} {process : Process}

theorem createFromElf_loaded (accepted : createFromElf kernel main = some process) :
    ∃ mm state, loadObjects kernel main = some state ∧ finishProcess mm state = some process := by
  unfold createFromElf at accepted
  iterate 3
    split at accepted
    · cases accepted
  obtain ⟨mm, _, rest⟩ := Option.bind_eq_some_iff.mp accepted
  obtain ⟨state, loaded, finished⟩ := Option.bind_eq_some_iff.mp rest
  exact ⟨mm, state, loaded, finished⟩

/-- The mapped end of both objects, and where their regions end. -/
theorem loadObjects_stop {state : LoadState} (loaded : loadObjects kernel main = some state) :
    state.maxMappedEnd + guardSize ≤ userHeapLimit ∧
      ∀ r ∈ state.regions, r.stop ≤ state.maxMappedEnd + 4095 := by
  cases loadObjects_spec loaded with
  | alone none registered =>
    have placed := registered.placed ⟨le_rfl, rfl⟩
    rw [registered.maxMappedEnd, registered.regions, show emptyLoad.maxMappedEnd = 0 from rfl,
      Nat.max_zero]
    exact ⟨placed.mappedEnd registered.object,
      segmentRegion_stop_le registered.object placed le_rfl⟩
  | linked found first second =>
    have placed := first.placed ⟨le_rfl, rfl⟩
    have interpPlaced := first.secondPlaced second
    have mainEnd := placed.mappedEnd first.object
    have interpEnd := interpPlaced.mappedEnd second.object
    rw [first.bothRegions second, second.maxMappedEnd, first.maxMappedEnd,
      show emptyLoad.maxMappedEnd = 0 from rfl, Nat.max_zero]
    exact ⟨by omega, List.forall_mem_append.mpr
      ⟨segmentRegion_stop_le first.object placed (Nat.le_max_right _ _),
        segmentRegion_stop_le second.object interpPlaced (Nat.le_max_left _ _)⟩⟩

/-- How a process starts: with an empty heap on a page boundary, below which the regions of its
objects end. -/
structure Fresh (process : Process) : Prop where
  limit : process.heapLimit = userHeapLimit
  brk : process.brk = process.heapStart
  start : process.heapStart ≤ userHeapLimit ∧ process.heapStart % 4096 = 0
  regions : ∀ r ∈ process.regions, r = heapRegion process.heapStart ∨ r = stackRegion ∨
    r.stop ≤ process.heapStart

/-- The heap starts above the guard behind the highest object. -/
theorem heapStart_above {mapped : Nat} (room : mapped + guardSize ≤ userHeapLimit) :
    mapped + 4096 ≤ Word64.alignUp (Word64.add mapped guardSize) 4096 := by
  simp only [guardSize, userHeapLimit] at room ⊢
  rw [Word64.add_of_lt (by omega), Word64.alignUp_page]
  omega

theorem createFromElf_fresh (accepted : createFromElf kernel main = some process) :
    Fresh process ∧ 0 < process.heapStart := by
  obtain ⟨mm, state, loaded, finished⟩ := createFromElf_loaded accepted
  obtain ⟨room, ends⟩ := loadObjects_stop loaded
  unfold finishProcess at finished
  dsimp only at finished
  split at finished
  · cases finished
  rename_i below
  cases finished
  have heap := heapStart_above room
  have paged : Word64.alignUp (Word64.add state.maxMappedEnd guardSize) 4096 % 4096 = 0 := by
    rw [Word64.alignUp_page]
    omega
  refine ⟨⟨rfl, rfl, ⟨Nat.le_of_not_lt below, paged⟩, ?_⟩, Nat.lt_of_lt_of_le (by omega) heap⟩
  intro r member
  obtain ⟨stack, first, onlyStack⟩ := tryRegion_eq state.regions stackRegion
  obtain ⟨heap', second, onlyHeap⟩ := tryRegion_eq (state.regions ++ stack)
    (heapRegion (Word64.alignUp (Word64.add state.maxMappedEnd guardSize) 4096))
  simp only [first, second, List.mem_append] at member
  rcases member with (old | old) | new
  · exact Or.inr (Or.inr (Nat.le_trans (ends r old) (Nat.le_trans (by omega) heap)))
  · exact Or.inr (Or.inl (onlyStack r old))
  · exact Or.inl (onlyHeap r new)

theorem createFlatBinary_fresh {code codeSize : Nat}
    (accepted : createFlatBinary kernel code codeSize = some process) :
    Fresh process ∧ 0 < process.heapStart := by
  unfold createFlatBinary at accepted
  split at accepted
  · cases accepted
  dsimp only at accepted
  split at accepted
  · cases accepted
  rename_i below
  split at accepted
  · cases accepted
  obtain ⟨mm, _, rfl⟩ := Option.map_eq_some_iff.mp accepted
  refine ⟨⟨rfl, rfl, show userHeapBase ≤ userHeapLimit ∧ userHeapBase % 4096 = 0 by decide, ?_⟩,
    show 0 < userHeapBase by decide⟩
  intro r member
  simp [tryRegion, addRegion] at member
  rcases member with rfl | rfl | rfl
  · exact Or.inr (Or.inr (Nat.le_of_not_lt below))
  · exact Or.inr (Or.inl rfl)
  · exact Or.inl rfl

/-- Creation leaves the whole range of the heap to the heap. -/
theorem Fresh.clear (fresh : Fresh process) :
    Clear process process.heapStart process.heapLimit := by
  rw [fresh.limit]
  intro r member other
  unfold Meets
  rcases fresh.regions r member with rfl | rfl | ends
  · exact absurd rfl other
  · have stack : stackRegion.start = 0x7ff00000 := rfl
    simp only [userHeapLimit]
    omega
  · omega

end Creation

theorem Created.fresh {s : State} (created : Created s) :
    Fresh s.process ∧ 0 < s.process.heapStart := by
  rcases created with ⟨kernel, main, accepted⟩ | ⟨kernel, code, codeSize, accepted⟩
  · exact createFromElf_fresh accepted
  · exact createFlatBinary_fresh accepted

section Runs

variable {s t : State}

/-- The fields that no call changes, and that the break stays within its limits. -/
structure Bounded (process : Process) : Prop where
  lower : process.heapStart ≤ process.brk
  upper : process.brk ≤ process.heapLimit

theorem processBrk_cases (process : Process) (newBreak : Nat) :
    (¬ (newBreak ≠ 0 ∧ process.heapStart ≤ newBreak ∧ newBreak ≤ process.heapLimit) ∧
      processBrk process newBreak = (process.brk, process)) ∨
    (newBreak ≠ 0 ∧ process.heapStart ≤ newBreak ∧ newBreak ≤ process.heapLimit) ∧
      processBrk process newBreak = (newBreak, { process with brk := newBreak }) := by
  unfold processBrk
  by_cases zero : newBreak = 0
  · exact Or.inl ⟨fun accepted => accepted.1 zero, if_pos zero⟩
  · by_cases outside : newBreak < process.heapStart ∨ process.heapLimit < newBreak
    · exact Or.inl ⟨by omega, by rw [if_neg zero, if_pos outside]⟩
    · exact Or.inr ⟨by omega, by rw [if_neg zero, if_neg outside]⟩

/-- From a process whose heap is apart, a call keeps it so exactly when it passes the check. -/
theorem step_apart (bounded : Bounded s.process) (apart : Apart s.process) {call : Call}
    (taken : step s call = some t) :
    Bounded t.process ∧ (Apart t.process ↔ Checked s call) := by
  cases call with
  | brk newBreak =>
    cases taken
    rcases processBrk_cases s.process newBreak with ⟨rejected, same⟩ | ⟨accepted, moved⟩
    · simp only [same]
      refine ⟨bounded, iff_of_true apart ?_⟩
      exact fun nonzero lower upper => absurd ⟨nonzero, lower, upper⟩ rejected
    · simp only [moved]
      refine ⟨⟨accepted.2.1, accepted.2.2⟩, ?_⟩
      have lower := bounded.lower
      have same : Apart { s.process with brk := newBreak } ↔ Clear s.process s.process.brk newBreak := by
        refine forall₃_congr fun r member other => ?_
        have before := apart r member other
        unfold Meets at before ⊢
        dsimp only
        omega
      rw [same]
      exact ⟨fun clear _ _ _ => clear, fun checked => checked accepted.1 accepted.2.1 accepted.2.2⟩
  | mmap addr len prot flags slot offset =>
    cases taken
    dsimp only [Checked]
    rcases sysMmap_cases ⟨s.process.regions, s.nextMmapAddr⟩ addr len prot flags slot offset with
      ⟨failed, same⟩ | ⟨region, started, added, stop, type, -⟩
    · rw [failed, same]
      exact ⟨bounded, iff_of_true apart (fun _ impossible => nomatch impossible)⟩
    · rw [started, added]
      refine ⟨⟨bounded.lower, bounded.upper⟩, ?_⟩
      have other : region ≠ heapRegion s.process.heapStart := by
        rintro rfl
        exact type rfl
      constructor
      · intro after start found
        cases Option.some.inj found
        rw [← stop]
        exact after region (List.mem_append_right _ List.mem_cons_self) other
      · intro checked r member different
        rcases List.mem_append.mp member with old | new
        · exact apart r old different
        · cases List.mem_singleton.mp new
          rw [stop]
          exact checked _ rfl

def Consistent (process : Process) : Prop := Bounded process ∧ Apart process

theorem Fresh.consistent {process : Process} (fresh : Fresh process) : Consistent process := by
  have start := fresh.start
  refine ⟨⟨by rw [fresh.brk], by rw [fresh.brk, fresh.limit]; exact start.1⟩, ?_⟩
  intro r _ _
  rw [fresh.brk]
  unfold Meets
  omega

/-- Process creation puts no region but the heap's own between `heap_start` and `heap_limit`. In
every run whose calls pass the check the granted heap lies under no other region, and from each
state of such a run a call keeps it so exactly when it passes the check. -/
theorem run_heapApart (reached : Transition.Reachable Created step Checked s) :
    (∀ first, Created first →
      Clear first.process first.process.heapStart first.process.heapLimit) ∧
    Apart s.process ∧
    ∀ call t, step s call = some t → (Apart t.process ↔ Checked s call) := by
  have invariant : Consistent s.process := by
    apply reached.invariant
    · exact fun first created => created.fresh.1.consistent
    · intro before after call holds checked taken
      have next := step_apart holds.1 holds.2 taken
      exact ⟨next.1, next.2.mpr checked⟩
  exact ⟨fun first created => created.fresh.1.clear, invariant.2,
    fun call t taken => (step_apart invariant.1 invariant.2 taken).2⟩

end Runs

section Samples

/-- The mapping that the dynamic linker makes for its first library. -/
def libraryCall : Call := .mmap 0x5000000 0x1000 1 0 (some objectFile) 0

theorem libraryCall_eq (st : Mappings) : mapSegment objectFile 0x5000000 st (objectSegment 128 128) =
    sysMmap st 0x5000000 0x1000 1 0 (some objectFile) 0 := by
  have prot : ldProt 4 = 1 := by decide
  have sum : Word64.add 0 0x5000000 = 0x5000000 := by decide +kernel
  have start : Word64.alignDown 0x5000000 4096 = 0x5000000 := by decide +kernel
  have offset : Word64.alignDown 0 4096 = 0 := by decide +kernel
  have length : Word64.alignUp (Word64.add 128 (Word64.sub 0x5000000 0x5000000)) 4096 = 0x1000 := by
    decide +kernel
  unfold mapSegment objectSegment
  simp only [prot, sum, start, offset, length]

/-- A process, the library, and a break. -/
theorem sample_run (newBreak : Nat) (accepted : 0x13000 ≤ newBreak ∧ newBreak ≤ 0x70000000) :
    ∃ process region, createFromElf sampleKernel (sampleMain 0x1000) = some process ∧
      process.heapStart = 0x13000 ∧ region.start = 0x5000000 ∧ region.stop = 0x5001000 ∧
      region.type = .elf ∧
      step ⟨process, 0⟩ libraryCall =
        some ⟨{ process with regions := process.regions ++ [region] }, 0⟩ ∧
      step ⟨{ process with regions := process.regions ++ [region] }, 0⟩ (.brk newBreak) =
        some ⟨{ process with regions := process.regions ++ [region], brk := newBreak }, 0⟩ := by
  obtain ⟨process, made, heapStart, count⟩ : ∃ process,
      createFromElf sampleKernel (sampleMain 0x1000) = some process ∧
      process.heapStart = 0x13000 ∧ process.regions.length = 4 := by
    decide +kernel
  have data : objectFile.data ≠ 0 := by
    rw [objectFile_data]
    omega
  have limit := (createFromElf_fresh made).1.limit
  refine ⟨process, fileRegion 0x5000000 0x1000 1 objectFile 0, made, heapStart, rfl, ?_, rfl, ?_, ?_⟩
  · exact Word64.add_of_lt (by omega)
  · simp [step, libraryCall, sysMmap, addRegion, count, data]
  · have bounds : ¬ (newBreak < process.heapStart ∨ process.heapLimit < newBreak) := by
      simp only [limit, userHeapLimit]
      omega
    simp only [step, processBrk]
    rw [if_neg (by omega), if_neg bounds]

theorem run_heapApart_library :
    ∃ s, Transition.Reachable Created step Checked s ∧ s.process.brk = 0x5000000 ∧
      Apart s.process := by
  obtain ⟨process, region, made, start, lower, upper, type, first, second⟩ :=
    sample_run 0x5000000 (by omega)
  have fresh := (createFromElf_fresh made).1
  have mapped : Checked ⟨process, 0⟩ libraryCall := by
    intro chosen _
    show ¬ Meets chosen _ process.heapStart process.brk
    rw [fresh.brk]
    unfold Meets
    omega
  have moved : Checked ⟨{ process with regions := process.regions ++ [region] }, 0⟩
      (.brk 0x5000000) := by
    intro _ _ _ r member other
    have brk := fresh.brk
    have limit := fresh.limit
    simp only [userHeapLimit] at limit
    unfold Meets
    rcases List.mem_append.mp member with old | new
    · have apart := fresh.clear r old other
      unfold Meets at apart
      dsimp only
      omega
    · rw [List.mem_singleton.mp new]
      omega
  have created : Created ⟨process, 0⟩ := Or.inl ⟨_, _, made⟩
  have reached := ((Transition.Reachable.start created).next mapped first).next moved second
  exact ⟨_, reached, rfl, (run_heapApart reached).2.1⟩

/-- A break that is one page higher grants the page of the library. -/
theorem run_heapApart_mixed :
    (∀ st, mapSegment objectFile 0x5000000 st (objectSegment 128 128) =
      sysMmap st 0x5000000 0x1000 1 0 (some objectFile) 0) ∧
    ∃ s, Transition.Reachable Created step Transition.always s ∧ s.process.heapStart = 0x13000 ∧
      s.process.brk = 0x5001000 ∧
      (∃ r ∈ s.process.regions, r.type = .elf ∧ r.start = 0x5000000 ∧ r.stop = 0x5001000) ∧
      ¬ Apart s.process := by
  obtain ⟨process, region, made, start, lower, upper, type, first, second⟩ :=
    sample_run 0x5001000 (by omega)
  have created : Created ⟨process, 0⟩ := Or.inl ⟨_, _, made⟩
  have reached : Transition.Reachable Created step Transition.always _ :=
    ((Transition.Reachable.start created).next trivial first).next trivial second
  have member : region ∈ process.regions ++ [region] := List.mem_append_right _ List.mem_cons_self
  refine ⟨libraryCall_eq, _, reached, start, rfl, ⟨region, member, type, lower, upper⟩, ?_⟩
  intro apart
  have other : region ≠ heapRegion process.heapStart := by
    rintro rfl
    cases type
  have separate := apart region member other
  unfold Meets at separate
  dsimp only at separate
  omega

end Samples

end OsArmv8a.Brk
