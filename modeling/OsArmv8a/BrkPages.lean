import OsArmv8a.Brk
import OsArmv8a.UserCopy

/-! The break and the pages of the heap. `process_brk` moves a number; the heap region reaches to
`heap_limit` from the start, the fault handler looks at the region and not at the break, and nothing
unmaps what lies above a break that goes down. -/

set_option autoImplicit false

namespace OsArmv8a.Brk

open Mmu Elf

/-- A process and the memory system; the process names its address space. -/
structure HeapState where
  system : System
  process : Process

/-- What moves the break or the pages below and above it. -/
inductive HeapEvent where
  | brk (newBreak : Nat)
  | fault (far esr : Nat)
  | write (va : Nat) (bytes : List (BitVec 8))

def heapStep (s : HeapState) : HeapEvent → Option HeapState
  | .brk newBreak => some { s with process := (processBrk s.process newBreak).2 }
  | .fault far esr =>
    (Mmu.step s.system (.fault s.process.layout s.process.mm far esr)).map
      fun system => { s with system := system }
  | .write va bytes =>
    (Mmu.step s.system (.write s.process.mm va bytes)).map fun system => { s with system := system }

/-- The page of an address is there. -/
def HeapState.resident (s : HeapState) (va : Nat) : Prop :=
  resolveUserPage s.system.world.pages.mem (s.system.world.contexts s.process.mm) va ≠ none

instance (s : HeapState) (va : Nat) : Decidable (s.resident va) :=
  inferInstanceAs (Decidable (_ ≠ _))

/-- The addresses of the heap region, granted or not. -/
def InHeap (process : Process) (va : Nat) : Prop :=
  process.heapStart ≤ va ∧ va < process.heapLimit

instance (process : Process) (va : Nat) : Decidable (InHeap process va) :=
  inferInstanceAs (Decidable (_ ∧ _))

/-- A process that has just been created, in any state of the memory system, with no page in the
range of the heap yet. -/
structure Started (s : HeapState) : Prop where
  reached : Transition.Reachable Boot Mmu.step Transition.always s.system
  live : s.process.mm ∈ s.system.live
  created : Created { process := s.process, nextMmapAddr := 0 }
  empty : ∀ va, InHeap s.process va → ¬ s.resident va

/-- The pages of the heap region that are there start below the break. -/
def Below (s : HeapState) : Prop :=
  ∀ va, InHeap s.process va → s.resident va → 4096 * (va / 4096) < s.process.brk

/-- The checks that are missing: a break that is accepted leaves no page above it, and an access
above the break finds no heap region, because the region table was full when the process was made. -/
def BelowBreak (s : HeapState) : HeapEvent → Prop
  | .brk newBreak =>
    newBreak ≠ 0 → s.process.heapStart ≤ newBreak → newBreak ≤ s.process.heapLimit →
      ∀ va, InHeap s.process va → s.resident va → 4096 * (va / 4096) < newBreak
  | .fault far _ =>
    InHeap s.process far → Word64.alignUp s.process.brk 4096 ≤ far →
      heapRegion s.process.heapStart ∉ s.process.regions
  | .write _ _ => True

section Faults

variable {foreign : Nat → Prop} {w t : World} {active far esr : Nat} {layout : VmLayout}
  {handled : Bool}

section

variable (rest : AtRest foreign w active)
  (result : handlePageFault layout w active far esr = (handled, t))

include rest result

/-- Only a translation fault makes a page appear, where the handler has flags for it. -/
theorem translation_of_appears (absent : node w.pages.mem (w.contexts active) (pathOf far) = none)
    (present : node t.pages.mem (t.contexts active) (pathOf far) ≠ none) :
    fscType esr = 0x04 ∧ faultFlags layout far ≠ none := by
  have space := rest.space
  obtain ⟨-, rfl⟩ | ⟨-, rfl, -⟩ | ⟨-, faulted⟩ | ⟨translation, -, faulted⟩ :=
    handlePageFault_cases result
  · exact absurd absent present
  · exact absurd absent present
  · have unchanged : t = w := by
      unfold permissionFault at faulted
      split at faulted
      · cases faulted
        rfl
      rename_i ptr desc
      obtain ⟨table, found, rfl⟩ := resolveUserPageDesc_some.mp desc
      have invalid : ¬ IsCow (w.load (table + 8 * l3Index far)) := by
        intro cow
        have isTable := space.typed _ table _ (tablePathOf_ok far) found (l3Index_lt far) cow.1
        rw [node_pathOf found] at absent
        cases absent.symm.trans (child_of_isTable isTable)
      rw [if_pos invalid] at faulted
      cases faulted
      rfl
    rw [unchanged] at present
    exact absurd absent present
  · obtain ⟨-, -, rfl⟩ | ⟨flags, -, found, -⟩ := translationFault_cases faulted
    · exact absurd absent present
    · exact ⟨translation, found ▸ Option.some_ne_none flags⟩

/-- The only page that a fault makes appear is its own. -/
theorem appears_of_fault {va : Nat}
    (absent : node w.pages.mem (w.contexts active) (pathOf va) = none)
    (present : node t.pages.mem (t.contexts active) (pathOf va) ≠ none) :
    pathOf va = pathOf far ∧ faultFlags layout far ≠ none := by
  have path : pathOf va = pathOf far := by
    by_contra other
    have resolved : resolveUserPage t.pages.mem (t.contexts active) va ≠ none :=
      fun none => present (resolveUserPage_none.mp none)
    obtain ⟨⟨pa, entry⟩, found⟩ := Option.ne_none_iff_exists'.mp resolved
    have own := (handlePageFault_own rest result).1
    have was := (own.elsewhere.entries va pa entry other).mp (resident_iff.mpr found)
    cases absent.symm.trans was.node
  rw [path] at absent present
  exact ⟨path, (translation_of_appears rest result absent present).2⟩

/-- A page built outside every region, or for an anonymous one, is zero. -/
theorem fault_zero (absent : node w.pages.mem (w.contexts active) (pathOf far) = none)
    (anonymous : ∀ region, regionFor layout far = some region → region.type = .anon) {pa : Nat}
    {entry : BitVec 64} (resident : Resident t active far pa entry) :
    ∀ a, pa ≤ a → a < pa + 4096 → t.pages.mem a = 0 := by
  have translation := (translation_of_appears rest result absent
    (by rw [resident.node]; exact Option.some_ne_none pa)).1
  intro a lower upper
  cases covered : regionFor layout far with
  | some region =>
    have served := handlePageFault_served rest translation (Guards.empty _ active) result
    obtain ⟨-, pages, -, contents⟩ := served.built absent pa entry region resident covered
    have nothing : elfSource region (4096 * (far / 4096)) = none := by
      unfold elfSource
      simp [anonymous region covered]
    rw [contents a lower upper, fillFromRegion, nothing]
    exact Mem.zero_inside _ lower upper
  | none =>
    obtain ⟨-, -, pages, acquired, contents⟩ := handlePageFault_fallback rest translation absent
      covered result resident
    rw [contents a lower upper]
    exact acquired.scrubbed a lower upper

end

end Faults

section Runs

variable {s t : HeapState} {event : HeapEvent}

/-- What the run keeps: the regions of creation, and every page of the heap below the break. -/
structure HeapInv (s : HeapState) : Prop where
  sound : Sound (fun _ _ => False) s.system
  live : s.process.mm ∈ s.system.live
  limit : s.process.heapLimit = userHeapLimit
  start : s.process.heapStart % 4096 = 0
  bounded : Bounded s.process
  regions : ∀ r ∈ s.process.regions, r = heapRegion s.process.heapStart ∨ r = stackRegion ∨
    r.stop ≤ s.process.heapStart
  below : Below s

theorem Started.inv (started : Started s) : HeapInv s := by
  have fresh : Fresh s.process := started.created.fresh.1
  exact ⟨reachable_sound started.reached, started.live, fresh.limit, fresh.start.2,
    fresh.consistent.1, fresh.regions, fun va inside resident => absurd resident (started.empty va inside)⟩

section

variable (inv : HeapInv s)

include inv

/-- The handler finds the heap region or nothing for an address of the heap. -/
theorem HeapInv.region {far : Nat} (inside : InHeap s.process far) {r : VmRegion}
    (found : regionFor s.process.layout far = some r) :
    r = heapRegion s.process.heapStart ∧ r ∈ s.process.regions := by
  have member : r ∈ s.process.regions := List.mem_reverse.mp (List.mem_of_find?_eq_some found)
  have covers : r.start ≤ far ∧ far < r.stop := by
    simpa using List.find?_some found
  have limit := inv.limit
  unfold InHeap at inside
  rcases inv.regions r member with same | rfl | ends
  · exact ⟨same, member⟩
  · have stack : stackRegion.start = 0x7ff00000 := rfl
    simp only [userHeapLimit] at limit
    omega
  · omega

/-- An address above the break is served by the heap region alone. -/
theorem HeapInv.refused {far : Nat} (inside : InHeap s.process far) (above : s.process.brk ≤ far)
    (missing : heapRegion s.process.heapStart ∉ s.process.regions) :
    faultFlags s.process.layout far = none := by
  have uncovered : regionFor s.process.layout far = none := by
    apply Option.eq_none_iff_forall_ne_some.mpr
    intro r found
    obtain ⟨rfl, member⟩ := inv.region inside found
    exact missing member
  have limit := inv.limit
  unfold InHeap at inside
  simp only [userHeapLimit] at limit
  have fixed : growable s.process.layout far = false := by
    have brk : s.process.layout.brk = s.process.brk := rfl
    exact decide_eq_false (by omega)
  unfold faultFlags
  rw [uncovered]
  rw [fixed]
  rfl

theorem alignUp_brk : Word64.alignUp s.process.brk 4096 =
    4096 * ((s.process.brk + 4095) / 4096) := by
  have upper := inv.bounded.upper
  rw [inv.limit] at upper
  simp only [userHeapLimit] at upper
  rw [Word64.alignUp_page, Nat.mod_eq_of_lt (by omega)]

/-- No region and no fallback reaches beyond the user addresses. -/
theorem HeapInv.low {far : Nat} (flags : faultFlags s.process.layout far ≠ none) :
    far < 2 ^ 48 := by
  have bounds := inv.bounded
  have lower := bounds.lower
  have upper := bounds.upper
  rw [inv.limit] at upper
  simp only [userHeapLimit] at upper
  by_contra high
  apply flags
  have uncovered : regionFor s.process.layout far = none := by
    apply Option.eq_none_iff_forall_ne_some.mpr
    intro r found
    have covers : r.start ≤ far ∧ far < r.stop := by
      simpa using List.find?_some found
    rcases inv.regions r (List.mem_reverse.mp (List.mem_of_find?_eq_some found)) with rfl | rfl | ends
    · have stop : (heapRegion s.process.heapStart).stop = 0x70000000 := rfl
      omega
    · have stop : stackRegion.stop = 0x80000000 := rfl
      omega
    · omega
  have fixed : growable s.process.layout far = false := by
    have brk : s.process.layout.brk = s.process.brk := rfl
    exact decide_eq_false (by omega)
  unfold faultFlags
  rw [uncovered]
  rw [fixed]
  rfl

/-- The page of a heap address that a fault makes appear is the page of the fault. -/
theorem fault_appears {far esr : Nat} {handled : Bool} {w : World}
    (result : handlePageFault s.process.layout s.system.world s.process.mm far esr = (handled, w))
    {va : Nat} (inside : InHeap s.process va) (absent : ¬ s.resident va)
    (present : resolveUserPage w.pages.mem (w.contexts s.process.mm) va ≠ none) :
    far / 4096 = va / 4096 ∧ InHeap s.process far ∧
      node s.system.world.pages.mem (s.system.world.contexts s.process.mm) (pathOf far) = none ∧
      faultFlags s.process.layout far ≠ none := by
  have before := resolveUserPage_none.mp (Decidable.not_not.mp absent)
  obtain ⟨path, flags⟩ := appears_of_fault (inv.sound.atRest inv.live) result before
    fun none => present (resolveUserPage_none.mpr none)
  rw [path] at before
  have limit := inv.limit
  simp only [userHeapLimit] at limit
  have start := inv.start
  unfold InHeap at inside ⊢
  have page := page_eq_of_pathOf (by omega) (inv.low flags) path
  exact ⟨page, by omega, before, flags⟩

/-- One fault within the checks. -/
theorem fault_below {far esr : Nat} (checked : BelowBreak s (.fault far esr))
    (taken : heapStep s (.fault far esr) = some t) :
    HeapInv t ∧ ∀ va, InHeap s.process va → ¬ s.resident va → t.resident va →
      ∀ x, x / 4096 = va / 4096 → t.system.read t.process.mm x = some 0#8 := by
  obtain ⟨system, stepped, rfl⟩ := Option.map_eq_some_iff.mp taken
  have preserved := step_preserved inv.sound (permitted_unmarked s.system _) stepped
  have live : s.process.mm ∈ system.live := preserved.live _ rfl ▸ inv.live
  obtain ⟨-, same⟩ := Option.ite_none_right_eq_some.mp stepped
  cases Option.some.inj same
  have result : handlePageFault s.process.layout s.system.world s.process.mm far esr = (_, _) :=
    Prod.mk.eta.symm
  refine ⟨⟨preserved.sound, live, inv.limit, inv.start, inv.bounded, inv.regions, ?_⟩, ?_⟩
  · intro va inside present
    by_cases absent : s.resident va
    · exact inv.below va inside absent
    obtain ⟨page, within, -, flags⟩ := fault_appears inv result inside absent present
    have rounded := alignUp_brk inv
    show 4096 * (va / 4096) < s.process.brk
    by_contra above
    have missing := checked within (by omega)
    exact flags (inv.refused within (by omega) missing)
  · intro va inside absent present x samePage
    obtain ⟨page, within, before, -⟩ := fault_appears inv result inside absent present
    obtain ⟨⟨pa, entry⟩, found⟩ := Option.ne_none_iff_exists'.mp present
    have resident := resident_iff.mpr found
    have path : ∀ y, y / 4096 = va / 4096 → pathOf va = pathOf y := by
      intro y same
      rw [← pathOf_page, ← same, pathOf_page]
    have anonymous : ∀ region, regionFor s.process.layout far = some region → region.type = .anon := by
      intro region covers
      rw [(inv.region within covers).1]
      rfl
    have zero := fault_zero (inv.sound.atRest inv.live) result before anonymous
      (resident.of_path (path far page))
    have space := (preserved.sound.inv s.process.mm).space live
    have aligned := (space.addresses pa (resident.listed space)).aligned
    rw [read_of_resident (resident.of_path (path x samePage))]
    refine congrArg some ?_
    unfold Mem.byte
    rw [show (s.system.withWorld _).world.pages.mem _ = _ from zero _ (by omega) (by omega)]
    simp [wordByte]

theorem brk_below {newBreak : Nat} (checked : BelowBreak s (.brk newBreak))
    (taken : heapStep s (.brk newBreak) = some t) : HeapInv t := by
  cases taken
  rcases processBrk_cases s.process newBreak with ⟨-, same⟩ | ⟨accepted, moved⟩
  · rw [same]
    exact inv
  · rw [moved]
    exact ⟨inv.sound, inv.live, inv.limit, inv.start, ⟨accepted.2.1, accepted.2.2⟩, inv.regions,
      checked accepted.1 accepted.2.1 accepted.2.2⟩

theorem write_below {va : Nat} {bytes : List (BitVec 8)}
    (taken : heapStep s (.write va bytes) = some t) :
    HeapInv t ∧ ∀ x, t.resident x ↔ s.resident x := by
  obtain ⟨system, stepped, rfl⟩ := Option.map_eq_some_iff.mp taken
  have preserved := step_preserved inv.sound (permitted_unmarked s.system _) stepped
  have live : s.process.mm ∈ system.live := preserved.live _ rfl ▸ inv.live
  have same : ∀ x, HeapState.resident ⟨system, s.process⟩ x ↔ s.resident x := by
    intro x
    obtain ⟨⟨-, fits⟩, written⟩ := Option.ite_none_right_eq_some.mp stepped
    obtain ⟨w, wrote, rfl⟩ := Option.map_eq_some_iff.mp written
    obtain ⟨⟨pa, entry⟩, resolved, allowed⟩ := Option.bind_eq_some_iff.mp wrote
    obtain ⟨-, stored⟩ := Option.ite_none_right_eq_some.mp allowed
    cases Option.some.inj stored
    have nodes := (store_entries (inv.sound.atRest inv.live) (resident_iff.mpr resolved) fits).1
    unfold HeapState.resident
    rw [ne_eq, ne_eq, resolveUserPage_none, resolveUserPage_none]
    exact not_congr (by rw [← nodes _ (pathOf_ok x)]; rfl)
  exact ⟨⟨preserved.sound, live, inv.limit, inv.start, inv.bounded, inv.regions,
    fun x inside present => inv.below x inside ((same x).mp present)⟩, same⟩

/-- One step within the checks: the invariant, and zeros in every page of the heap that appears. -/
theorem heapStep_below (checked : BelowBreak s event) (taken : heapStep s event = some t) :
    HeapInv t ∧ ∀ va, InHeap s.process va → ¬ s.resident va → t.resident va →
      ∀ x, x / 4096 = va / 4096 → t.system.read t.process.mm x = some 0#8 := by
  cases event with
  | brk newBreak =>
    refine ⟨brk_below inv checked taken, fun va _ absent present => ?_⟩
    cases taken
    rcases processBrk_cases s.process newBreak with ⟨-, same⟩ | ⟨-, moved⟩
    · rw [same] at present
      exact absurd present absent
    · rw [moved] at present
      exact absurd present absent
  | fault far esr => exact fault_below inv checked taken
  | write va bytes =>
    obtain ⟨next, same⟩ := write_below inv taken
    exact ⟨next, fun x _ absent present => absurd ((same x).mp present) absent⟩

/-- A fault within the checks, at or above the break rounded up, finds no page. -/
theorem fault_above {far esr : Nat} (checked : BelowBreak s (.fault far esr))
    (taken : heapStep s (.fault far esr) = some t) (inside : InHeap s.process far)
    (above : Word64.alignUp s.process.brk 4096 ≤ far) :
    (handlePageFault s.process.layout s.system.world s.process.mm far esr).1 = false ∧
      ¬ t.resident far := by
  have next := (fault_below inv checked taken).1
  obtain ⟨system, stepped, rfl⟩ := Option.map_eq_some_iff.mp taken
  obtain ⟨-, same⟩ := Option.ite_none_right_eq_some.mp stepped
  cases Option.some.inj same
  have absent : ¬ HeapState.resident ⟨s.system.withWorld
      (handlePageFault s.process.layout s.system.world s.process.mm far esr).2, s.process⟩ far := by
    intro present
    have start : 4096 * (far / 4096) < s.process.brk := next.below far inside present
    have rounded := alignUp_brk inv
    omega
  refine ⟨Bool.eq_false_iff.mpr fun handled => ?_, absent⟩
  have own := handlePageFault_own (inv.sound.atRest inv.live)
    (show handlePageFault s.process.layout s.system.world s.process.mm far esr = (true, _) from
      Prod.ext handled rfl)
  obtain ⟨pa, entry, resident, -⟩ := own.2 rfl
  exact absent fun none => nomatch none.symm.trans (resident_iff.mp resident)

end

/-- The break bounds the heap along every run whose steps meet the missing checks. -/
theorem run_brkBounds (reached : Transition.Reachable Started heapStep BelowBreak s) :
    Below s ∧
    (∀ far esr t, BelowBreak s (.fault far esr) → heapStep s (.fault far esr) = some t →
      InHeap s.process far → Word64.alignUp s.process.brk 4096 ≤ far →
      (handlePageFault s.process.layout s.system.world s.process.mm far esr).1 = false ∧
        ¬ t.resident far) ∧
    ∀ event t, BelowBreak s event → heapStep s event = some t →
      ∀ va, InHeap s.process va → ¬ s.resident va → t.resident va →
        ∀ x, x / 4096 = va / 4096 → t.system.read t.process.mm x = some 0#8 := by
  have inv : HeapInv s := by
    apply reached.invariant
    · exact fun first started => started.inv
    · exact fun before after event holds checked taken => (heapStep_below holds checked taken).1
  exact ⟨inv.below, fun far esr t checked taken => fault_above inv checked taken,
    fun event t checked taken => (heapStep_below inv checked taken).2⟩

/-- A process in an address space that has just been made. -/
theorem started_of_create {system : System} {process : Process}
    (reached : Transition.Reachable Boot Mmu.step Transition.always system)
    (fresh : process.mm ∉ system.live)
    (given : (contextCreate system.world (some process.mm)).1 = some process.mm)
    (created : Created { process := process, nextMmapAddr := 0 }) :
    Started ⟨system.withWorld (contextCreate system.world (some process.mm)).2, process⟩ := by
  have unused : ∀ id ∈ some process.mm, id ∉ system.live := by
    rintro id ⟨⟩
    exact fresh
  obtain ⟨-, empty, -⟩ := contextCreate_some ((reachable_sound reached).inv process.mm) unused
    (Prod.ext given rfl)
  have taken : Mmu.step system (.create (some process.mm)) =
      some (system.withWorld (contextCreate system.world (some process.mm)).2) := if_pos unused
  refine ⟨reached.next trivial taken, ?_, created, fun va _ present => present ?_⟩
  · show process.mm ∈ (contextCreate system.world (some process.mm)).2.live
    rw [empty.live]
    exact List.mem_cons_self
  · exact resolveUserPage_none.mpr (empty.empty (Nat.mod_lt _ (by decide)) _)

end Runs

section Samples

/-- A flat program in the first address space of a small machine. -/
def flatState : Option HeapState :=
  (createFlatBinary sampleKernel 0x1000 0x1000).map fun process =>
    { system := (booted (PageAlloc.init eightPages (fun _ => 0) true)).withWorld
        (contextCreate (booted (PageAlloc.init eightPages (fun _ => 0) true)).world (some 0)).2
      process := process }

theorem flatState_started {s : HeapState} (made : flatState = some s) : Started s := by
  obtain ⟨process, created, rfl⟩ := Option.map_eq_some_iff.mp made
  have mm : process.mm = 0 := by
    have evaluated : (createFlatBinary sampleKernel 0x1000 0x1000).map (·.mm) = some 0 := by
      decide +kernel
    rw [created] at evaluated
    exact Option.some.inj evaluated
  have given : (contextCreate (booted (PageAlloc.init eightPages (fun _ => 0) true)).world
      (some 0)).1 = some 0 := by
    decide +kernel
  rw [← mm] at given ⊢
  exact started_of_create (.start (booted_boot _ _ _)) List.not_mem_nil given
    (Or.inr ⟨_, _, _, created⟩)

/-- The break goes up by a page and the page is touched. -/
theorem run_brkBounds_grown :
    ∃ s t u, flatState = some s ∧ heapStep s (.brk 0x10001000) = some t ∧
      heapStep t (.fault 0x10000010 0x04) = some u ∧ u.resident 0x10000010 ∧ Below u ∧
      u.system.read u.process.mm 0x10000010 = some 0#8 := by
  obtain ⟨s, made, t, grown, u, touched, brk, inside, absent, present⟩ : ∃ s, flatState = some s ∧
      ∃ t, heapStep s (.brk 0x10001000) = some t ∧
      ∃ u, heapStep t (.fault 0x10000010 0x04) = some u ∧ t.process.brk = 0x10001000 ∧
        InHeap t.process 0x10000010 ∧ ¬ t.resident 0x10000010 ∧ u.resident 0x10000010 := by
    decide +kernel
  have started := flatState_started made
  have empty : BelowBreak s (.brk 0x10001000) :=
    fun _ _ _ va inside resident => absurd resident (started.empty va inside)
  have granted : BelowBreak t (.fault 0x10000010 0x04) := by
    intro _ above
    rw [brk, show Word64.alignUp 0x10001000 4096 = 0x10001000 by decide +kernel] at above
    omega
  have before := (Transition.Reachable.start started).next empty grown
  exact ⟨s, t, u, made, grown, touched, present, (run_brkBounds (before.next granted touched)).1,
    (run_brkBounds before).2.2 _ u granted touched _ inside absent present _ rfl⟩

/-- The break goes up and down again around a touched and written page: the page stays, it is found
with its old byte when the break returns, and an address far above the break is served. -/
theorem run_brkBounds_shrunk :
    ∃ s t u, flatState = some s ∧ Started s ∧ Transition.run heapStep s
        [.brk 0x10001000, .fault 0x10000010 0x04, .write 0x10000010 [7#8], .brk 0x10000000] = some t ∧
      t.process.brk = 0x10000000 ∧ t.resident 0x10000000 ∧ ¬ Below t ∧
      (handlePageFault t.process.layout t.system.world t.process.mm 0x10050000 0x04).1 = true ∧
      heapStep t (.brk 0x10001000) = some u ∧
      u.system.read u.process.mm 0x10000010 = some 7#8 := by
  obtain ⟨s, made, t, ran, u, grown, inside, brk, resident, served, byte⟩ : ∃ s, flatState = some s ∧
      ∃ t, Transition.run heapStep s
        [.brk 0x10001000, .fault 0x10000010 0x04, .write 0x10000010 [7#8], .brk 0x10000000] = some t ∧
      ∃ u, heapStep t (.brk 0x10001000) = some u ∧ InHeap t.process 0x10000000 ∧
        t.process.brk = 0x10000000 ∧ t.resident 0x10000000 ∧
        (handlePageFault t.process.layout t.system.world t.process.mm 0x10050000 0x04).1 = true ∧
        u.system.read u.process.mm 0x10000010 = some 7#8 := by
    decide +kernel
  refine ⟨s, t, u, made, flatState_started made, ran, brk, resident, ?_, served, grown, byte⟩
  intro below
  have page := below 0x10000000 inside resident
  omega

end Samples

end OsArmv8a.Brk
