import OsArmv8a.BrkPages
import OsArmv8a.MmuUnmap

/-! `sys_munmap` and the accesses that come after it. The call clears page table entries and leaves
the regions of the process alone, so the fault handler may build the page again. -/

set_option autoImplicit false

namespace OsArmv8a.Munmap

open Mmu Elf LinkerMap
open PageAlloc (Managed pageAlloc pageFree)

/-- `sys_munmap`: the result of the call and the memory. The task has an address space or not. -/
def sysMunmap (mm : Option Nat) (w : World) (addr len : Nat) : Nat × World :=
  match mm with
  | none => (2 ^ 64 - 1, w)
  | some id => (0, unmapUserRange w id addr len)

/-- The memory system and one process in it, with the static of `sys_mmap`. -/
structure State where
  system : System
  own : Brk.State

namespace State

def mm (s : State) : Nat := s.own.process.mm

def layout (s : State) : VmLayout := s.own.process.layout

def world (s : State) : World := s.system.world

def withWorld (s : State) (w : World) : State := { s with system := s.system.withWorld w }

/-- The page of an address is there. -/
def resident (s : State) (va : Nat) : Prop :=
  resolveUserPage s.world.pages.mem (s.world.contexts s.mm) va ≠ none

end State

/-- What may come later: system calls of the process, its faults, and everything else that happens
in the memory system. -/
inductive Later where
  | call (call : Brk.Call)
  | fault (far esr : Nat)
  | memory (event : Event)

/-- The event is a fault of the given context. -/
def FaultOf (id : Nat) : Event → Prop
  | .fault _ other _ _ => other = id
  | _ => False

instance (id : Nat) (event : Event) : Decidable (FaultOf id event) := by
  cases event <;> unfold FaultOf <;> infer_instance

/-- One step; the process keeps its address space. -/
def laterStep (s : State) : Later → Option State
  | .call call => (Brk.step s.own call).map fun own => { s with own := own }
  | .fault far esr =>
    (Mmu.step s.system (.fault s.layout s.mm far esr)).map fun system => { s with system := system }
  | .memory event =>
    if FaultOf s.mm event then none
    else (Mmu.step s.system event).bind fun system =>
      if s.mm ∈ system.live then some { s with system := system } else none

/-- The step is no `sys_mmap` and no growth of the break that covers the page of `x`. -/
def Spares (x : Nat) (s : State) : Later → Prop
  | .call (.brk newBreak) =>
    ∀ y, pathOf y = pathOf x → ¬ (s.own.process.brk ≤ y ∧ y < newBreak)
  | .call (.mmap addr len prot flags slot offset) =>
    ∀ start, (sysMmap ⟨s.own.process.regions, s.own.nextMmapAddr⟩ addr len prot flags slot
      offset).1 = some start →
      ∀ y, pathOf y = pathOf x → ¬ (start ≤ y ∧ y < Word64.add start len)
  | _ => True

/-- No access to `x` is served: its page is not there, faults are refused, and copies over it
return an error. -/
structure Denied (s : State) (x : Nat) : Prop where
  absent : ¬ s.resident x
  faults : ∀ esr, (handlePageFault s.layout s.world s.mm x esr).1 = false
  writes : ∀ current fuel va (bytes : List (BitVec 8)), va ≤ x → x < va + bytes.length →
    va + bytes.length < 2 ^ 64 → 3 * bytes.length ≤ fuel →
    ∃ t, copyToUser s.layout current s.mm fuel s.world va bytes = some (false, t)
  reads : ∀ current fuel va len, va ≤ x → x < va + len → va + len < 2 ^ 64 → 2 * len ≤ fuel →
    ∃ t fetched, copyFromUser s.layout current s.mm fuel s.world va len [] =
      some (false, t, fetched)

/-- No access to `x` is served until a later mapping or break covers it. -/
def Revoked (s : State) (x : Nat) : Prop :=
  ∀ t, Transition.Reachable (· = s) laterStep (Spares x) t → Denied t x

/-- What `sys_munmap` can take away: a page that is not there, or that is the first of its level 3
table, and that no region and no fallback would build again. -/
def Removable (s : State) (x : Nat) : Prop :=
  (s.resident x → l3Index x = 0) ∧ ∀ y, pathOf y = pathOf x → faultFlags s.layout y = none

/-- Memory for a page and all tables above it. -/
structure Roomy (w : World) (id count : Nat) : Prop where
  free : count ≤ w.pages.freePages
  slots : (w.contexts id).pages.length + count ≤ 256

section Room

variable {foreign : Nat → Prop} {marked : Nat → List Nat → Prop} {w t : World}
  {inHand loose : List Nat} {active count : Nat}

theorem Roomy.fewer (roomy : Roomy w active count) {fewer : Nat} (le : fewer ≤ count) :
    Roomy w active fewer :=
  ⟨Nat.le_trans le roomy.free, Nat.le_trans (Nat.add_le_add_left le _) roomy.slots⟩

/-- A free page is handed out. -/
theorem pageAlloc_free {pages : PageAlloc.State} (inv : PageAlloc.Invariant pages)
    (free : 0 < pages.freePages) : ∃ pa left, pageAlloc pages = (some pa, left) ∧ pa ≠ 0 ∧
      left.freePages = pages.freePages - 1 := by
  obtain ⟨xs, chain, -, counted⟩ := inv.linked
  cases found : pages.head with
  | none =>
    cases xs with
    | nil => exact absurd counted (Nat.ne_of_gt free)
    | cons x rest => cases chain.1.symm.trans found
  | some pa =>
    have taken : pageAlloc pages = (some pa, (pageAlloc pages).2) := by
      simp only [pageAlloc, found]
    have managed := (PageAlloc.pageAlloc_acquired inv taken).managed
    refine ⟨pa, _, taken, ?_, ?_⟩
    · have lower := inv.core.window.lower
      unfold Managed at managed
      omega
    · simp only [pageAlloc, found]
      rfl

/-- With room, a page is there and can be tracked. -/
theorem track_room (inv : Inv foreign marked w inHand active loose)
    (roomy : Roomy w active (count + 1)) :
    ∃ pa left, pageAlloc w.pages = (some pa, left) ∧ ∀ m, ∃ u,
      ((w.setPages left).setMem m).addPage active pa = some u ∧ Roomy u active count := by
  have free := roomy.free
  have slots := roomy.slots
  obtain ⟨pa, left, taken, positive, fewer⟩ := pageAlloc_free inv.alloc (by omega)
  have added : ∃ mm, (w.contexts active).addPage pa = some mm ∧
      mm.pages.length ≤ (w.contexts active).pages.length + 1 := by
    unfold MmContext.addPage
    rw [if_neg positive]
    split
    · exact ⟨_, rfl, Nat.le_succ _⟩
    · rw [if_neg (by omega)]
      exact ⟨_, rfl, Nat.le_of_eq List.length_append⟩
  obtain ⟨mm, given, length⟩ := added
  refine ⟨pa, left, taken, fun m => ⟨((w.setPages left).setMem m).setContext active mm, ?_, ?_, ?_⟩⟩
  · show ((w.contexts active).addPage pa).map _ = _
    rw [given]
    rfl
  · show count ≤ left.freePages
    omega
  · rw [World.setContext_same]
    omega

/-- `mmu_alloc_sub_table_locked` with room for its page. -/
theorem allocSubTable_room (inv : Inv foreign marked w inHand active loose)
    (roomy : Roomy w active (count + 1)) :
    ∃ pa t, allocSubTable w active = (some pa, t) ∧ Roomy t active count := by
  obtain ⟨pa, left, taken, tracked⟩ := track_room inv roomy
  obtain ⟨u, added, room⟩ := tracked left.mem
  unfold allocSubTable
  rw [taken]
  dsimp only
  rw [show (w.setPages left).addPage active pa = some u from added]
  exact ⟨pa, _, rfl, room.free, room.slots⟩

variable {place : List Nat} {table slot : Nat}

theorem nextTable_room (inv : Inv foreign marked w inHand active loose) (live : active ∈ w.live)
    (ok : TablePath place) (found : node w.pages.mem (w.contexts active) place = some table)
    (below : slot < 512) (level : Nat) (roomy : Roomy w active (count + 1)) :
    ∃ next t, nextTable w active (table + 8 * slot) level true = (some next, t) ∧
      Roomy t active count := by
  rw [nextTable_plain (inv.noBlock live ok found below)]
  split
  · exact ⟨_, w, rfl, roomy.fewer (Nat.le_succ count)⟩
  · obtain ⟨pa, t, made, room⟩ := allocSubTable_room inv roomy
    rw [made]
    exact ⟨_, _, rfl, room.free, room.slots⟩

theorem findTable_room (rest : List Nat) : ∀ {w : World} {place : List Nat} {table : Nat} (level : Nat),
    Inv foreign marked w inHand active loose → active ∈ w.live → TablePath (place ++ rest) →
    node w.pages.mem (w.contexts active) place = some table → Roomy w active rest.length →
    ∃ pa t, findTable active true w level table rest = (some pa, t) := by
  induction rest with
  | nil => exact fun _ _ _ _ _ _ => ⟨_, _, rfl⟩
  | cons slot rest ih =>
    intro w place table level inv live ok found roomy
    obtain ⟨okPlace, below, short, okNext⟩ := ok.next
    obtain ⟨next, u, stepped, room⟩ := nextTable_room inv live okPlace found below level
      (show Roomy w active (rest.length + 1) from roomy)
    have step := nextTable_create inv live okPlace short found below stepped
    obtain ⟨pa, t, ended⟩ := ih (level + 1) step.1.inv
      (step.1.live ▸ live) okNext (step.2 next rfl) room
    unfold findTable
    rw [stepped]
    exact ⟨pa, t, ended⟩

/-- With room for four pages a translation fault is served where it has flags. -/
theorem mapNewPage_room (inv : Inv foreign marked w [] active []) (live : active ∈ w.live)
    {pageVa : Nat} {flags : BitVec 64} {prepare : Nat → Mem → Mem}
    (inside : ∀ pa m a, 4096 ∣ pa → a < pa ∨ pa + 4096 ≤ a → prepare pa m a = m a)
    (roomy : Roomy w active 4) : (mapNewPage w active pageVa flags prepare).1 = true := by
  obtain ⟨pa, left, taken, tracked⟩ := track_room inv roomy
  have aligned := (inv.take taken).2.2.address.aligned
  obtain ⟨u, added, room⟩ := tracked (prepare pa left.mem)
  have acquired := inv.acquire live taken (fun a => inside pa left.mem a aligned) added
  obtain ⟨l3, t, ended⟩ := findTable_room (tablePathOf pageVa) 0 acquired.1.1
    (acquired.2.1.live ▸ live) (tablePathOf_ok pageVa) (node_root _ _) room
  have mapped : (mapUserPage u active pageVa pa flags).1 = true := by
    unfold mapUserPage findPte
    rw [show findTable active true u 0 (u.contexts active).rootPa [l0Index pageVa, l1Index pageVa,
      l2Index pageVa] = (some l3, t) from ended]
  unfold mapNewPage
  rw [taken]
  dsimp only
  rw [added]
  dsimp only
  cases result : mapUserPage u active pageVa pa flags with
  | mk done v =>
    rw [result] at mapped
    cases mapped
    rfl

/-- A translation fault that has flags leaves the page resident. -/
theorem handlePageFault_room {layout : VmLayout} {far : Nat} (rest : AtRest foreign w active)
    (mode : w.pages.mmuEnabled = true) (flags : faultFlags layout far ≠ none)
    (roomy : Roomy w active 4) : (handlePageFault layout w active far 0x04).1 = true := by
  have served : (translationFault layout w active far).1 = true := by
    cases result : translationFault layout w active far with
    | mk handled t =>
      obtain ⟨none, -⟩ | ⟨_, _, -, -, inside, -, -, mapped⟩ := translationFault_cases result
      · exact absurd none flags
      · exact (congrArg Prod.fst mapped).symm.trans (mapNewPage_room rest.inv rest.live inside roomy)
  unfold handlePageFault
  rw [mode, if_neg (by decide)]
  split
  · rfl
  · exact served

end Room

/-- The page of `x` is not there, and no fault can build it. -/
structure Shut (layout : VmLayout) (w : World) (id x : Nat) : Prop where
  absent : node w.pages.mem (w.contexts id) (pathOf x) = none
  uncovered : ∀ y, pathOf y = pathOf x → faultFlags layout y = none

section Shut

variable {foreign : Nat → Prop} {layout : VmLayout} {w t : World} {active x : Nat}

/-- A fault keeps the page shut, and a fault on the page is refused. -/
theorem Shut.fault (shut : Shut layout w active x) (rest : AtRest foreign w active) {far esr : Nat}
    {handled : Bool} (result : handlePageFault layout w active far esr = (handled, t)) :
    Shut layout t active x ∧ (pathOf far = pathOf x → handled = false) := by
  have absent : node t.pages.mem (t.contexts active) (pathOf x) = none := by
    by_contra present
    obtain ⟨path, flags⟩ := Brk.appears_of_fault rest result shut.absent present
    exact flags (shut.uncovered far path.symm)
  refine ⟨⟨absent, shut.uncovered⟩, fun path => Bool.eq_false_iff.mpr ?_⟩
  rintro rfl
  obtain ⟨pa, entry, resident, -⟩ := (handlePageFault_own rest result).2 rfl
  have there := resident.node
  rw [path, absent] at there
  cases there

/-- A store to another page keeps the page shut. -/
theorem Shut.store (shut : Shut layout w active x) (rest : AtRest foreign w active) {va pa : Nat}
    {entry : BitVec 64} {bytes : List (BitVec 8)} (resident : Resident w active va pa entry)
    (fits : va % 4096 + bytes.length ≤ 4096) :
    Shut layout (w.setMem (w.pages.mem.storeBytes (pa + va % 4096) bytes)) active x :=
  ⟨((store_entries rest resident fits).1 _ (pathOf_ok x)).trans shut.absent, shut.uncovered⟩

/-- A page that is there ends before the shut one. -/
theorem Shut.ahead (shut : Shut layout w active x) {va pa : Nat} {entry : BitVec 64}
    (resident : Resident w active va pa entry) (before : va ≤ x) : va / 4096 < x / 4096 := by
  rcases Nat.lt_or_eq_of_le (Nat.div_le_div_right before) with less | same
  · exact less
  · have there := resident.node
    rw [← pathOf_page, same, pathOf_page, shut.absent] at there
    cases there

variable {current : Bool}

/-- A copy to a range with a shut page fails. -/
theorem copyToUser_shut {fuel va : Nat} {bytes : List (BitVec 8)} {ok : Bool}
    (rest : AtRest foreign w active) (shut : Shut layout w active x) (before : va ≤ x)
    (within : x < va + bytes.length) (bound : va + bytes.length < 2 ^ 64)
    (result : copyToUser layout current active fuel w va bytes = some (ok, t)) : ok = false := by
  refine copyToUser_rule (P := fun w va bytes ok => Shut layout w active x → va ≤ x →
    x < va + bytes.length → ok = false) ?_ ?_ ?_ ?_ fuel rest bound result shut before within
  · exact fun va _ _ before within => absurd within (Nat.not_lt_of_le before)
  · exact fun w va bytes _ _ _ _ _ _ => rfl
  · intro w u va bytes ok esr rest _ handled later shut
    exact later (shut.fault rest handled).1
  · rintro w _ va bytes ok pa entry rest nonempty resident _ rfl _ later shut before within
    have ahead := shut.ahead resident before
    obtain ⟨-, short, fits⟩ := chunkOf_bounds va nonempty
    refine later (shut.store rest resident ?_) (by omega) ?_
    · rw [List.length_take]
      omega
    · rw [List.length_drop]
      omega

/-- A copy from a range with a shut page fails. -/
theorem copyFromUser_shut {fuel va len : Nat} {buffer out : List (BitVec 8)} {ok : Bool}
    (rest : AtRest foreign w active) (shut : Shut layout w active x) (before : va ≤ x)
    (within : x < va + len) (bound : va + len < 2 ^ 64)
    (result : copyFromUser layout current active fuel w va len buffer = some (ok, t, out)) :
    ok = false := by
  fun_induction copyFromUser layout current active fuel w va len buffer with
  | case1 => omega
  | case2 => cases result
  | case3 fuel w va len buffer _ _ u handled ih =>
    exact ih (rest.fault handled) (shut.fault rest handled).1 before within bound result
  | case6 fuel w va len buffer pa entry resolved _ size read ih =>
    have ahead := shut.ahead (resident_iff.mpr resolved) before
    have chunk : size = min (4096 - va % 4096) (len + 1) := rfl
    rw [Word64.add_of_lt (by omega)] at ih result
    exact ih rest shut (by omega) (by omega) (by omega) result
  | _ =>
    cases Option.some.inj result
    rfl

end Shut

section Runs

variable {s t : State} {x : Nat}

/-- The invariant of a run after the call. -/
structure Closed (x : Nat) (s : State) : Prop where
  sound : Sound (fun _ _ => False) s.system
  live : s.mm ∈ s.system.live
  shut : Shut s.layout s.world s.mm x

theorem Closed.rest (closed : Closed x s) : AtRest (s.system.kernel · = true) s.world s.mm :=
  closed.sound.atRest closed.live

theorem Closed.denied (closed : Closed x s) : Denied s x where
  absent present := present (resolveUserPage_none.mpr closed.shut.absent)
  faults _ := (closed.shut.fault closed.rest Prod.mk.eta.symm).2 rfl
  writes current fuel va bytes before within bound enough := by
    obtain ⟨ok, t, result⟩ : ∃ ok t, copyToUser s.layout current s.mm fuel s.world va bytes =
      some (ok, t) := copyToUser_ends closed.rest bound enough
    obtain rfl := copyToUser_shut closed.rest closed.shut before within bound result
    exact ⟨t, result⟩
  reads current fuel va len before within bound enough := by
    obtain ⟨ok, t, fetched, result⟩ : ∃ ok t out, copyFromUser s.layout current s.mm fuel s.world va
      len [] = some (ok, t, out) := copyFromUser_ends closed.rest bound enough
    obtain rfl := copyFromUser_shut closed.rest closed.shut before within bound result
    exact ⟨t, fetched, result⟩

theorem faultFlags_none {layout : VmLayout} {y : Nat} :
    faultFlags layout y = none ↔
      (∀ r ∈ layout.regions, ¬ (r.start ≤ y ∧ y < r.stop)) ∧ growable layout y = false := by
  unfold faultFlags regionFor
  cases covered : layout.regions.reverse.find? fun r => r.start ≤ y ∧ y < r.stop with
  | some region =>
    have member := List.mem_reverse.mp (List.mem_of_find?_eq_some covered)
    have covers : region.start ≤ y ∧ y < region.stop := by simpa using List.find?_some covered
    exact ⟨nofun, fun apart => absurd covers (apart.1 region member)⟩
  | none =>
    have apart : ∀ r ∈ layout.regions, ¬ (r.start ≤ y ∧ y < r.stop) := by
      intro r member covers
      exact List.find?_eq_none.mp covered r (List.mem_reverse.mpr member) (decide_eq_true covers)
    cases growable layout y with
    | false => exact ⟨fun _ => ⟨apart, rfl⟩, fun _ => rfl⟩
    | true => exact ⟨nofun, fun both => nomatch both.2⟩

/-- A call that spares the page keeps it uncovered. -/
theorem call_uncovered {call : Brk.Call} {own : Brk.State} (spares : Spares x s (.call call))
    (taken : Brk.step s.own call = some own)
    (uncovered : ∀ y, pathOf y = pathOf x → faultFlags s.layout y = none) :
    own.process.mm = s.mm ∧
      ∀ y, pathOf y = pathOf x → faultFlags own.process.layout y = none := by
  cases call with
  | brk newBreak =>
    cases Option.some.inj taken
    rcases Brk.processBrk_cases s.own.process newBreak with ⟨-, same⟩ | ⟨-, moved⟩
    · rw [same]
      exact ⟨rfl, uncovered⟩
    · rw [moved]
      refine ⟨rfl, fun y path => ?_⟩
      obtain ⟨apart, fixed⟩ := faultFlags_none.mp (uncovered y path)
      refine faultFlags_none.mpr ⟨apart, ?_⟩
      have beyond := spares y path
      have old := of_decide_eq_false fixed
      refine decide_eq_false ?_
      have brk : s.layout.brk = s.own.process.brk := rfl
      show ¬ ((0x10000000 ≤ y ∧ y < newBreak) ∨ _)
      omega
  | mmap addr len prot flags slot offset =>
    cases Option.some.inj taken
    rcases LinkerMap.sysMmap_cases ⟨s.own.process.regions, s.own.nextMmapAddr⟩ addr len prot flags slot
      offset with ⟨-, same⟩ | ⟨region, given, grown, stop, -⟩
    · rw [same]
      exact ⟨rfl, uncovered⟩
    · rw [grown]
      refine ⟨rfl, fun y path => ?_⟩
      obtain ⟨apart, fixed⟩ := faultFlags_none.mp (uncovered y path)
      refine faultFlags_none.mpr ⟨fun r member => ?_, fixed⟩
      rcases List.mem_append.mp member with old | new
      · exact apart r old
      · rw [List.mem_singleton.mp new, stop]
        exact spares _ given y path

/-- `mmu_unmap_user_range` brings no page, whatever its range wraps around. -/
theorem unmapUserRange_absent {foreign : Nat → Prop} {w : World} {id va len : Nat}
    (rest : AtRest foreign w id) (absent : node w.pages.mem (w.contexts id) (pathOf x) = none) :
    node (unmapUserRange w id va len).pages.mem ((unmapUserRange w id va len).contexts id) (pathOf x)
      = none := by
  unfold unmapUserRange
  split
  · exact absent
  have cleared := unmapPages_cleared (pagesFrom (Word64.alignDown va 4096)
    ((Word64.alignDown (Word64.add (Word64.add va len) 4095) 4096 - Word64.alignDown va 4096) / 4096))
    rest.inv rest.live
  obtain ⟨gone, kept⟩ := cleared.resolve (by rintro path ⟨p, -, rfl⟩; rfl) x
  by_cases lost : ∃ p ∈ pagesFrom (Word64.alignDown va 4096)
      ((Word64.alignDown (Word64.add (Word64.add va len) 4095) 4096 - Word64.alignDown va 4096) / 4096),
      pathOf x = tablePathOf p ++ [0]
  · exact resolveUserPage_none.mp (gone lost)
  · exact resolveUserPage_none.mp ((kept lost).trans (resolveUserPage_none.mpr absent))

/-- Everything but a fault of the process leaves a page that is not there where it is. -/
theorem memory_absent {system next : System} {id : Nat} {event : Event}
    (sound : Sound (fun _ _ => False) system) (live : id ∈ system.live) (still : id ∈ next.live)
    (quiet : ¬ FaultOf id event) (taken : Mmu.step system event = some next)
    (absent : node system.world.pages.mem (system.world.contexts id) (pathOf x) = none) :
    node next.world.pages.mem (next.world.contexts id) (pathOf x) = none := by
  have preserved := step_preserved sound (permitted_unmarked system event) taken
  by_cases own : event.actor = some id
  · cases event with
    | fault layout other far esr => exact absurd (Option.some.inj own) quiet
    | write other va bytes =>
      cases Option.some.inj own
      obtain ⟨⟨-, fits⟩, written⟩ := Option.ite_none_right_eq_some.mp taken
      obtain ⟨w, wrote, rfl⟩ := Option.map_eq_some_iff.mp written
      obtain ⟨⟨pa, entry⟩, resolved, allowed⟩ := Option.bind_eq_some_iff.mp wrote
      obtain ⟨-, stored⟩ := Option.ite_none_right_eq_some.mp allowed
      cases Option.some.inj stored
      exact ((store_entries (sound.atRest live) (resident_iff.mpr resolved) fits).1 _
        (pathOf_ok x)).trans absent
    | unmap other va len =>
      cases Option.some.inj own
      obtain ⟨-, same⟩ := Option.ite_none_right_eq_some.mp taken
      cases Option.some.inj same
      exact unmapUserRange_absent (sound.atRest live) absent
    | _ => cases own
  · exact ((preserved.views id live still own).leaves _ (pathOf_ok x) rfl).trans absent

theorem laterStep_closed {event : Later} (closed : Closed x s) (spares : Spares x s event)
    (taken : laterStep s event = some t) : Closed x t := by
  cases event with
  | call call =>
    obtain ⟨own, called, rfl⟩ := Option.map_eq_some_iff.mp taken
    obtain ⟨mm, uncovered⟩ := call_uncovered spares called closed.shut.uncovered
    refine ⟨closed.sound, ?_, ?_, uncovered⟩
    · show own.process.mm ∈ s.system.live
      rw [mm]
      exact closed.live
    · show node _ (s.system.world.contexts own.process.mm) _ = none
      rw [mm]
      exact closed.shut.absent
  | fault far esr =>
    obtain ⟨system, stepped, rfl⟩ := Option.map_eq_some_iff.mp taken
    have preserved := step_preserved closed.sound (permitted_unmarked s.system _) stepped
    have live : s.mm ∈ system.live := preserved.live _ rfl ▸ closed.live
    obtain ⟨-, same⟩ := Option.ite_none_right_eq_some.mp stepped
    cases Option.some.inj same
    exact ⟨preserved.sound, live,
      (closed.shut.fault closed.rest Prod.mk.eta.symm).1⟩
  | memory event =>
    obtain ⟨quiet, stepped⟩ := Option.ite_none_left_eq_some.mp taken
    obtain ⟨system, moved, rest⟩ := Option.bind_eq_some_iff.mp stepped
    obtain ⟨still, same⟩ := Option.ite_none_right_eq_some.mp rest
    cases Option.some.inj same
    have preserved := step_preserved closed.sound (permitted_unmarked s.system event) moved
    exact ⟨preserved.sound, still,
      memory_absent closed.sound closed.live still quiet moved closed.shut.absent,
      closed.shut.uncovered⟩

theorem Closed.revoked (closed : Closed x s) : Revoked s x := by
  intro t reached
  have still : Closed x t := by
    apply reached.invariant
    · rintro first rfl
      exact closed
    · exact fun before after event holds spares taken => laterStep_closed holds spares taken
  exact still.denied

/-- A page that is still there after the call, or that has flags and room, is served. -/
theorem not_revoked (sound : Sound (fun _ _ => False) s.system) (live : s.mm ∈ s.system.live)
    (mode : s.world.pages.mmuEnabled = true) (roomy : Roomy s.world s.mm 4) {y : Nat}
    (path : pathOf y = pathOf x) (flags : faultFlags s.layout y ≠ none) : ¬ Revoked s x := by
  intro revoked
  cases result : handlePageFault s.layout s.world s.mm y 0x04 with
  | mk handled w =>
    have served : (handlePageFault s.layout s.world s.mm y 0x04).1 = true :=
      handlePageFault_room (sound.atRest live) mode flags roomy
    rw [result] at served
    cases served
    have taken : laterStep s (.fault y 0x04) = some (s.withWorld w) := by
      show (Mmu.step s.system (.fault s.layout s.mm y 0x04)).map _ = _
      rw [fault_step live result]
      rfl
    have spared : Spares x s (.fault y 0x04) := trivial
    have denied := revoked _ (.next (.start rfl) spared taken)
    obtain ⟨pa, entry, resident, -⟩ := (handlePageFault_own (sound.atRest live) result).2 rfl
    exact denied.absent fun none => nomatch none.symm.trans
      (resident_iff.mp (resident.of_path path))

/-- What is left of the range after the call. -/
theorem sysMunmap_resident {w : World} {foreign : Nat → Prop} {id addr len : Nat}
    (rest : AtRest foreign w id) (aligned : addr % 4096 = 0 ∧ len % 4096 = 0)
    (fits : addr + len < 2 ^ 64) (inside : addr ≤ x ∧ x < addr + len) :
    node (sysMunmap (some id) w addr len).2.pages.mem ((sysMunmap (some id) w addr len).2.contexts id)
        (pathOf x) = none ↔
      (resolveUserPage w.pages.mem (w.contexts id) x ≠ none → l3Index x = 0) := by
  have cleared := unmapUserRange_cleared rest.inv rest.live (show addr + len + 4095 < 2 ^ 64 by omega)
  have first : clearedPath addr len (pathOf x) ↔ l3Index x = 0 := by
    rw [← pathOf_page, clearedPath_pathOf ⟨x, inside.1, inside.2, rfl⟩]
    unfold l3Index
    omega
  obtain ⟨gone, kept⟩ := cleared.resolve clearedPath_leaf x
  rw [← resolveUserPage_none]
  show resolveUserPage (unmapUserRange w id addr len).pages.mem
    ((unmapUserRange w id addr len).contexts id) x = none ↔ _
  by_cases start : l3Index x = 0
  · exact ⟨fun _ _ => start, fun _ => gone (first.mpr start)⟩
  · rw [kept fun lost => start (first.mp lost)]
    exact ⟨fun absent present => absurd absent present,
      fun only => Decidable.not_not.mp fun present => start (only present)⟩

/-- `sys_munmap` takes a page away for good where it can take it away at all: no later run without
a new mapping serves it. Where memory is left for the page and its tables, this is the only case. -/
theorem sysMunmap_revokes {addr len : Nat}
    (reached : Transition.Reachable Boot Mmu.step Transition.always s.system)
    (live : s.mm ∈ s.system.live) (aligned : addr % 4096 = 0 ∧ len % 4096 = 0)
    (fits : addr + len < 2 ^ 64) (inside : addr ≤ x ∧ x < addr + len)
    (unmapped : t = s.withWorld (sysMunmap (some s.mm) s.world addr len).2) :
    (sysMunmap (some s.mm) s.world addr len).1 = 0 ∧ (Removable s x → Revoked t x) ∧
      (t.world.pages.mmuEnabled = true → Roomy t.world t.mm 4 → Revoked t x → Removable s x) := by
  have sound := reachable_sound reached
  have left := sysMunmap_resident (sound.atRest live) aligned fits inside
  have taken : Mmu.step s.system (.unmap s.mm addr len) = some t.system := by
    rw [unmapped]
    exact if_pos live
  have preserved := step_preserved sound (permitted_unmarked s.system _) taken
  subst unmapped
  have still : s.mm ∈ (s.system.withWorld (sysMunmap (some s.mm) s.world addr len).2).live :=
    preserved.live _ rfl ▸ live
  refine ⟨rfl, fun removable => ?_, fun mode roomy revoked => ⟨fun present => ?_, fun y path => ?_⟩⟩
  · exact Closed.revoked ⟨preserved.sound, still, left.mpr removable.1, removable.2⟩
  · have denied := revoked _ (.start rfl)
    exact left.mp (resolveUserPage_none.mp (Decidable.not_not.mp denied.absent)) present
  · by_contra flags
    exact not_revoked preserved.sound still mode roomy path flags revoked

end Runs

section Samples

instance (s : State) (va : Nat) : Decidable (s.resident va) :=
  inferInstanceAs (Decidable (_ ≠ _))

/-- A process without regions. -/
def bareProcess : Process :=
  { mm := 1, entryVa := 0, heapStart := 0, brk := 0, heapLimit := 0, heapMappedEnd := 0,
    regions := [], ownedImages := [] }

/-- The first page of a level 3 table, which no region covers any more. -/
theorem sysMunmap_revokes_first :
    ∃ system, Transition.run Mmu.step (booted (PageAlloc.init eightPages (fun _ => 0) true))
        (onePage 0x400000) = some system ∧
      State.resident ⟨system, ⟨bareProcess, 0⟩⟩ 0x400000 ∧
      Revoked (State.withWorld ⟨system, ⟨bareProcess, 0⟩⟩
        (sysMunmap (some 1) system.world 0x400000 0x1000).2) 0x400000 := by
  refine Transition.ends_imp (Q := fun system => 1 ∈ system.live ∧
    State.resident ⟨system, ⟨bareProcess, 0⟩⟩ 0x400000) (by decide +kernel) ?_
  rintro system ran ⟨live, resident⟩
  have removable : Removable ⟨system, ⟨bareProcess, 0⟩⟩ 0x400000 := by
    refine ⟨fun _ => by decide, fun y path => faultFlags_none.mpr ⟨List.forall_mem_nil _, ?_⟩⟩
    have page := pathOf_eq_iff.mp path
    unfold l3Index at page
    refine decide_eq_false ?_
    have brk : State.layout ⟨system, ⟨bareProcess, 0⟩⟩ = ⟨[], 0⟩ := rfl
    rw [brk]
    dsimp only
    omega
  exact ⟨resident, (sysMunmap_revokes (.of_ran (booted_boot _ _ _) ran) live
    ⟨by decide, by decide⟩ (by decide) ⟨by decide, by decide⟩ rfl).2.1 removable⟩

/-- Two touched pages of the heap: the call returns 0, the second page is still there, and the
first is built again by the next fault. -/
theorem sysMunmap_revokes_served :
    ∃ s system, Brk.flatState = some s ∧ Brk.Started s ∧
      Transition.run Mmu.step s.system [.fault s.process.layout s.process.mm 0x10000000 0x04,
        .fault s.process.layout s.process.mm 0x10001000 0x04] = some system ∧
      (sysMunmap (some s.process.mm) system.world 0x10000000 0x2000).1 = 0 ∧
      State.resident (State.withWorld ⟨system, ⟨s.process, 0⟩⟩
        (sysMunmap (some s.process.mm) system.world 0x10000000 0x2000).2) 0x10001000 ∧
      (handlePageFault s.process.layout
        (sysMunmap (some s.process.mm) system.world 0x10000000 0x2000).2 s.process.mm 0x10000000
        0x04).1 = true := by
  obtain ⟨s, made, system, ran, resident, served⟩ : ∃ s, Brk.flatState = some s ∧
      ∃ system, Transition.run Mmu.step s.system
        [.fault s.process.layout s.process.mm 0x10000000 0x04,
          .fault s.process.layout s.process.mm 0x10001000 0x04] = some system ∧
        State.resident (State.withWorld ⟨system, ⟨s.process, 0⟩⟩
          (sysMunmap (some s.process.mm) system.world 0x10000000 0x2000).2) 0x10001000 ∧
        (handlePageFault s.process.layout
          (sysMunmap (some s.process.mm) system.world 0x10000000 0x2000).2 s.process.mm 0x10000000
          0x04).1 = true := by
    decide +kernel
  exact ⟨s, system, made, Brk.flatState_started made, ran, rfl, resident, served⟩

end Samples

end OsArmv8a.Munmap
