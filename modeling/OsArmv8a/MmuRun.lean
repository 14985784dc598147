import OsArmv8a.MmuClone
import OsArmv8a.Lib.Transition

/-! Whole runs: any sequence of calls over any number of contexts, interleaved with the other
users of the page allocator. -/

set_option autoImplicit false

namespace OsArmv8a.Mmu

open PageAlloc (Managed)

/-- The world with a ledger of the pages the rest of the kernel has allocated. -/
structure System where
  world : World
  kernel : Nat → Bool

inductive Event where
  | create (block : Option Nat)
  | clone (src : Nat) (block : Option Nat)
  | fault (layout : VmLayout) (id far esr : Nat)
  /-- A store of EL0, or one critical section of `mmu_copy_to_user`. -/
  | write (id va : Nat) (bytes : List (BitVec 8))
  | unmap (id va len : Nat)
  | get (id : Nat)
  | put (id : Nat)
  | switch (cpu : Fin 4) (target : Option Nat)
  /-- The rest of the kernel calls the page allocator or writes to one of its own pages. -/
  | kernel (op : PageAlloc.Op)

namespace System

def withWorld (s : System) (world : World) : System := { s with world := world }

def live (s : System) : List Nat := s.world.live

/-- The byte a context reads at a virtual address. -/
def read (s : System) (id va : Nat) : Option (BitVec 8) :=
  readUser s.world.pages.mem (s.world.contexts id) va

/-- A page joins the ledger when it is allocated and leaves it when it is freed. -/
def ledger (s : System) (pages : PageAlloc.State) (pa : Nat) : Bool :=
  Managed s.world.pages pa ∧ pages.stateAt pa = .allocated ∧
    (s.kernel pa = true ∨ s.world.pages.stateAt pa ≠ .allocated)

/-- The kernel's own calls do not concern the pages of a context. -/
def keepsOff (s : System) (op : PageAlloc.Op) : Prop :=
  ∀ id ∈ s.live, ∀ pa ∈ (s.world.contexts id).pages, ¬ op.targets pa

instance (s : System) (op : PageAlloc.Op) : Decidable (s.keepsOff op) :=
  inferInstanceAs (Decidable (∀ id ∈ s.live, ∀ pa ∈ (s.world.contexts id).pages, ¬ op.targets pa))

end System

/-- One event. `kmalloc` returns a block that is not in use, and contexts are used only while
they are live. A write that its descriptor does not allow has no successor. -/
def step (s : System) : Event → Option System
  | .create block =>
    if ∀ id ∈ block, id ∉ s.live then some (s.withWorld (contextCreate s.world block).2) else none
  | .clone src block =>
    if src ∈ s.live ∧ ∀ id ∈ block, id ∉ s.live then
      some (s.withWorld (contextClone s.world src block).2)
    else none
  | .fault layout id far esr =>
    if id ∈ s.live then some (s.withWorld (handlePageFault layout s.world id far esr).2) else none
  | .write id va bytes =>
    if id ∈ s.live ∧ va % 4096 + bytes.length ≤ 4096 then
      (writeUser s.world id va bytes).map s.withWorld
    else none
  | .unmap id va len =>
    if id ∈ s.live then some (s.withWorld (unmapUserRange s.world id va len)) else none
  | .get id => if id ∈ s.live then some (s.withWorld (contextGet s.world id).2) else none
  | .put id => if id ∈ s.live then some (s.withWorld (contextPut s.world id)) else none
  | .switch cpu target =>
    if ∀ id ∈ target, id ∈ s.live then some (s.withWorld (contextSwitch s.world cpu target))
    else none
  | .kernel op =>
    if s.keepsOff op then
      (PageAlloc.step s.world.pages op).map fun pages =>
        { world := s.world.setPages pages, kernel := s.ledger pages }
    else none

/-- The context whose memory an event is meant to change. -/
def Event.actor : Event → Option Nat
  | .fault _ id _ _ => some id
  | .write id _ _ => some id
  | .unmap id _ _ => some id
  | _ => none

/-- No context exists yet, and the allocator has only served the rest of the kernel. -/
structure Boot (s : System) : Prop where
  alloc : ∃ image mem mode, Transition.Reachable (· = PageAlloc.init image mem mode)
    PageAlloc.step Transition.always s.world.pages
  live : s.live = []
  cpus : ∀ cpu, s.world.cpuContext cpu = none
  kernel : ∀ pa, s.kernel pa = true ↔
    Managed s.world.pages pa ∧ s.world.pages.stateAt pa = .allocated

section Steps

variable {marked : Nat → List Nat → Prop} {s t : System}

/-- The invariant between events. -/
def Sound (marked : Nat → List Nat → Prop) (s : System) : Prop :=
  Inv (s.kernel · = true) marked s.world [] 0 []

/-- A fault makes no marked page writable. -/
def Event.Permitted (marked : Nat → List Nat → Prop) (s : System) : Event → Prop
  | .fault layout id far esr => Mmu.Permitted marked layout s.world id far esr
  | _ => True

/-- What is asked of every event: the invariant stays, and the memory of a context changes only
by an event of its own, which releases nothing. -/
structure Preserved (marked : Nat → List Nat → Prop) (s t : System) (actor : Option Nat) : Prop where
  sound : Sound marked t
  live : ∀ id ∈ actor, t.live = s.live
  views : ∀ id ∈ s.live, id ∈ t.live → actor ≠ some id → SameView s.world t.world id

variable {w : World}

/-- Calls of the rest of the kernel. -/
theorem Inv.kernel {foreign : Nat → Prop} {active : Nat} {loose : List Nat}
    (inv : Inv foreign marked w [] active loose) {op : PageAlloc.Op} {pages : PageAlloc.State}
    (taken : PageAlloc.step w.pages op = some pages)
    (apart : ∀ id ∈ w.live, ∀ pa ∈ (w.contexts id).pages, ¬ op.targets pa) :
    Inv (fun pa => Managed w.pages pa ∧ pages.stateAt pa = .allocated ∧
        (foreign pa ∨ w.pages.stateAt pa ≠ .allocated)) marked (w.setPages pages) [] active loose ∧
      Quiet w (w.setPages pages) := by
  have window := PageAlloc.step_managed inv.alloc taken
  have listed : ∀ pa, 0 < w.held [] pa → ∃ id ∈ w.live, pa ∈ (w.contexts id).pages := by
    intro pa positive
    obtain ⟨id, member, tracked⟩ := List.countP_pos_iff.mp positive
    exact ⟨id, member, of_decide_eq_true tracked⟩
  have kept : ∀ pa, 0 < w.held [] pa → PageAlloc.Kept w.pages pages pa := by
    intro pa positive
    have counted := inv.counted pa positive
    obtain ⟨id, member, tracked⟩ := listed pa positive
    exact PageAlloc.step_kept inv.alloc taken counted.1 counted.2.1 (apart id member pa tracked)
  have quiet : Quiet w (w.setPages pages) := by
    intro id member
    constructor
    · exact member
    · rfl
    · rfl
    · intro pa tracked
      exact (kept pa (held_pos_of_listed member tracked)).contents
  apply And.intro _ quiet
  constructor
  · exact PageAlloc.step_invariant op inv.alloc taken
  · exact inv.live
  · intro id member
    exact inv.space_of_undisturbed member (quiet id member) fun _ _ single => single
  · intro pa positive
    have same := kept pa positive
    exact ⟨same.managed, same.allocated, same.refs.trans (inv.counted pa positive).2.2⟩
  · intro pa managed allocated
    have managedBefore := (window pa).mp managed
    by_cases before : w.pages.stateAt pa = .allocated
    · rcases inv.accounted pa managedBefore before with positive | owned
      · exact Or.inl positive
      · exact Or.inr ⟨managedBefore, allocated, Or.inl owned⟩
    · exact Or.inr ⟨managedBefore, allocated, Or.inr before⟩
  · intro pa ⟨managed, allocated, origin⟩
    refine ⟨(window pa).mpr managed, allocated, ?_⟩
    rcases origin with owned | fresh
    · exact (inv.apart pa owned).2.2
    · by_contra positive
      exact fresh (inv.counted pa (Nat.pos_of_ne_zero positive)).2.1
  · exact inv.cpus

theorem Boot.sound (boot : Boot s) (marked : Nat → List Nat → Prop) : Sound marked s := by
  obtain ⟨image, mem, mode, reached⟩ := boot.alloc
  have alloc : PageAlloc.Invariant s.world.pages := by
    apply reached.invariant
    · rintro start rfl
      exact PageAlloc.init_invariant image mem mode
    · intro before after op inv _ taken
      exact PageAlloc.step_invariant op inv taken
  have live : s.world.live = [] := boot.live
  have held : ∀ pa, s.world.held [] pa = 0 := by
    intro pa
    unfold World.held World.listers
    rw [live]
    rfl
  constructor
  · exact alloc
  · rw [live]
    exact List.nodup_nil
  · rw [live]
    exact fun id member => nomatch member
  · intro pa positive
    rw [held] at positive
    exact absurd positive (Nat.lt_irrefl 0)
  · intro pa managed allocated
    exact Or.inr ((boot.kernel pa).mpr ⟨managed, allocated⟩)
  · intro pa owned
    have both := (boot.kernel pa).mp owned
    exact ⟨both.1, both.2, held pa⟩
  · intro cpu id installed
    rw [boot.cpus] at installed
    cases installed

/-- The invariant does not depend on which context is called the active one. -/
theorem Sound.inv (sound : Sound marked s) (active : Nat) :
    Inv (s.kernel · = true) marked s.world [] active [] := Inv.activate sound active

theorem preserved_quiet (sound : Sound marked s) (after : Inv (s.kernel · = true) marked w [] 0 [])
    (quiet : Quiet s.world w) : Preserved marked s (s.withWorld w) none :=
  ⟨after, fun _ impossible => (nomatch impossible), fun id member _ _ => (quiet id member).view sound member⟩

theorem preserved_surviving (sound : Sound marked s)
    (after : Inv (s.kernel · = true) marked w [] 0 []) (surviving : Surviving s.world w) :
    Preserved marked s (s.withWorld w) none :=
  ⟨after, fun _ impossible => (nomatch impossible), fun id member still _ => (surviving id still).2.view sound member⟩

theorem preserved_settled {active : Nat} (sound : Sound marked s)
    (settled : Settled (s.kernel · = true) marked s.world w active) :
    Preserved marked s (s.withWorld w) (some active) :=
  ⟨settled.inv.activate 0, fun _ _ => settled.live, fun id member _ other =>
    (settled.frame id member fun same => other (same ▸ rfl)).view sound member⟩

theorem step_preserved {event : Event} (sound : Sound marked s)
    (permitted : event.Permitted marked s) (taken : step s event = some t) :
    Preserved marked s t event.actor := by
  cases event with
  | create block =>
    obtain ⟨fresh, rfl⟩ := Transition.of_guard taken
    cases result : contextCreate s.world block with
    | mk made w =>
      cases made with
      | none =>
        have failing := contextCreate_none (sound.inv 0) result
        exact preserved_quiet sound failing.1 failing.2.1
      | some id =>
        have created := contextCreate_some (sound.inv 0) fresh result
        exact preserved_quiet sound (created.1.activate 0) created.2.1.quiet
  | clone src block =>
    obtain ⟨⟨member, fresh⟩, rfl⟩ := Transition.of_guard taken
    cases result : contextClone s.world src block with
    | mk made w =>
      have cloned := contextClone_spec (sound.inv 0) member fresh result
      exact ⟨cloned.1, fun _ impossible => (nomatch impossible),
        fun id live _ _ => (cloned.2.views id live).2⟩
  | fault layout id far esr =>
    obtain ⟨member, rfl⟩ := Transition.of_guard taken
    cases result : handlePageFault layout s.world id far esr with
    | mk handled w =>
      exact preserved_settled sound (handlePageFault_spec (sound.inv id) member permitted result)
  | write id va bytes =>
    obtain ⟨⟨member, fits⟩, same⟩ := Option.ite_none_right_eq_some.mp taken
    obtain ⟨w, written, rfl⟩ := Option.map_eq_some_iff.mp same
    exact preserved_settled sound (writeUser_spec (sound.inv id) member fits written)
  | unmap id va len =>
    obtain ⟨member, rfl⟩ := Transition.of_guard taken
    exact preserved_settled sound (unmapUserRange_spec (sound.inv id) member va len)
  | get id =>
    obtain ⟨member, rfl⟩ := Transition.of_guard taken
    have got := contextGet_spec (sound.inv 0) id
    exact preserved_quiet sound got.1 got.2
  | put id =>
    obtain ⟨member, rfl⟩ := Transition.of_guard taken
    have dropped := contextPut_spec (sound.inv 0) member
    exact preserved_surviving sound dropped.1 dropped.2.1
  | switch cpu target =>
    obtain ⟨members, rfl⟩ := Transition.of_guard taken
    have switched := contextSwitch_spec (sound.inv 0) cpu members
    exact preserved_surviving sound switched.1 switched.2
  | kernel op =>
    obtain ⟨apart, same⟩ := Option.ite_none_right_eq_some.mp taken
    obtain ⟨pages, called, rfl⟩ := Option.map_eq_some_iff.mp same
    have after := (sound.inv 0).kernel called apart
    constructor
    · have ledger : (fun pa => s.ledger pages pa = true) = fun pa => Managed s.world.pages pa ∧
          pages.stateAt pa = .allocated ∧
          (s.kernel pa = true ∨ s.world.pages.stateAt pa ≠ .allocated) := by
        funext pa
        exact decide_eq_true_eq
      unfold Sound
      rw [ledger]
      exact after.1
    · exact fun _ impossible => (nomatch impossible)
    · exact fun id member _ _ => (after.2 id member).view sound member

end Steps

section Accounting

/-- The books of all address spaces balance. -/
structure Accounted (s : System) : Prop where
  nodup : ∀ id ∈ s.live, (s.world.contexts id).pages.Nodup
  root : ∀ id ∈ s.live, (s.world.contexts id).rootPa ∈ (s.world.contexts id).pages
  /-- Every valid entry of a reachable table points to a tracked page: a sub-table above level 3
  and a user page at level 3. -/
  reached : ∀ id ∈ s.live, ∀ path table slot, path.length ≤ 3 → (∀ index ∈ path, index < 512) →
    node s.world.pages.mem (s.world.contexts id) path = some table → slot < 512 →
    Valid (s.world.load (table + 8 * slot)) →
    IsTable (s.world.load (table + 8 * slot)) ∧
      descAddr (s.world.load (table + 8 * slot)) ∈ (s.world.contexts id).pages
  counted : ∀ id ∈ s.live, ∀ pa ∈ (s.world.contexts id).pages,
    s.world.pages.stateAt pa = .allocated ∧ s.world.pages.refAt pa = s.world.listers pa
  /-- A page no context tracks is free, unless the rest of the kernel allocated it. -/
  returned : ∀ pa, Managed s.world.pages pa → s.world.listers pa = 0 → s.kernel pa = false →
    s.world.pages.stateAt pa = .free
  /-- The ledger never names a page of a context. -/
  ledger : ∀ pa, s.kernel pa = true → s.world.listers pa = 0

theorem accounted_of_sound {marked : Nat → List Nat → Prop} {s : System} (sound : Sound marked s) :
    Accounted s where
  nodup id member := (sound.spaces id member).owned.nodup
  root id member := (sound.spaces id member).root_listed
  reached id member path table slot short slots found below valid := by
    have ok : TablePath path := ⟨short, slots⟩
    have space := sound.spaces id member
    have isTable := space.typed path table slot ok found below valid
    have next := (node_snoc slot found).trans (child_of_isTable isTable)
    exact ⟨isTable, (space.owned.nodes _ _ (ok.snoc below) next).1⟩
  counted id member pa listed :=
    (sound.counted pa (held_pos_of_listed member listed)).2
  returned pa managed unlisted notKernel := by
    rcases sound.alloc.core.states pa managed with free | allocated
    · exact free
    · rcases sound.accounted pa managed allocated with positive | owned
      · exact absurd (Nat.lt_of_lt_of_eq positive unlisted) (Nat.lt_irrefl 0)
      · exact absurd (owned.symm.trans notKernel) (by decide)
  ledger pa owned := (sound.apart pa owned).2.2

/-- No page is marked, so every event is permitted. -/
theorem permitted_unmarked (s : System) (event : Event) :
    event.Permitted (fun _ _ => False) s := by
  cases event with
  | fault layout id far esr =>
    exact ⟨fun _ _ _ mark => mark.elim, fun _ _ _ _ mark => mark.elim⟩
  | _ => exact trivial

theorem reachable_sound {s : System} (reached : Transition.Reachable Boot step Transition.always s) :
    Sound (fun _ _ => False) s := by
  apply reached.invariant
  · exact fun start boot => boot.sound _
  · intro before after event sound _ taken
    exact (step_preserved sound (permitted_unmarked before event) taken).sound

/-- In every run the tracked pages, the page tables and the reference counts agree, and pages
that no context tracks have gone back to the allocator. -/
theorem run_accounting {s : System}
    (reached : Transition.Reachable Boot step Transition.always s) : Accounted s :=
  accounted_of_sound (reachable_sound reached)

/-- A system that has just booted on the given pages. -/
def booted (pages : PageAlloc.State) : System :=
  { world :=
      { pages := pages, asids := { used := fun _ => false, next := 1 }, cpuContext := fun _ => none,
        live := [], contexts := fun _ => { rootPa := 0, asid := 0, life := MmLifecycle.created, pages := [] } }
    kernel := fun pa => Managed pages pa ∧ pages.stateAt pa = .allocated }

theorem booted_boot (image : PageAlloc.KernelImage) (mem : Mem) (mode : Bool) :
    Boot (booted (PageAlloc.init image mem mode)) where
  alloc := ⟨image, mem, mode, .start rfl⟩
  live := rfl
  cpus _ := rfl
  kernel _ := decide_eq_true_iff

/-- A kernel that leaves eight pages, and one that leaves sixteen. -/
def eightPages : PageAlloc.KernelImage := ⟨0x47ff8000, by decide⟩
def sixteenPages : PageAlloc.KernelImage := ⟨0x47ff0000, by decide⟩

theorem textFlags_plain : 0x600000000007C4#64 &&& ~~~userAttributes = 0#64 := by decide

/-- A read-write anonymous region and a read-only one. -/
def sampleLayout : VmLayout :=
  { regions :=
      [{ start := 0x400000, stop := 0x402000, type := .anon, flags := defaultFlags, elfImage := 0,
         elfOffset := 0, fileSize := 0, plain := defaultFlags_plain },
       { start := 0x500000, stop := 0x502000, type := .anon, flags := 0x600000000007C4#64,
         elfImage := 0, elfOffset := 0, fileSize := 0, plain := textFlags_plain }]
    brk := 0 }

/-- Eight pages are too few for the clone, which gives back what it had taken. -/
def failingClone : List Event :=
  [.create (some 1), .fault sampleLayout 1 0x400000 0x04, .clone 1 (some 2), .unmap 1 0x400000 4096,
    .fault sampleLayout 1 0x401000 0x04, .put 1]

theorem run_accounting_eight_pages :
    ∃ s, Transition.run step (booted (PageAlloc.init eightPages (fun _ => 0) true)) failingClone =
        some s ∧ s.live = [] ∧ s.world.pages.freePages = 8 ∧ Accounted s := by
  refine Transition.ends_imp (Q := fun s => s.live = [] ∧ s.world.pages.freePages = 8)
    (by decide +kernel) ?_
  rintro s ran ⟨live, free⟩
  exact ⟨live, free, run_accounting (.of_ran (booted_boot _ _ _) ran)⟩

end Accounting

section Reads

theorem readUser_eq (m : Mem) (mm : MmContext) (va : Nat) :
    readUser m mm va = (node m mm (pathOf va)).map fun pa => m.byte (pa + va % 4096) := by
  unfold readUser
  cases resolved : resolveUserPage m mm va with
  | none =>
    rw [resolveUserPage_none.mp resolved]
    rfl
  | some page =>
    obtain ⟨table, found, entry, isTable, pa⟩ := resolveUserPage_some.mp resolved
    rw [node_pathOf found, ← entry, child_of_isTable isTable, ← pa]
    rfl

variable {marked : Nat → List Nat → Prop}

/-- A context with the same view reads the same bytes. -/
theorem SameView.read {s t : System} {id : Nat} (same : SameView s.world t.world id)
    (sound : Sound marked s) (member : id ∈ s.live) (va : Nat) : t.read id va = s.read id va := by
  unfold System.read
  rw [readUser_eq, readUser_eq, same.leaves _ (pathOf_ok va) rfl]
  cases found : node s.world.pages.mem (s.world.contexts id) (pathOf va) with
  | none => rfl
  | some pa =>
    have space := sound.spaces id member
    have listed := (space.owned.nodes _ pa (pathOf_ok va) found).1
    have page : 4096 ∣ pa := (space.addresses pa listed).aligned
    apply congrArg some
    apply Mem.byte_congr
    apply same.data _ pa (pathOf_ok va) rfl found <;> omega

/-- The new context reads what the source reads. -/
theorem clone_read {s t : System} (sound : Sound marked s) {src dst : Nat} {block : Option Nat}
    (taken : step s (.clone src block) = some t)
    (made : (contextClone s.world src block).1 = some dst) (va : Nat) :
    t.read dst va = s.read src va := by
  obtain ⟨⟨member, fresh⟩, rfl⟩ := Transition.of_guard taken
  have cloned := contextClone_spec (sound.inv 0) member fresh (Prod.mk.eta.symm)
  have copied := cloned.2.copied dst made
  have kept := SameView.read (t := s.withWorld (contextClone s.world src block).2)
    (cloned.2.views src member).2 sound member va
  rw [← kept]
  unfold System.read
  rw [readUser_eq, readUser_eq]
  exact congrArg (Option.map _) (copied _ (pathOf_ok va) rfl List.nil_prefix)

/-- An event of the rest of the system, from the point of view of one context. -/
def Elsewhere (id : Nat) (s : System) (event : Event) : Prop := id ∈ s.live ∧ event.actor ≠ some id

instance (id : Nat) (s : System) (event : Event) : Decidable (Elsewhere id s event) :=
  inferInstanceAs (Decidable (_ ∧ _))

/-- As long as a context is live and does nothing itself, what it reads does not change. -/
theorem elsewhere_read {id : Nat} (labels : List Event) : ∀ {s t : System},
    Sound (fun _ _ => False) s → Transition.Guarded step (Elsewhere id) s labels →
    Transition.run step s labels = some t → id ∈ t.live → ∀ va, t.read id va = s.read id va := by
  induction labels with
  | nil =>
    intro s t _ _ ran _ va
    cases Option.some.inj ran
    rfl
  | cons event rest ih =>
    intro s t sound guarded ran still va
    obtain ⟨middle, taken, tail⟩ := Option.bind_eq_some_iff.mp ran
    have later := guarded.2 middle taken
    have alive : id ∈ middle.live := by
      cases rest with
      | nil =>
        cases Option.some.inj tail
        exact still
      | cons next more => exact later.1.1
    have preserved := step_preserved sound (permitted_unmarked s event) taken
    have view := preserved.views id guarded.1.1 alive guarded.1.2
    exact (ih preserved.sound later tail still va).trans (view.read sound guarded.1.1 va)

/-- Copy-on-write isolation. A clone reads what its source reads, and from any reachable state
no run of events of other contexts changes what a context reads. -/
theorem run_isolation {s : System} (reached : Transition.Reachable Boot step Transition.always s) :
    (∀ src block dst t, step s (.clone src block) = some t →
      (contextClone s.world src block).1 = some dst → ∀ va, t.read dst va = s.read src va) ∧
    ∀ labels t id, Transition.Guarded step (Elsewhere id) s labels →
      Transition.run step s labels = some t → id ∈ t.live → ∀ va, t.read id va = s.read id va := by
  have sound := reachable_sound reached
  constructor
  · intro src block dst t taken made va
    exact clone_read sound taken made va
  · intro labels t id guarded ran still va
    exact elsewhere_read labels sound guarded ran still va

/-- A page is written, shared with a clone, and written by the clone after a copy. -/
def beforeClone : List Event :=
  [.create (some 1), .fault sampleLayout 1 0x400000 0x04, .write 1 0x400010 [7#8]]

def afterClone : List Event :=
  [.fault sampleLayout 2 0x400010 0x0F, .write 2 0x400010 [9#8]]

theorem run_isolation_written :
    ∃ s t u, Transition.run step (booted (PageAlloc.init sixteenPages (fun _ => 0) true))
        beforeClone = some s ∧ step s (.clone 1 (some 2)) = some t ∧
      Transition.run step t afterClone = some u ∧ t.read 2 0x400010 = some 7#8 ∧
      u.read 1 0x400010 = some 7#8 ∧ u.read 2 0x400010 = some 9#8 := by
  obtain ⟨s, first, t, cloned, u, last, byte, made, guarded, live, written⟩ : ∃ s,
      Transition.run step (booted (PageAlloc.init sixteenPages (fun _ => 0) true)) beforeClone =
        some s ∧
      ∃ t, step s (.clone 1 (some 2)) = some t ∧ ∃ u, Transition.run step t afterClone = some u ∧
        s.read 1 0x400010 = some 7#8 ∧ (contextClone s.world 1 (some 2)).1 = some 2 ∧
        Transition.Guarded step (Elsewhere 1) s (.clone 1 (some 2) :: afterClone) ∧
        1 ∈ u.live ∧ u.read 2 0x400010 = some 9#8 := by
    decide +kernel
  have isolation := run_isolation (.of_ran (booted_boot _ _ _) first)
  have same := isolation.2 _ u 1 guarded
    (by rw [Transition.run, cloned, Option.bind_some]; exact last) live 0x400010
  exact ⟨s, t, u, first, cloned, last,
    (isolation.1 1 (some 2) 2 t cloned made _).trans byte, same.trans byte, written⟩

end Reads

section CopyToUser

theorem fault_step {layout : VmLayout} {s : System} {id far esr : Nat} {handled : Bool} {w : World}
    (member : id ∈ s.live) (result : handlePageFault layout s.world id far esr = (handled, w)) :
    step s (.fault layout id far esr) = some (s.withWorld w) := by
  show (if id ∈ s.live then some (s.withWorld (handlePageFault layout s.world id far esr).2) else none)
    = _
  rw [if_pos member, result]

end CopyToUser

end OsArmv8a.Mmu
