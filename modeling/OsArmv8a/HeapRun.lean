import OsArmv8a.HeapOps

set_option autoImplicit false

namespace OsArmv8a.Heap

open Tiling State Intrusive

/-- The heap with the pointers its clients hold. -/
structure System where
  heap : State
  live : List Nat

/-- The frames of all arenas, found by walking the arena list. -/
def ownedFrames (s : State) : Nat → Nat → List Nat
  | 0, _ => []
  | fuel + 1, page =>
    if page = 0 then []
    else
      pagesFrom (page - kernelVaOffset) (s.load (page + 8)) ++
        ownedFrames s fuel (s.load (page + 16))

/-- What happens to the heap: its two calls, stores of a client into its own payloads, and
the use other subsystems make of the page allocator. -/
inductive Event where
  | kmalloc (size : Nat)
  | kfree (ptr : Nat)
  | write (va value : Nat)
  | pages (op : PageAlloc.Op)

/-- `va` lies in the payload of a live pointer. -/
def System.inPayload (σ : System) (va : Nat) : Prop :=
  ∃ ptr ∈ σ.live, ptr ≤ va ∧ va < ptr + σ.heap.load (ptr - 32)

instance (σ : System) (va : Nat) : Decidable (σ.inPayload va) :=
  inferInstanceAs (Decidable (∃ ptr ∈ σ.live, _))

/-- Only live pointers are freed, stores stay inside live payloads, and the other users of
the page allocator keep away from the pages of the heap. -/
def step (σ : System) : Event → Option System
  | .kmalloc size =>
    (kmalloc σ.heap size).map fun (result, heap) =>
      { heap := heap, live := result.toList ++ σ.live }
  | .kfree ptr =>
    if ptr ∈ σ.live then
      (kfree σ.heap ptr).map fun heap => { heap := heap, live := σ.live.erase ptr }
    else none
  | .write va value =>
    if σ.inPayload va then some { σ with heap := σ.heap.store va value } else none
  | .pages op =>
    if ∀ pa ∈ ownedFrames σ.heap loopFuel σ.heap.heapPages, ¬ op.targets pa then
      (PageAlloc.step σ.heap.pages op).map fun pages =>
        { σ with heap := { σ.heap with pages := pages } }
    else none

/-- `kernel_heap_init` on any state the page allocator can be in. -/
def Started (σ : System) : Prop :=
  ∃ image mem mmuEnabled pages,
    Transition.Reachable (· = PageAlloc.init image mem mmuEnabled) PageAlloc.step
      Transition.always pages ∧
    σ = { heap := init pages, live := [] }

def Sound (σ : System) : Prop :=
  ∃ arenas, Invariant σ.heap arenas ∧ σ.live.Perm (usedAll arenas)

variable {σ : System}

theorem started_sound (started : Started σ) : Sound σ := by
  obtain ⟨image, mem, mmuEnabled, pages, reached, rfl⟩ := started
  have invPages : PageAlloc.Invariant pages := by
    refine reached.invariant ?_ ?_
    · rintro start rfl
      exact PageAlloc.init_invariant image mem mmuEnabled
    · intro before after op inv _ taken
      exact PageAlloc.step_invariant op inv taken
  have cleared : Invariant (empty pages) [] := ⟨invPages, rfl, by simp, List.Pairwise.nil⟩
  cases found : PageAlloc.pageAllocContiguous pages 1 with
  | mk result after =>
    cases result with
    | none =>
      obtain ⟨t, call, inv⟩ := addArena_none cleared found
      exact ⟨[], by simpa only [init, call] using inv, List.Perm.nil⟩
    | some rawPa =>
      obtain ⟨t, call, inv, -⟩ := addArena_some cleared found
      exact ⟨_, by simpa only [init, call] using inv, List.Perm.nil⟩

variable {s : State}

theorem ownedFrames_eq (arenas : List Arena) : ∀ {fuel page : Nat},
    (∀ a ∈ arenas, ArenaAt s a) →
    Chain (arenaLink s) (nullable page) (arenas.map Arena.base) → arenas.length < fuel →
    ownedFrames s fuel page = arenas.flatMap Arena.frames := by
  induction arenas with
  | nil =>
    intro fuel page _ chain enough
    obtain ⟨fuel, rfl⟩ := Nat.exists_eq_succ_of_ne_zero (Nat.ne_of_gt enough)
    have null : page = 0 := by
      by_contra positive
      simp [nullable, positive] at chain
    simp [ownedFrames, null]
  | cons a rest ih =>
    intro fuel page each chain enough
    obtain ⟨fuel, rfl⟩ := Nat.exists_eq_succ_of_ne_zero
      (Nat.ne_of_gt (Nat.lt_of_le_of_lt (Nat.zero_le _) enough))
    obtain ⟨rfl, positive⟩ := nullable_eq_some chain.1
    have at_ := each a List.mem_cons_self
    simp only [ownedFrames, if_neg positive, at_.count, List.flatMap_cons]
    rw [ih (fun b later => each b (List.mem_cons_of_mem a later)) chain.2
      (Nat.lt_of_succ_lt_succ enough)]
    rfl

variable {arenas : List Arena}

/-- A store into a payload touches no header. -/
theorem write_invariant (inv : Invariant σ.heap arenas) (perm : σ.live.Perm (usedAll arenas))
    {va : Nat} (value : Nat) (inside : σ.inPayload va) :
    Invariant (σ.heap.store va value) arenas := by
  obtain ⟨ptr, live, lower, upper⟩ := inside
  obtain ⟨a, member, listed⟩ := List.mem_flatMap.mp (perm.mem_iff.mp live)
  obtain ⟨front, block, back, shape, taken, rfl⟩ := mem_used listed
  obtain ⟨before, after, rfl⟩ := List.append_of_mem member
  have at_ := inv.each a member
  have low := at_.low
  have extent := at_.extent
  have laid := at_.laid
  rw [shape] at laid extent
  simp only [span_append, span_cons] at extent
  have header := (laid_append.mp laid).2.1
  rw [Nat.add_sub_cancel, header.size] at upper
  have within : Within σ.heap (σ.heap.store va value) (a.base + 48) a.stop :=
    (Within.refl _ _ _).store (by omega) (by omega) (by omega)
  refine inv.reblock within (at_.laid.congr ?_) at_.tiled
  intro p start offset small
  have high := (starts_bounds start).1
  refine load_store_other (by omega) (by omega) ?_
  rw [shape, starts_append, List.mem_append] at start
  rcases start with early | late
  · have bounds := starts_bounds early
    omega
  · rcases List.mem_cons.mp late with rfl | later
    · omega
    · have bounds := starts_bounds later
      omega

/-- What an event does to the arenas: one of the two calls, or nothing but payloads and foreign
pages have changed. -/
inductive Changed (s : State) (arenas : List Arena) : State → List Arena → Prop
  | requested {size : Nat} {result : Option Nat} {t : State} {arenas' : List Arena}
      (requested : Requested s arenas size result t arenas') : Changed s arenas t arenas'
  | released {t : State} {arenas' : List Arena} (released : Released s arenas t arenas') :
      Changed s arenas t arenas'
  | aside (pages : PageAlloc.State) : Changed s arenas { s with pages := pages } arenas

theorem step_changed {τ : System} {event : Event} (inv : Invariant σ.heap arenas)
    (perm : σ.live.Perm (usedAll arenas)) (taken : step σ event = some τ) :
    ∃ arenas', Changed σ.heap arenas τ.heap arenas' ∧ Invariant τ.heap arenas' ∧
      τ.live.Perm (usedAll arenas') := by
  cases event with
  | kmalloc size =>
    obtain ⟨result, t, arenas', call, requested⟩ := kmalloc_requested inv size
    have allocated := requested.allocated inv
    simp only [step, call, Option.map_some, Option.some.injEq] at taken
    subst taken
    refine ⟨arenas', .requested requested, allocated.invariant, ?_⟩
    cases result with
    | none => simpa [allocated.2] using perm
    | some ptr => exact (perm.cons ptr).trans allocated.2.symm
  | kfree ptr =>
    simp only [step] at taken
    split at taken
    · rename_i live
      obtain ⟨t, arenas', call, released, inv', freed⟩ := kfree_spec inv (perm.mem_iff.mp live)
      simp only [call, Option.map_some, Option.some.injEq] at taken
      subst taken
      refine ⟨arenas', .released released, inv', ?_⟩
      have erased := (perm.trans freed).erase ptr
      rwa [List.erase_cons_head] at erased
    · cases taken
  | write va value =>
    simp only [step] at taken
    split at taken
    · rename_i inside
      cases Option.some.inj taken
      exact ⟨arenas, .aside _, write_invariant inv perm value inside, perm⟩
    · cases taken
  | pages op =>
    simp only [step] at taken
    split at taken
    · rename_i away
      obtain ⟨pages, moved, same⟩ := Option.map_eq_some_iff.mp taken
      cases same
      refine ⟨arenas, .aside pages,
        inv.of_kept (PageAlloc.step_invariant op inv.pages moved) ?_, perm⟩
      intro a member pa frame
      rw [ownedFrames_eq arenas inv.each inv.chain inv.arenas_lt] at away
      obtain ⟨managed, allocated⟩ := (inv.each a member).owned pa frame
      exact PageAlloc.step_kept inv.pages moved managed allocated
        (away pa (List.mem_flatMap.mpr ⟨a, member, frame⟩))
    · cases taken

theorem step_sound {τ : System} (event : Event) (sound : Sound σ) (taken : step σ event = some τ) :
    Sound τ := by
  obtain ⟨arenas, inv, perm⟩ := sound
  obtain ⟨arenas', -, inv', perm'⟩ := step_changed inv perm taken
  exact ⟨arenas', inv', perm'⟩

/-- The block list of the arena at `base` as it stands in memory: the addresses of the
headers, first to last. -/
structure BlockStructure (s : State) (base : Nat) (blocks : List Nat) : Prop where
  listed : Chain (fun b => nullable (s.load (b + 16))) (nullable (s.load (base + 32))) blocks
  first : blocks.head? = some (base + 48) ∧ s.load (base + 48 + 24) = 0
  contiguous : blocks.IsChain fun b c => c = b + 32 + s.load b
  inverse : blocks.IsChain fun b c => s.load (b + 16) = c ∧ s.load (c + 24) = b
  grained : ∀ b ∈ blocks, 16 ∣ s.load b
  total : (blocks.map fun b => 32 + s.load b).sum = 4096 * s.load (base + 8) - 48
  separated : blocks.IsChain fun b c => s.load (b + 8) = 0 ∨ s.load (c + 8) = 0

variable {m : Nat → Nat} {blocks : List Block}

theorem Laid.chain : ∀ {prev addr : Nat}, addr ≠ 0 →
    Laid m prev addr blocks 0 → Chain (fun b => nullable (m (b + 16)))
      (if blocks = [] then none else some addr) (starts addr blocks) := by
  induction blocks with
  | nil => intro prev addr _ _; rfl
  | cons block rest ih =>
    intro prev addr positive laid
    refine ⟨rfl, ?_⟩
    have next : nullable (m (addr + 16)) =
        if rest = [] then none else some (addr + (32 + block.size)) := by
      rw [laid.1.next]
      unfold nullable
      by_cases empty : rest = []
      · simp [empty]
      · simp only [if_neg empty]
        exact if_neg (by omega)
    have tail := ih (show addr + (32 + block.size) ≠ 0 by omega) laid.2
    rwa [← next] at tail

theorem Laid.links : ∀ {prev addr next : Nat},
    Laid m prev addr blocks next → (starts addr blocks).IsChain fun b c =>
      c = b + 32 + m b ∧ m (b + 16) = c ∧ m (c + 24) = b := by
  induction blocks with
  | nil => intro prev addr next _; exact List.isChain_nil
  | cons block rest ih =>
    intro prev addr next laid
    cases rest with
    | nil => exact List.isChain_singleton _
    | cons second rest =>
      refine List.isChain_cons_cons.mpr ⟨⟨?_, laid.1.next, laid.2.1.prev⟩, ih laid.2⟩
      rw [laid.1.size]
      omega

theorem Laid.sizes : ∀ {prev addr next : Nat},
    Laid m prev addr blocks next → (starts addr blocks).map m = blocks.map Block.size := by
  induction blocks with
  | nil => intro prev addr next _; rfl
  | cons block rest ih =>
    intro prev addr next laid
    simp only [starts, List.map_cons, laid.1.size, ih laid.2]

theorem Laid.flags : ∀ {prev addr next : Nat},
    Laid m prev addr blocks next → (starts addr blocks).map (fun b => m (b + 8)) =
      blocks.map fun block => if block.free = true then 1 else 0 := by
  induction blocks with
  | nil => intro prev addr next _; rfl
  | cons block rest ih =>
    intro prev addr next laid
    simp only [starts, List.map_cons, laid.1.free, ih laid.2]

theorem sum_sizes (blocks : List Block) :
    (blocks.map fun block => 32 + block.size).sum = span 32 blocks := by
  induction blocks with
  | nil => rfl
  | cons block rest ih => simp [ih]

theorem ArenaAt.blockStructure {a : Arena} (at_ : ArenaAt s a) :
    BlockStructure s a.base (starts (a.base + 48) a.blocks) := by
  have nonempty := at_.blocks_ne_nil
  have positive : a.base + 48 ≠ 0 := by omega
  have sizes := at_.laid.sizes
  have head : (starts (a.base + 48) a.blocks).head? = some (a.base + 48) ∧
      s.load (a.base + 48 + 24) = 0 := by
    cases shape : a.blocks with
    | nil => exact absurd shape nonempty
    | cons block rest =>
      have laid := at_.laid
      rw [shape] at laid
      exact ⟨rfl, laid.1.prev⟩
  constructor
  case listed =>
    have chain := at_.laid.chain positive
    rw [if_neg nonempty] at chain
    rw [at_.firstBlock]
    exact chain
  case first => exact head
  case contiguous => exact at_.laid.links.imp fun _ _ link => link.1
  case inverse => exact at_.laid.links.imp fun _ _ link => link.2
  case grained =>
    intro b member
    have size : s.load b ∈ a.blocks.map Block.size := sizes ▸ List.mem_map_of_mem member
    obtain ⟨block, listed, same⟩ := List.mem_map.mp size
    exact same ▸ at_.tiled.grained block listed
  case total =>
    have mapped : (starts (a.base + 48) a.blocks).map (fun b => 32 + s.load b) =
        a.blocks.map fun block => 32 + block.size := by
      have shifted := congrArg (List.map (32 + ·)) sizes
      rw [List.map_map, List.map_map] at shifted
      exact shifted
    rw [mapped, sum_sizes, at_.count]
    exact at_.tiled.exact
  case separated =>
    have flags : ((starts (a.base + 48) a.blocks).map fun b => s.load (b + 8)).IsChain
        fun x y => x = 0 ∨ y = 0 := by
      rw [at_.laid.flags, List.isChain_map]
      refine at_.tiled.separated.imp ?_
      rintro left right (used | used)
      · exact Or.inl (by simp [used])
      · exact Or.inr (by simp [used])
    exact (List.isChain_map fun b => s.load (b + 8)).mp flags

/-- With nothing allocated an arena is one free block. -/
theorem ArenaAt.all_free {a : Arena} (at_ : ArenaAt s a) (none : used (a.base + 48) a.blocks = []) :
    starts (a.base + 48) a.blocks = [a.base + 48] ∧ s.load (a.base + 48 + 8) ≠ 0 ∧
      s.load (a.base + 48) = s.load (a.base + 24) := by
  have free := used_nil none
  have single := at_.tiled.separated.single free
  have exact := at_.tiled.exact
  have laid := at_.laid
  cases shape : a.blocks with
  | nil => exact absurd shape at_.blocks_ne_nil
  | cons block rest =>
    rw [shape] at single free laid exact
    have last : rest = [] := by
      rw [← List.length_eq_zero_iff]
      simp only [List.length_cons] at single
      omega
    subst last
    refine ⟨rfl, ?_, ?_⟩
    · rw [laid.1.free, if_pos (free block List.mem_cons_self)]
      exact Nat.one_ne_zero
    · rw [laid.1.size, at_.usable]
      simp only [span_cons, span_nil] at exact
      omega

/-- Every arena is tiled by its blocks, and is a single free block when nothing is live. -/
def Structured (σ : System) : Prop :=
  ∃ bases, Chain (arenaLink σ.heap) (nullable σ.heap.heapPages) bases ∧
    ∀ base ∈ bases, ∃ blocks, BlockStructure σ.heap base blocks ∧
      (σ.live = [] → blocks = [base + 48] ∧ σ.heap.load (base + 48 + 8) ≠ 0 ∧
        σ.heap.load (base + 48) = σ.heap.load (base + 24))

theorem Sound.structured (sound : Sound σ) : Structured σ := by
  obtain ⟨arenas, inv, perm⟩ := sound
  refine ⟨arenas.map Arena.base, inv.chain, ?_⟩
  intro base member
  obtain ⟨a, listed, rfl⟩ := List.mem_map.mp member
  have at_ := inv.each a listed
  refine ⟨_, at_.blockStructure, ?_⟩
  intro idle
  apply at_.all_free
  rw [idle] at perm
  exact List.flatMap_eq_nil_iff.mp perm.nil_eq.symm a listed

/-- Neither call ever loops: a request of any size is answered, and so is the free of a
live pointer. -/
theorem Sound.responsive (sound : Sound σ) :
    (∀ size, (step σ (.kmalloc size)).isSome) ∧
      ∀ ptr ∈ σ.live, (step σ (.kfree ptr)).isSome := by
  obtain ⟨arenas, inv, perm⟩ := sound
  constructor
  · intro size
    obtain ⟨result, t, arenas', call, _⟩ := kmalloc_spec inv size
    simp [step, call]
  · intro ptr live
    obtain ⟨t, arenas', call, -⟩ := kfree_spec inv (perm.mem_iff.mp live)
    simp [step, call, live]

theorem reachable_sound (reached : Transition.Reachable Started step Transition.always σ) :
    Sound σ := by
  refine reached.invariant (fun _ started => started_sound started) ?_
  intro before after event sound _ taken
  exact step_sound event sound taken

theorem run_structured {σ : System}
    (reached : Transition.Reachable Started step Transition.always σ) :
    Structured σ ∧ (∀ size, (step σ (.kmalloc size)).isSome) ∧
      ∀ ptr ∈ σ.live, (step σ (.kfree ptr)).isSome := by
  have sound := reachable_sound reached
  exact ⟨sound.structured, sound.responsive⟩

/-- Requests that split, that take a whole block of size zero because their size wraps, and
that need a second arena; the frees join blocks on both sides. -/
def sampleEvents : List Event :=
  [.kmalloc 24, .kmalloc (2 ^ 64 - 1), .kmalloc 100, .kmalloc 5000,
    .write (kernelVaOffset + 0x47ffc050) 7, .kfree (kernelVaOffset + 0x47ffc050),
    .kfree (kernelVaOffset + 0x47ffc0b0), .kfree (kernelVaOffset + 0x47ffc090), .pages .alloc]

theorem run_structured_sample :
    ∃ σ, Transition.run step
        { heap := init (PageAlloc.init ⟨0x47ffc000, by decide⟩ (fun _ => 0) true), live := [] }
        sampleEvents = some σ ∧ σ.live = [kernelVaOffset + 0x47ffd050] ∧ Structured σ := by
  refine Transition.ends_imp (Q := fun σ => σ.live = [kernelVaOffset + 0x47ffd050])
    (by decide +kernel) ?_
  intro σ ran live
  exact ⟨live, (run_structured (.of_ran ⟨_, _, _, _, .start rfl, rfl⟩ ran)).1⟩

end OsArmv8a.Heap
