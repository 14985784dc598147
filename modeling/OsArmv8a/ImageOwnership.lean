import OsArmv8a.ElfLayout
import OsArmv8a.Lib.Transition

/-! Who frees the file buffers that regions keep reading from: `loader_load_process_image`,
`process_execve`, `process_clone` and `process_destroy` over whole runs. A buffer is named by its
allocation, so an address that `kmalloc` hands out again is a new buffer. -/

set_option autoImplicit false

namespace OsArmv8a.ImageOwnership

open Mmu Elf

/-- What `process_create_from_elf` returns, the interpreter buffer it has read and the buffers it
has freed itself. -/
structure Outcome where
  process : Option Process
  read : List Nat
  freed : List Nat

/-- The end of `process_create_from_elf`, with `process_release_loaded_images` on its error path. -/
def finishOutcome (mm : Nat) (state : LoadState) (read : List Nat) : Outcome :=
  match finishProcess mm state with
  | none => ⟨none, read, state.ownedImages⟩
  | some process => ⟨some process, read, []⟩

/-- `process_create_from_elf` once the process block and its context exist. -/
def loadOutcome (kernel : Kernel) (image : Image) (mm : Nat) : Outcome :=
  match interpPath image with
  | none =>
    match registerLoadedObject emptyLoad mainName image true with
    | none => ⟨none, [], []⟩
    | some state => finishOutcome mm state []
  | some path =>
    match registerLoadedObject emptyLoad mainName image false with
    | none => ⟨none, [], []⟩
    | some state =>
      match kernel.loadFile path with
      | none => ⟨none, [], []⟩
      | some interp =>
        match registerLoadedObject state path interp true with
        | none => ⟨none, [interp.address], [interp.address]⟩
        | some state => finishOutcome mm state [interp.address]

/-- `process_create_from_elf`. -/
def createOutcome (kernel : Kernel) (image : Image) : Outcome :=
  if image.isElfImage = false ∨ image.validHeader = false ∨ kernel.processBlock = false then
    ⟨none, [], []⟩
  else
    match kernel.context with
    | none => ⟨none, [], []⟩
    | some mm => loadOutcome kernel image mm

/-- The part of `struct process` that decides about buffers; `ownedImages` are the first
`owned_image_count` entries of `owned_images`. -/
structure Proc where
  refCount : Nat
  regions : List VmRegion
  ownedImages : List Nat

/-- `elf_image` of a region is the buffer. -/
def Proc.References (proc : Proc) (buffer : Nat) : Prop := ∃ r ∈ proc.regions, r.elfImage = buffer

instance (proc : Proc) (buffer : Nat) : Decidable (proc.References buffer) :=
  inferInstanceAs (Decidable (∃ r ∈ proc.regions, r.elfImage = buffer))

/-- Live processes, every image buffer read so far and how often each was freed. `owner` records
which process a buffer was handed to. -/
structure State where
  live : List Nat
  procs : Nat → Proc
  images : List Nat
  freed : Nat → Nat
  owner : Nat → Option Nat

namespace State

@[grind] def free (s : State) (buffers : List Nat) : State :=
  { s with freed := fun b => s.freed b + buffers.count b }

/-- Buffers are read from files. -/
@[grind] def read (s : State) (buffers : List Nat) : State := { s with images := buffers ++ s.images }

@[grind] def setProc (s : State) (p : Nat) (proc : Proc) : State :=
  { s with procs := fun q => if q = p then proc else s.procs q }

/-- A process appears; what it owns is handed to it. -/
@[grind] def install (s : State) (p : Nat) (proc : Proc) (owned : List Nat) : State :=
  { (s.setProc p proc) with
    live := p :: s.live
    owner := fun b => if b ∈ owned then some p else s.owner b }

@[grind] def remove (s : State) (p : Nat) : State := { s with live := s.live.filter (· ≠ p) }

end State

/-- `process_destroy`. -/
def destroy (s : State) (p : Nat) : State :=
  let proc := s.procs p
  if 1 < proc.refCount then s.setProc p { proc with refCount := proc.refCount - 1 }
  else if proc.refCount = 0 then s
  else (s.free (proc.ownedImages.filter (· ≠ 0))).remove p

inductive Label where
  /-- `loader_load_process_image`: the file has been read into a new buffer. -/
  | load (p : Nat) (image : Image) (kernel : Kernel)
  /-- `process_execve` of a task of `q`: the file has been read into a new buffer. -/
  | exec (q p : Nat) (image : Image) (kernel : Kernel)
  /-- `process_clone` without `CLONE_THREAD`; `old` is what the child's block says about owned
  images, `complete` that context and task could be made. -/
  | fork (q p : Nat) (old : List Nat) (complete : Bool)
  /-- `process_clone` with `CLONE_THREAD`; `complete` that the task could be made. -/
  | thread (q : Nat) (complete : Bool)
  | destroy (q : Nat)

/-- `kmalloc` returns blocks that are not in use. -/
def Fresh (s : State) (p : Nat) (buffers : List Nat) : Prop :=
  p ∉ s.live ∧ buffers.Nodup ∧ ∀ b ∈ buffers, b ≠ 0 ∧ b ∉ s.images

instance (s : State) (p : Nat) (buffers : List Nat) : Decidable (Fresh s p buffers) :=
  inferInstanceAs (Decidable (_ ∧ _ ∧ _))

def newProc (process : Process) : Proc :=
  { refCount := 1, regions := process.regions, ownedImages := process.ownedImages }

/-- The state after `process_create_from_elf`. -/
def created (s : State) (p : Nat) (image : Image) (outcome : Outcome) : State :=
  let s := (s.read (image.address :: outcome.read)).free outcome.freed
  match outcome.process with
  | none => s
  | some process => s.install p (newProc process) process.ownedImages

def step (s : State) : Label → Option State
  | .load p image kernel =>
    let outcome := createOutcome kernel image
    if Fresh s p (image.address :: outcome.read) then some (created s p image outcome) else none
  | .exec q p image kernel =>
    let outcome := createOutcome kernel image
    if q ∈ s.live ∧ (s.procs q).refCount = 1 ∧ Fresh s p (image.address :: outcome.read) then
      let t := (created s p image outcome).free [image.address]
      match outcome.process with
      | none => some t
      | some _ => some (destroy t q)
    else none
  | .fork q p old complete =>
    if q ∈ s.live ∧ Fresh s p [] then
      if complete = true then
        some (s.install p { refCount := 1, regions := (s.procs q).regions, ownedImages := old } [])
      else some s
    else none
  | .thread q complete =>
    if q ∈ s.live then
      let proc := s.procs q
      if complete = true then some (s.setProc q { proc with refCount := proc.refCount + 1 }) else some s
    else none
  | .destroy q => if q ∈ s.live then some (destroy s q) else none

/-- Nothing has been loaded. -/
structure Start (s : State) : Prop where
  live : s.live = []
  images : s.images = []
  freed : ∀ b, s.freed b = 0

/-- A buffer that a live process reads from is allocated, a process would free only buffers handed
to it, and a buffer that no process reads from any more has been freed once. -/
structure Accounted (s : State) : Prop where
  allocated : ∀ p ∈ s.live, ∀ b ∈ s.images, (s.procs p).References b → s.freed b = 0
  owned : ∀ p ∈ s.live, ∀ b ∈ (s.procs p).ownedImages, b ≠ 0 → s.owner b = some p
  once : ∀ b ∈ s.images, (∀ p ∈ s.live, ¬ (s.procs p).References b) → s.freed b = 1

/-- The calls that keep the books right: a load whose file is accepted, an `execve` whose file is
not, a fork into a block that says no image is owned, and the end of a process whose images no
other process reads from. -/
def Careful (s : State) : Label → Prop
  | .load _ image kernel => (createFromElf kernel image).isSome = true
  | .exec _ _ image kernel => (createFromElf kernel image).isSome = false
  | .fork _ _ old _ => old = []
  | .thread _ _ => True
  | .destroy q => (s.procs q).refCount = 1 → ∀ b ∈ (s.procs q).ownedImages, ∀ p ∈ s.live, p ≠ q →
      ¬ (s.procs p).References b

instance (s : State) : (label : Label) → Decidable (Careful s label)
  | .load _ image kernel => inferInstanceAs (Decidable ((createFromElf kernel image).isSome = true))
  | .exec _ _ image kernel => inferInstanceAs (Decidable ((createFromElf kernel image).isSome = false))
  | .fork _ _ old _ => inferInstanceAs (Decidable (old = []))
  | .thread _ _ => isTrue trivial
  | .destroy q => inferInstanceAs (Decidable ((s.procs q).refCount = 1 → ∀ b ∈ (s.procs q).ownedImages,
      ∀ p ∈ s.live, p ≠ q → ¬ (s.procs p).References b))

section Outcomes

variable {kernel : Kernel} {image : Image}
variable {regions : List VmRegion}

theorem mem_tryRegion {region r : VmRegion} (member : r ∈ tryRegion regions region) :
    r ∈ regions ∨ r = region := by
  unfold tryRegion addRegion at member
  split at member
  · exact Or.inl member
  · simpa using member

theorem mem_tryRegion_of_mem {r : VmRegion} (region : VmRegion) (member : r ∈ regions) :
    r ∈ tryRegion regions region := by
  unfold tryRegion addRegion
  split
  · exact member
  · exact List.mem_append_left _ member

variable {state : LoadState}

/-- The heap always fits once the objects have been accepted. -/
theorem finishProcess_isSome (mm : Nat) (top : state.maxMappedEnd + guardSize ≤ userHeapLimit) :
    ∃ process, finishProcess mm state = some process := by
  unfold finishProcess
  have fits : ¬ userHeapLimit < Word64.alignUp (Word64.add state.maxMappedEnd guardSize) 4096 := by
    simp only [userHeapLimit, guardSize] at *
    rw [Word64.add_of_lt (by omega), Word64.alignUp_page]
    omega
  rw [if_neg fits]
  exact ⟨_, rfl⟩

theorem finishProcess_spec {mm : Nat} {process : Process}
    (finished : finishProcess mm state = some process) :
    process.ownedImages = state.ownedImages.take 8 ∧
      (∀ r ∈ process.regions, r ∈ state.regions ∨ r.elfImage = 0) ∧
      ∀ r ∈ state.regions, r ∈ process.regions := by
  unfold finishProcess at finished
  dsimp only at finished
  split at finished
  · cases finished
  · cases finished
    refine ⟨rfl, ?_, fun r member => mem_tryRegion_of_mem _ (mem_tryRegion_of_mem _ member)⟩
    intro r member
    rcases mem_tryRegion member with old | rfl
    · rcases mem_tryRegion old with older | rfl
      · exact Or.inl older
      · exact Or.inr rfl
    · exact Or.inr rfl

/-- What the caller has to know about a call of `process_create_from_elf`. -/
structure Settled (image : Image) (outcome : Outcome) : Prop where
  failed : outcome.process = none → outcome.freed = outcome.read
  kept : ∀ process, outcome.process = some process → outcome.freed = []
  owned : ∀ process, outcome.process = some process →
    process.ownedImages = image.address :: outcome.read
  reads : ∀ process, outcome.process = some process → ∀ b, (newProc process).References b →
    b ∈ image.address :: outcome.read ∨ b = 0
  used : ∀ process, outcome.process = some process → ∀ b ∈ image.address :: outcome.read,
    (newProc process).References b

/-- A call that fails has freed what it has read itself. -/
theorem settled_failed (image : Image) (read : List Nat) : Settled image ⟨none, read, read⟩ where
  failed _ := rfl
  kept _ impossible := nomatch impossible
  owned _ impossible := nomatch impossible
  reads _ impossible := nomatch impossible
  used _ impossible := nomatch impossible

/-- The buffers of the registered objects are those the regions read from. -/
structure Carried (state : LoadState) (buffers : List Nat) : Prop where
  owned : state.ownedImages = buffers
  reads : ∀ r ∈ state.regions, r.elfImage ∈ buffers
  used : ∀ b ∈ buffers, ∃ r ∈ state.regions, r.elfImage = b

theorem Carried.register {before after : LoadState} {buffers : List Nat} {low high loadBias : Nat}
    (carried : Carried before buffers)
    (registered : Registered before after image low high loadBias) :
    Carried after (buffers ++ [image.address]) := by
  refine ⟨by rw [registered.ownedImages, carried.owned], ?_, ?_⟩
  · intro r member
    rw [registered.regions, List.mem_append] at member
    rcases member with old | new
    · exact List.mem_append_left _ (carried.reads r old)
    · obtain ⟨p, _, rfl⟩ := List.mem_map.mp new
      exact List.mem_append_right _ List.mem_cons_self
  · intro b member
    rw [registered.regions]
    rcases List.mem_append.mp member with old | new
    · obtain ⟨r, inside, same⟩ := carried.used b old
      exact ⟨r, List.mem_append_left _ inside, same⟩
    · cases List.mem_singleton.mp new
      obtain ⟨p, inside, loads, _⟩ := registered.object.bounds.lowest
      have loadable := Image.mem_loadable.mpr ⟨inside, loads⟩
      exact ⟨_, List.mem_append_right _ (List.mem_map_of_mem loadable), rfl⟩

theorem carried_empty : Carried emptyLoad [] :=
  ⟨rfl, fun _ member => absurd member List.not_mem_nil, fun _ member => absurd member List.not_mem_nil⟩

theorem finishOutcome_settled {mm : Nat} {read : List Nat}
    (top : state.maxMappedEnd + guardSize ≤ userHeapLimit)
    (carried : Carried state (image.address :: read)) (short : read.length ≤ 1) :
    Settled image (finishOutcome mm state read) := by
  obtain ⟨process, finished⟩ := finishProcess_isSome mm top
  obtain ⟨owned, reads, used⟩ := finishProcess_spec finished
  have result : finishOutcome mm state read = ⟨some process, read, []⟩ := by
    rw [finishOutcome, finished]
  rw [result]
  refine ⟨fun failed => (nomatch failed), fun _ _ => rfl, ?_, ?_, ?_⟩
  · intro result same
    cases same
    rw [owned, carried.owned, List.take_of_length_le (by rw [List.length_cons]; omega)]
  · rintro result same b ⟨r, member, rfl⟩
    cases same
    rcases reads r member with old | null
    · exact Or.inl (carried.reads r old)
    · exact Or.inr null
  · intro result same b member
    cases same
    obtain ⟨r, inside, same⟩ := carried.used b member
    exact ⟨r, used r inside, same⟩

theorem loadOutcome_settled (mm : Nat) : Settled image (loadOutcome kernel image mm) := by
  have empty : emptyLoad.regions.length ≤ 16 := Nat.zero_le 16
  unfold loadOutcome
  split
  · split
    · exact settled_failed image []
    · rename_i state accepted
      obtain ⟨bias, registered⟩ := registerLoadedObject_loads empty accepted
      apply finishOutcome_settled ?_ (carried_empty.register registered) (Nat.zero_le 1)
      rw [registered.maxMappedEnd, show emptyLoad.maxMappedEnd = 0 from rfl, Nat.max_zero]
      exact (registered.placed ⟨le_rfl, rfl⟩).mappedEnd registered.object
  · split
    · exact settled_failed image []
    · rename_i state accepted
      split
      · exact settled_failed image []
      · rename_i interp read
        obtain ⟨bias, first⟩ := registerLoadedObject_loads empty accepted
        split
        · exact settled_failed image [interp.address]
        · rename_i final acceptedInterp
          obtain ⟨interpBias, second⟩ := registerLoadedObject_loads first.room acceptedInterp
          apply finishOutcome_settled ?_ ((carried_empty.register first).register second) le_rfl
          have mainEnd := (first.placed ⟨le_rfl, rfl⟩).mappedEnd first.object
          have interpEnd := (first.secondPlaced second).mappedEnd second.object
          rw [second.maxMappedEnd, first.maxMappedEnd, show emptyLoad.maxMappedEnd = 0 from rfl,
            Nat.max_zero]
          omega

theorem createOutcome_settled (kernel : Kernel) (image : Image) :
    Settled image (createOutcome kernel image) := by
  unfold createOutcome
  split
  · exact settled_failed image []
  · split
    · exact settled_failed image []
    · exact loadOutcome_settled _

theorem finishOutcome_process (mm : Nat) (state : LoadState) (read : List Nat) :
    (finishOutcome mm state read).process = finishProcess mm state := by
  unfold finishOutcome
  cases finishProcess mm state <;> rfl

/-- The outcome carries the process of the loader model. -/
theorem createOutcome_process (kernel : Kernel) (image : Image) :
    (createOutcome kernel image).process = createFromElf kernel image := by
  unfold createOutcome createFromElf
  by_cases early : image.isElfImage = false ∨ image.validHeader = false ∨ kernel.processBlock = false
  · rcases early with early | early | early <;> simp [early]
  · rw [if_neg early]
    obtain ⟨elf, valid, block⟩ : image.isElfImage ≠ false ∧ image.validHeader ≠ false ∧
        kernel.processBlock ≠ false := by
      simpa using early
    rw [if_neg elf, if_neg valid, if_neg block]
    cases kernel.context with
    | none => rfl
    | some mm =>
      unfold loadOutcome loadObjects
      cases interpPath image with
      | none =>
        cases registerLoadedObject emptyLoad mainName image true with
        | none => rfl
        | some state => exact finishOutcome_process mm state []
      | some path =>
        dsimp only
        cases registerLoadedObject emptyLoad mainName image false with
        | none => rfl
        | some state =>
          cases kernel.loadFile path with
          | none => rfl
          | some interp =>
            dsimp only [Option.bind_some]
            cases registerLoadedObject state path interp true with
            | none => rfl
            | some final => exact finishOutcome_process mm final [interp.address]

end Outcomes

/-- What careful calls keep true: every image buffer that is still allocated has one owner, which
reads from it, and nobody reads from a buffer without an owner. -/
structure Invariant (s : State) : Prop where
  counted : ∀ p ∈ s.live, 0 < (s.procs p).refCount
  owned : ∀ p ∈ s.live, ∀ b ∈ (s.procs p).ownedImages,
    b ∈ s.images ∧ s.owner b = some p ∧ (s.procs p).References b ∧ s.freed b = 0
  single : ∀ p ∈ s.live, (s.procs p).ownedImages.Nodup
  reads : ∀ p ∈ s.live, ∀ b, (s.procs p).References b →
    b = 0 ∨ b ∈ s.images ∧ ∃ q ∈ s.live, b ∈ (s.procs q).ownedImages
  settled : ∀ b ∈ s.images, (∃ q ∈ s.live, b ∈ (s.procs q).ownedImages) ∨ s.freed b = 1
  unread : ∀ b, b ∉ s.images → s.freed b = 0
  nonzero : ∀ b ∈ s.images, b ≠ 0

section Steps

variable {s t : State}

theorem Start.invariant (start : Start s) : Invariant s := by
  obtain ⟨live, images, freed⟩ := start
  constructor <;> simp [live, images, freed]

theorem Invariant.accounted (inv : Invariant s) : Accounted s := by
  refine ⟨?_, ?_, ?_⟩
  · intro p member b image references
    rcases inv.reads p member b references with null | ⟨_, q, live, owns⟩
    · exact absurd null (inv.nonzero b image)
    · exact (inv.owned q live b owns).2.2.2
  · exact fun p member b owns _ => (inv.owned p member b owns).2.1
  · intro b image unreferenced
    rcases inv.settled b image with ⟨q, live, owns⟩ | once
    · exact absurd (inv.owned q live b owns).2.2.1 (unreferenced q live)
    · exact once

variable {p : Nat} {buffers : List Nat}

/-- A process appears that owns the buffers read for it; what else it reads from has an owner. -/
theorem install_invariant {proc : Proc} (inv : Invariant s) (fresh : Fresh s p buffers)
    (counted : 0 < proc.refCount) (owned : proc.ownedImages = buffers)
    (reads : ∀ b, proc.References b →
      b ∈ buffers ∨ b = 0 ∨ b ∈ s.images ∧ ∃ q ∈ s.live, b ∈ (s.procs q).ownedImages)
    (used : ∀ b ∈ buffers, proc.References b) :
    Invariant ((s.read buffers).install p proc buffers) := by
  obtain ⟨unused, nodup, new⟩ := fresh
  obtain ⟨countedOld, ownedOld, singleOld, readsOld, settledOld, unread, nonzero⟩ := inv
  have procs : ∀ q, ((s.read buffers).install p proc buffers).procs q =
      if q = p then proc else s.procs q := fun q => rfl
  constructor <;> grind

/-- Buffers that were read for nothing are freed once each. -/
theorem discard_invariant (inv : Invariant s) (fresh : Fresh s p buffers)
    (images : ∀ b, b ∈ t.images ↔ b ∈ buffers ∨ b ∈ s.images)
    (freed : ∀ b, t.freed b = s.freed b + if b ∈ buffers then 1 else 0)
    (same : (t.live, t.procs, t.owner) = (s.live, s.procs, s.owner)) : Invariant t := by
  obtain ⟨unused, nodup, new⟩ := fresh
  obtain ⟨live, procs, owner⟩ : t.live = s.live ∧ t.procs = s.procs ∧ t.owner = s.owner := by
    simpa using same
  obtain ⟨countedOld, ownedOld, singleOld, readsOld, settledOld, unread, nonzero⟩ := inv
  constructor <;> simp only [live, procs, owner, images, freed] <;> grind

variable {q : Nat}

/-- The reference count changes and stays positive. -/
theorem setProc_invariant {count : Nat} (inv : Invariant s) (positive : 0 < count) :
    Invariant (s.setProc q { s.procs q with refCount := count }) := by
  obtain ⟨countedOld, ownedOld, singleOld, readsOld, settledOld, unread, nonzero⟩ := inv
  have procs : ∀ r, (s.setProc q { s.procs q with refCount := count }).procs r =
      if r = q then { s.procs q with refCount := count } else s.procs r := fun r => rfl
  have references : ∀ r b, ((s.setProc q { s.procs q with refCount := count }).procs r).References b ↔
      (s.procs r).References b := by
    intro r b
    rw [procs]
    split
    · subst r
      rfl
    · rfl
  have owns : ∀ r, ((s.setProc q { s.procs q with refCount := count }).procs r).ownedImages =
      (s.procs r).ownedImages := by
    intro r
    rw [procs]
    split
    · subst r
      rfl
    · rfl
  constructor
  · grind
  · intro p live b member
    rw [owns] at member
    rw [references]
    exact ownedOld p live b member
  · intro p live
    rw [owns]
    exact singleOld p live
  · intro p live b reads
    rw [references] at reads
    simp only [owns]
    exact readsOld p live b reads
  · intro b image
    simp only [owns]
    exact settledOld b image
  · exact unread
  · exact nonzero

/-- The last reference goes: what the process owns is freed, and nobody else reads from it. -/
theorem release_invariant (inv : Invariant s) (live : q ∈ s.live)
    (alone : ∀ b ∈ (s.procs q).ownedImages, ∀ p ∈ s.live, p ≠ q → ¬ (s.procs p).References b) :
    Invariant ((s.free ((s.procs q).ownedImages.filter (· ≠ 0))).remove q) := by
  have nodup := inv.single q live
  obtain ⟨countedOld, ownedOld, singleOld, readsOld, settledOld, unread, nonzero⟩ := inv
  have lives : ∀ p, p ∈ ((s.free ((s.procs q).ownedImages.filter (· ≠ 0))).remove q).live ↔
      p ∈ s.live ∧ p ≠ q := by
    intro p
    simp [State.remove, State.free]
  have freed : ∀ b, ((s.free ((s.procs q).ownedImages.filter (· ≠ 0))).remove q).freed b =
      s.freed b + if b ∈ (s.procs q).ownedImages then 1 else 0 := by
    intro b
    show s.freed b + ((s.procs q).ownedImages.filter (· ≠ 0)).count b = _
    congr 1
    by_cases owns : b ∈ (s.procs q).ownedImages
    · have real : b ≠ 0 := nonzero b (ownedOld q live b owns).1
      rw [if_pos owns, List.count_filter (by simpa using real), List.count_eq_one_of_mem nodup owns]
    · rw [if_neg owns]
      exact List.count_eq_zero_of_not_mem fun member => owns (List.mem_of_mem_filter member)
  have images : ((s.free ((s.procs q).ownedImages.filter (· ≠ 0))).remove q).images = s.images := rfl
  have procs : ((s.free ((s.procs q).ownedImages.filter (· ≠ 0))).remove q).procs = s.procs := rfl
  have owner : ((s.free ((s.procs q).ownedImages.filter (· ≠ 0))).remove q).owner = s.owner := rfl
  constructor <;> simp only [lives, procs, owner, images, freed] <;> grind

theorem destroy_invariant (inv : Invariant s) (live : q ∈ s.live) (careful : Careful s (.destroy q))
    : Invariant (destroy s q) := by
  unfold destroy
  dsimp only
  split
  · exact setProc_invariant inv (by omega)
  · split
    · exact inv
    · exact release_invariant inv live (careful (by omega))

theorem load_invariant {image : Image} {kernel : Kernel} (inv : Invariant s)
    (careful : Careful s (.load p image kernel))
    (fresh : Fresh s p (image.address :: (createOutcome kernel image).read)) :
    Invariant (created s p image (createOutcome kernel image)) := by
  have settled := createOutcome_settled kernel image
  have accepted : (createFromElf kernel image).isSome = true := careful
  rw [← createOutcome_process] at accepted
  obtain ⟨process, made⟩ := Option.isSome_iff_exists.mp accepted
  have owned := settled.owned process made
  have kept : State.free (s.read (image.address :: (createOutcome kernel image).read))
      (createOutcome kernel image).freed =
        s.read (image.address :: (createOutcome kernel image).read) := by
    rw [settled.kept process made]
    rfl
  unfold created
  rw [made, kept]
  dsimp only
  rw [owned]
  apply install_invariant inv fresh Nat.one_pos owned
  · intro b reads
    rcases settled.reads process made b reads with mine | null
    · exact Or.inl mine
    · exact Or.inr (Or.inl null)
  · exact settled.used process made

/-- A rejected file: the call frees what it has read, and `process_execve` the image. -/
theorem exec_invariant {image : Image} {kernel : Kernel} (inv : Invariant s)
    (careful : Careful s (.exec q p image kernel))
    (fresh : Fresh s p (image.address :: (createOutcome kernel image).read)) :
    (createOutcome kernel image).process = none ∧
      Invariant ((created s p image (createOutcome kernel image)).free [image.address]) := by
  have settled := createOutcome_settled kernel image
  have rejected : (createFromElf kernel image).isSome = false := careful
  rw [← createOutcome_process, Option.isSome_eq_false_iff, Option.isNone_iff_eq_none] at rejected
  have freed := settled.failed rejected
  refine ⟨rejected, ?_⟩
  unfold created
  rw [rejected]
  apply discard_invariant inv fresh
  · intro b
    exact List.mem_append
  · intro b
    show s.freed b + (createOutcome kernel image).freed.count b + [image.address].count b = _
    rw [freed, Nat.add_assoc]
    congr 1
    rw [← List.Nodup.count fresh.2.1, Nat.add_comm]
    exact List.count_append.symm
  · rfl

theorem step_invariant {label : Label} (inv : Invariant s) (careful : Careful s label)
    (taken : step s label = some t) : Invariant t := by
  cases label with
  | load p image kernel =>
    obtain ⟨fresh, rfl⟩ := Transition.of_guard taken
    exact load_invariant inv careful fresh
  | exec q p image kernel =>
    obtain ⟨⟨_, _, fresh⟩, same⟩ := Option.ite_none_right_eq_some.mp taken
    obtain ⟨rejected, after⟩ := exec_invariant inv careful fresh
    rw [rejected] at same
    cases same
    exact after
  | fork q p old complete =>
    obtain ⟨⟨live, fresh⟩, same⟩ := Option.ite_none_right_eq_some.mp taken
    cases careful
    split at same
    · cases same
      apply install_invariant inv fresh Nat.one_pos rfl
      · exact fun b reads => Or.inr (inv.reads q live b reads)
      · exact fun b member => absurd member List.not_mem_nil
    · cases same
      exact inv
  | thread q complete =>
    obtain ⟨live, same⟩ := Option.ite_none_right_eq_some.mp taken
    split at same
    · cases same
      exact setProc_invariant inv (Nat.succ_pos _)
    · cases same
      exact inv
  | destroy q =>
    obtain ⟨live, rfl⟩ := Transition.of_guard taken
    exact destroy_invariant inv live careful

end Steps

/-- Over careful runs every image buffer is allocated as long as a live process reads from it and
has been freed once when none does. -/
theorem run_ownership {s : State} (reached : Transition.Reachable Start step Careful s) :
    Accounted s := by
  have inv : Invariant s := by
    apply reached.invariant
    · exact fun start first => first.invariant
    · exact fun before after label inv careful taken => step_invariant inv careful taken
  exact inv.accounted

def noProcess : State :=
  { live := [], procs := fun _ => { refCount := 0, regions := [], ownedImages := [] }, images := [],
    freed := fun _ => 0, owner := fun _ => none }

theorem noProcess_start : Start noProcess := ⟨rfl, rfl, fun _ => rfl⟩

/-- A program is loaded and forks; the child ends before its parent. -/
def forkedRun : List Label :=
  [.load 1 (sampleMain 0x1000) sampleKernel, .fork 1 2 [] true, .destroy 2, .destroy 1]

theorem run_ownership_forked :
    ∃ s, Transition.run step noProcess forkedRun = some s ∧ s.images = [0x10000, 0x20000] ∧
      s.live = [] ∧ Accounted s := by
  have guarded : Transition.Guarded step Careful noProcess forkedRun := by decide +kernel
  refine Transition.ends_imp (Q := fun s => s.images = [0x10000, 0x20000] ∧ s.live = [])
    (by decide +kernel) ?_
  rintro s ran ⟨images, live⟩
  exact ⟨images, live, run_ownership (.of_run _ (.start noProcess_start) guarded ran)⟩

/-- A program replaces itself by another one. -/
def execRun : List Label :=
  [.load 1 (sampleMain 0x1000) sampleKernel,
    .exec 1 2 (sampleImage 0x30000 3 0 64 [textSegment 0 0x1000]) sampleKernel]

/-- The new process reads from a buffer that `process_execve` has freed, and will free it again. -/
theorem run_ownership_exec :
    ∃ s, Transition.Reachable Start step Transition.always s ∧ s.live = [2] ∧ s.freed 0x30000 = 1 ∧
      (s.procs 2).References 0x30000 ∧ (s.procs 2).ownedImages = [0x30000] ∧ ¬ Accounted s := by
  obtain ⟨s, ran, live, freed, references, owned, images⟩ : ∃ s,
      Transition.run step noProcess execRun = some s ∧ s.live = [2] ∧ s.freed 0x30000 = 1 ∧
        (s.procs 2).References 0x30000 ∧ (s.procs 2).ownedImages = [0x30000] ∧
        s.images = [0x30000, 0x10000, 0x20000] := by
    decide +kernel
  refine ⟨s, .of_ran noProcess_start ran, live, freed, references, owned, fun accounted => ?_⟩
  have allocated := accounted.allocated 2 (by simp [live]) 0x30000 (by simp [images]) references
  omega

end OsArmv8a.ImageOwnership
