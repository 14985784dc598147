import OsArmv8a.MmuSpace
import OsArmv8a.PageAllocFrame

set_option autoImplicit false

namespace OsArmv8a.Mmu

open PageAlloc (Managed)

/-- How many live contexts track a page. -/
def World.listers (w : World) (pa : Nat) : Nat :=
  w.live.countP fun id => pa ∈ (w.contexts id).pages

/-- The references to a page: one for each context that tracks it, and those the running code
has in hand. -/
def World.held (w : World) (inHand : List Nat) (pa : Nat) : Nat := w.listers pa + inHand.count pa

/-- What holds of all address spaces together. `inHand` are references the running code has
taken and not yet stored or dropped, `loose` are the pages the active context tracks and has
not linked, `foreign` are the pages allocated by the rest of the kernel. -/
structure Inv (foreign : Nat → Prop) (marked : Nat → List Nat → Prop) (w : World)
    (inHand : List Nat) (active : Nat) (loose : List Nat) : Prop where
  alloc : PageAlloc.Invariant w.pages
  live : w.live.Nodup
  spaces : ∀ id ∈ w.live, Space w.pages.mem (w.contexts id) (if id = active then loose else [])
    (w.held inHand) (marked id)
  counted : ∀ pa, 0 < w.held inHand pa → Managed w.pages pa ∧ w.pages.stateAt pa = .allocated ∧
    w.pages.refAt pa = w.held inHand pa
  accounted : ∀ pa, Managed w.pages pa → w.pages.stateAt pa = .allocated →
    0 < w.held inHand pa ∨ foreign pa
  apart : ∀ pa, foreign pa → Managed w.pages pa ∧ w.pages.stateAt pa = .allocated ∧
    w.held inHand pa = 0
  cpus : ∀ cpu id, w.cpuContext cpu = some id → id ∈ w.live ∧
    (w.contexts id).life.activeCpuMask.getLsbD cpu.val = true

/-- A context keeps its root, its pages and every word in them. -/
structure Undisturbed (w t : World) (id : Nat) : Prop where
  live : id ∈ t.live
  root : (t.contexts id).rootPa = (w.contexts id).rootPa
  pages : (t.contexts id).pages = (w.contexts id).pages
  words : ∀ pa ∈ (w.contexts id).pages, ∀ a, pa ≤ a → a < pa + 4096 →
    t.pages.mem a = w.pages.mem a

/-- Every context but the active one is undisturbed. -/
def Frame (active : Nat) (w t : World) : Prop :=
  ∀ id ∈ w.live, id ≠ active → Undisturbed w t id

variable {w : World} {id : Nat}

theorem Undisturbed.refl (member : id ∈ w.live) : Undisturbed w w id :=
  ⟨member, rfl, rfl, fun _ _ _ _ _ => rfl⟩

variable {t u : World}

theorem Undisturbed.trans (first : Undisturbed w t id) (second : Undisturbed t u id) :
    Undisturbed w u id where
  live := second.live
  root := second.root.trans first.root
  pages := second.pages.trans first.pages
  words pa member a lower upper :=
    (second.words pa (first.pages ▸ member) a lower upper).trans (first.words pa member a lower upper)

theorem Undisturbed.node (same : Undisturbed w t id) {loose : List Nat} {held : Nat → Nat}
    {marks : List Nat → Prop} (space : Space w.pages.mem (w.contexts id) loose held marks)
    {path : List Nat} (ok : NodePath path) : node t.pages.mem (t.contexts id) path =
      node w.pages.mem (w.contexts id) path := by
  have sameRoot : Mmu.node t.pages.mem (t.contexts id) path =
      Mmu.node t.pages.mem (w.contexts id) path := by
    unfold Mmu.node
    rw [same.root]
  rw [sameRoot]
  exact space.node_words same.words ok

theorem Frame.refl (active : Nat) (w : World) : Frame active w w :=
  fun _ member _ => .refl member

theorem Frame.trans {active : Nat} (first : Frame active w t) (second : Frame active t u) :
    Frame active w u :=
  fun id member other =>
    (first id member other).trans (second id (first id member other).live other)

/-- Every context is undisturbed. -/
def Quiet (w t : World) : Prop := ∀ id ∈ w.live, Undisturbed w t id

theorem Quiet.frame (quiet : Quiet w t) (active : Nat) : Frame active w t :=
  fun id member _ => quiet id member

theorem Quiet.trans (first : Quiet w t) (second : Quiet t u) : Quiet w u :=
  fun id member => (first id member).trans (second id (first id member).live)

section Held

variable {w t : World} {inHand : List Nat}
variable {id pa : Nat}

theorem held_pos_of_listed (live : id ∈ w.live) (listed : pa ∈ (w.contexts id).pages) :
    0 < w.held inHand pa := by
  have positive : 0 < w.listers pa := List.countP_pos_iff.mpr ⟨id, live, decide_eq_true listed⟩
  unfold World.held
  omega

theorem held_pos_of_inHand (member : pa ∈ inHand) : 0 < w.held inHand pa := by
  have positive : 0 < inHand.count pa := List.count_pos_iff.mpr member
  unfold World.held
  omega

/-- Two contexts that track a page account for two references. -/
theorem two_le_listers {other : Nat} (live : id ∈ w.live) (liveOther : other ∈ w.live)
    (different : other ≠ id) (listed : pa ∈ (w.contexts id).pages)
    (listedOther : pa ∈ (w.contexts other).pages) : 2 ≤ w.listers pa := by
  have inside : [id, other].Subperm (w.live.filter fun id => pa ∈ (w.contexts id).pages) := by
    apply List.subperm_of_subset
    · simp [Ne.symm different]
    · intro c member
      rcases List.mem_pair.mp member with rfl | rfl
      · exact List.mem_filter.mpr ⟨live, decide_eq_true listed⟩
      · exact List.mem_filter.mpr ⟨liveOther, decide_eq_true listedOther⟩
  rw [World.listers, List.countP_eq_length_filter]
  exact inside.length_le

/-- A page with a single reference that the active context or the running code has is not
tracked by any other context. -/
theorem private_unlisted {active : Nat} (live : active ∈ w.live) (single : w.held inHand pa = 1)
    (here : pa ∈ (w.contexts active).pages ∨ pa ∈ inHand) (liveId : id ∈ w.live)
    (other : id ≠ active) : pa ∉ (w.contexts id).pages := by
  intro listed
  unfold World.held at single
  rcases here with own | hand
  · have two := two_le_listers live liveId other own listed
    omega
  · have one : 0 < inHand.count pa := List.count_pos_iff.mpr hand
    have positive : 0 < w.listers pa := List.countP_pos_iff.mpr ⟨id, liveId, decide_eq_true listed⟩
    omega

end Held

section Inv

variable {foreign : Nat → Prop} {marked : Nat → List Nat → Prop} {w t : World}
  {inHand inHand' : List Nat} {active : Nat} {loose loose' : List Nat}

section

variable (inv : Inv foreign marked w inHand active loose)

include inv

theorem Inv.managed_of_listed {id pa : Nat} (live : id ∈ w.live)
    (listed : pa ∈ (w.contexts id).pages) : Managed w.pages pa ∧ w.pages.stateAt pa = .allocated :=
  have counted := inv.counted pa (held_pos_of_listed live listed)
  ⟨counted.1, counted.2.1⟩

theorem Inv.pageAddr {pa : Nat} (managed : Managed w.pages pa) : PageAddr pa := by
  have bounds := inv.alloc.core.window.bounds managed
  exact ⟨Nat.dvd_of_mod_eq_zero bounds.2.2, by omega⟩

/-- The address space of a context whose words and pages stay as they are. -/
theorem Inv.space_of_undisturbed {id : Nat} (member : id ∈ w.live) (same : Undisturbed w t id)
    {raised : Nat → Nat}
    (still : ∀ pa ∈ (w.contexts id).pages, w.held inHand pa = 1 → raised pa = 1) :
    Space t.pages.mem (t.contexts id) (if id = active then loose else []) raised (marked id) := by
  have space := inv.spaces id member
  have words :
    ∀ path table slot, TablePath path → node w.pages.mem (w.contexts id) path = some table →
      slot < 512 → t.pages.mem (table + 8 * slot) = w.pages.mem (table + 8 * slot) := by
    intro path table slot ok found below
    exact same.words table (space.owned.nodes path table ok.node found).1 _ (by omega) (by omega)
  have moved := space.congr words still
  have nodes : node t.pages.mem (t.contexts id) = node t.pages.mem (w.contexts id) := by
    unfold node
    rw [same.root]
  exact
    { owned := by rw [nodes, same.pages]; exact moved.owned
      bounded := by rw [same.pages]; exact moved.bounded
      addresses := by rw [same.pages]; exact moved.addresses
      typed := by rw [nodes]; exact moved.typed
      tables := by rw [nodes]; exact moved.tables
      leaves := by rw [nodes]; exact moved.leaves
      guarded := by rw [nodes]; exact moved.guarded
      alone := moved.alone }

/-- A change to the active context and to one page that nobody else has. -/
theorem Inv.edit (member : active ∈ w.live) (pages : t.pages = { w.pages with mem := t.pages.mem })
    (live : t.live = w.live) (cpus : t.cpuContext = w.cpuContext)
    (contexts : ∀ id, id ≠ active → t.contexts id = w.contexts id)
    (life : (t.contexts active).life = (w.contexts active).life)
    (sameHeld : ∀ pa, t.held inHand' pa = w.held inHand pa) {page : Nat}
    (single : w.held inHand page = 1) (here : page ∈ (w.contexts active).pages ∨ page ∈ inHand)
    (outside : ∀ a, a < page ∨ page + 4096 ≤ a → t.pages.mem a = w.pages.mem a)
    (space : Space t.pages.mem (t.contexts active) loose' (w.held inHand) (marked active)) :
    Inv foreign marked t inHand' active loose' ∧ Frame active w t := by
  have managed := inv.counted page (by omega)
  have words : ∀ pa, Managed w.pages pa → pa ≠ page → ∀ a, pa ≤ a → a < pa + 4096 →
      t.pages.mem a = w.pages.mem a := by
    intro pa managedPa different a lower upper
    apply outside
    have aligned := managedPa.2.2
    have alignedPage := managed.1.2.2
    omega
  have frame : Frame active w t := by
    intro id liveId other
    apply Undisturbed.mk
    · exact live ▸ liveId
    · rw [contexts id other]
    · rw [contexts id other]
    · intro pa listed
      apply words pa (inv.managed_of_listed liveId listed).1
      intro same
      exact private_unlisted member single here liveId other (same ▸ listed)
  have held : t.held inHand' = w.held inHand := funext sameHeld
  have states : t.pages.stateAt = w.pages.stateAt := by rw [pages]; rfl
  have refs : t.pages.refAt = w.pages.refAt := by rw [pages]; rfl
  have window : ∀ pa, Managed t.pages pa ↔ Managed w.pages pa := by
    intro pa
    rw [pages]
    exact Iff.rfl
  apply And.intro _ frame
  constructor
  · rw [pages]
    apply PageAlloc.writeMem_invariant inv.alloc
    intro pa managedPa free
    apply words pa managedPa _ pa (Nat.le_refl pa) (by omega)
    intro same
    rw [same, managed.2.1] at free
    cases free
  · rw [live]
    exact inv.live
  · intro id liveId
    rw [live] at liveId
    rw [held]
    by_cases here' : id = active
    · rw [if_pos here', here']
      exact space
    · have moved := inv.space_of_undisturbed liveId (frame id liveId here') fun _ _ same => same
      rw [if_neg here'] at moved ⊢
      exact moved
  · intro pa positive
    rw [held] at positive ⊢
    rw [window, states, refs]
    exact inv.counted pa positive
  · intro pa managedPa allocated
    rw [held]
    exact inv.accounted pa ((window pa).mp managedPa) (by rw [← states]; exact allocated)
  · intro pa other
    rw [held, window, states]
    exact inv.apart pa other
  · intro cpu id installed
    rw [cpus] at installed
    have before := inv.cpus cpu id installed
    rw [live]
    apply And.intro before.1
    by_cases here' : id = active
    · rw [here', life, ← here']
      exact before.2
    · rw [contexts id here']
      exact before.2

end

end Inv

end OsArmv8a.Mmu
