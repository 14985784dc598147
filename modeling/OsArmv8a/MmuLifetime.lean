import OsArmv8a.MmuFaults

/-! Creating, sharing, installing and releasing whole contexts. -/

set_option autoImplicit false

namespace OsArmv8a.Mmu

open PageAlloc (Managed pageAlloc pageFree)

section Lifetime

variable {foreign : Nat → Prop} {marked : Nat → List Nat → Prop} {w t : World} {active : Nat}

/-- The world without its ASIDs: the only part of it `mmu_asid_alloc` and `mmu_asid_free` change. -/
theorem Inv.setAsids {inHand loose : List Nat} (inv : Inv foreign marked w inHand active loose)
    (asids : Asids) : Inv foreign marked (w.setAsids asids) inHand active loose ∧
      Quiet w (w.setAsids asids) := by
  apply inv.relive
  · rfl
  · rfl
  · exact fun _ => rfl
  · exact fun _ => rfl
  · exact inv.cpus

variable {block : Option Nat}

/-- `mmu_context_create` without a result leaves no trace. -/
theorem contextCreate_none (inv : Inv foreign marked w [] active [])
    (failed : contextCreate w block = (none, t)) :
    Inv foreign marked t [] active [] ∧ Quiet w t ∧ t.live = w.live := by
  unfold contextCreate at failed
  split at failed
  · cases failed
    exact ⟨inv, fun _ member => .refl member, rfl⟩
  split at failed
  · cases failed
    exact ⟨inv, fun _ member => .refl member, rfl⟩
  rename_i root pages taken
  have taking := inv.take taken
  have numbered := taking.1.setAsids w.asids.alloc.2
  have freed := numbered.1.free List.mem_cons_self
  rw [List.erase_cons_head] at freed
  have quiet := (taking.2.1.trans numbered.2).trans freed.2
  dsimp only at failed
  split at failed
  · cases failed
    exact ⟨freed.1, quiet, rfl⟩
  split at failed
  · cases failed
    have unnumbered := freed.1.setAsids (w.asids.alloc.2.free w.asids.alloc.1)
    exact ⟨unnumbered.1, quiet.trans unnumbered.2, rfl⟩
  · cases failed

/-- The context `mmu_context_create` returns: one reference, an empty root table. -/
structure Created (w t : World) (id : Nat) : Prop where
  live : t.live = id :: w.live
  quiet : Quiet w t
  life : (t.contexts id).life = MmLifecycle.created
  pages : (t.contexts id).pages = [(t.contexts id).rootPa]
  clear : ∀ slot < 512, t.load ((t.contexts id).rootPa + 8 * slot) = 0#64

variable {id : Nat}

theorem contextCreate_some (inv : Inv foreign marked w [] active [])
    (fresh : ∀ id ∈ block, id ∉ w.live) (made : contextCreate w block = (some id, t)) :
    Inv foreign marked t [] id [] ∧ Created w t id ∧ id ∈ block := by
  unfold contextCreate at made
  split at made
  · cases made
  split at made
  · cases made
  rename_i root pages taken
  have taking := inv.take taken
  have numbered := taking.1.setAsids w.asids.alloc.2
  dsimp only at made
  split at made
  · cases made
  split at made
  · cases made
  rename_i mm added
  cases made
  have shape : mm.rootPa = root ∧ mm.pages = [root] ∧ mm.life = MmLifecycle.created := by
    unfold MmContext.addPage at added
    split at added
    · cases added
    split at added
    · rename_i member
      cases member
    split at added
    · cases added
    · cases Option.some.inj added
      exact ⟨rfl, rfl, rfl⟩
  have clear : ∀ slot < 512, (w.setPages pages).load (root + 8 * slot) = 0#64 := by
    intro slot below
    exact taking.2.2.scrubbed _ (by omega) (by omega)
  have enrolled := numbered.1.enroll (fresh id rfl) taking.2.2.single clear shape.1 shape.2.1
  have here : ((((w.setPages pages).setAsids w.asids.alloc.2).enroll id mm)).contexts id = mm :=
    World.setContext_same _ _ _
  apply And.intro enrolled.1
  apply And.intro _ rfl
  constructor
  · rfl
  · exact (taking.2.1.trans numbered.2).trans enrolled.2
  · rw [here]
    exact shape.2.2
  · rw [here, shape.2.1, shape.1]
  · rw [here, shape.1]
    exact clear

/-- `mmu_context_release` gives back every page of a context no CPU has installed. -/
theorem contextRelease_spec (inv : Inv foreign marked w [] active []) (member : id ∈ w.live)
    (uninstalled : ∀ cpu, w.cpuContext cpu ≠ some id) :
    Inv foreign marked (contextRelease w id) [] active [] ∧ Frame id w (contextRelease w id) ∧
      (contextRelease w id).live = w.live.erase id := by
  have left := inv.expel member uninstalled
  have inv' : Inv foreign marked (w.expel id) ((w.contexts id).pages ++ []) active [] := by
    rw [List.append_nil]
    exact left.1
  have freed := Inv.freeAll _ inv'
  have done := freed.1.setAsids (w.asids.free (w.contexts id).asid)
  exact ⟨done.1, left.2.trans ((freed.2.trans done.2).frame id), rfl⟩

/-- A context whose mask is empty is installed nowhere. -/
theorem Inv.uninstalled (inv : Inv foreign marked w [] active [])
    (empty : (w.contexts id).life.activeCpuMask = 0) (cpu : Fin 4) : w.cpuContext cpu ≠ some id := by
  intro installed
  have bit := (inv.cpus cpu id installed).2
  rw [empty] at bit
  simp at bit

section

variable (w : World) (id other : Nat) (life : MmLifecycle.Lifecycle)

@[simp] theorem setLife_root :
    ((w.setLife id life).contexts other).rootPa = (w.contexts other).rootPa := by
  by_cases same : other = id
  · rw [same, World.setLife, World.setContext_same]
  · rw [World.setLife, World.setContext_other _ _ same]

@[simp] theorem setLife_pages :
    ((w.setLife id life).contexts other).pages = (w.contexts other).pages := by
  by_cases same : other = id
  · rw [same, World.setLife, World.setContext_same]
  · rw [World.setLife, World.setContext_other _ _ same]

theorem setLife_life :
    ((w.setLife id life).contexts other).life =
      if other = id then life else (w.contexts other).life := by
  by_cases same : other = id
  · rw [if_pos same, same, World.setLife, World.setContext_same]
  · rw [if_neg same, World.setLife, World.setContext_other _ _ same]

end

theorem setLife_spec (inv : Inv foreign marked w [] active []) (id : Nat)
    (life : MmLifecycle.Lifecycle) (mask : life.activeCpuMask = (w.contexts id).life.activeCpuMask) :
    Inv foreign marked (w.setLife id life) [] active [] ∧ Quiet w (w.setLife id life) := by
  apply inv.relive
  · rfl
  · rfl
  · exact fun other => setLife_root w id other life
  · exact fun other => setLife_pages w id other life
  · intro cpu other installed
    have before := inv.cpus cpu other installed
    apply And.intro before.1
    rw [setLife_life]
    split
    · rename_i same
      rw [mask, ← same]
      exact before.2
    · exact before.2

theorem contextGet_spec (inv : Inv foreign marked w [] active []) (id : Nat) :
    Inv foreign marked (contextGet w id).2 [] active [] ∧ Quiet w (contextGet w id).2 := by
  apply setLife_spec inv id
  unfold MmLifecycle.Lifecycle.get
  split <;> rfl

/-- The contexts that are still live are undisturbed. -/
def Surviving (w t : World) : Prop := ∀ id ∈ t.live, id ∈ w.live ∧ Undisturbed w t id

theorem Quiet.surviving (quiet : Quiet w t) (live : t.live = w.live) : Surviving w t :=
  fun id member => ⟨live ▸ member, quiet id (live ▸ member)⟩

theorem Frame.surviving (frame : Frame id w t) (nodup : w.live.Nodup)
    (live : t.live = w.live.erase id) : Surviving w t := by
  intro other member
  rw [live] at member
  have both := nodup.mem_erase_iff.mp member
  exact ⟨both.2, frame other both.2 both.1⟩

/-- `mmu_context_put`: the context is released when the last owner leaves and no CPU has it. -/
theorem contextPut_spec (inv : Inv foreign marked w [] active []) (member : id ∈ w.live) :
    Inv foreign marked (contextPut w id) [] active [] ∧ Surviving w (contextPut w id) ∧
      (contextPut w id).live =
        if (w.contexts id).life.put.1 = true then w.live.erase id else w.live := by
  have mask : (w.contexts id).life.put.2.activeCpuMask = (w.contexts id).life.activeCpuMask := by
    unfold MmLifecycle.Lifecycle.put
    split <;> [rfl; split <;> rfl]
  have changed := setLife_spec inv id (w.contexts id).life.put.2 mask
  unfold contextPut
  dsimp only
  split
  · rename_i release
    have empty : (w.contexts id).life.activeCpuMask = 0 := by
      unfold MmLifecycle.Lifecycle.put at release
      split at release
      · cases release
      split at release
      · exact of_decide_eq_true release
      · cases release
    have unmasked : ((w.setLife id (w.contexts id).life.put.2).contexts id).life.activeCpuMask = 0 := by
      rw [setLife_life, if_pos rfl, mask, empty]
    have released := contextRelease_spec changed.1 member (changed.1.uninstalled unmasked)
    exact ⟨released.1,
      ((changed.2.frame id).trans released.2.1).surviving inv.live released.2.2, released.2.2⟩
  · exact ⟨changed.1, changed.2.surviving rfl, rfl⟩

/-- Giving up a CPU's old context touches lifetime fields only. -/
theorem leaveOld_same (w : World) (cpu : Fin 4) : (leaveOld w cpu).pages = w.pages ∧
    (leaveOld w cpu).live = w.live ∧ (leaveOld w cpu).cpuContext = w.cpuContext ∧
    (∀ id, ((leaveOld w cpu).contexts id).rootPa = (w.contexts id).rootPa) ∧
    ∀ id, ((leaveOld w cpu).contexts id).pages = (w.contexts id).pages := by
  unfold leaveOld
  split
  · exact ⟨rfl, rfl, rfl, fun _ => rfl, fun _ => rfl⟩
  · exact ⟨rfl, rfl, rfl, fun id => setLife_root _ _ id _, fun id => setLife_pages _ _ id _⟩

/-- What the other CPUs have installed keeps its bits. -/
theorem leaveOld_bit (inv : Inv foreign marked w [] active []) {cpu other : Fin 4}
    (elsewhere : other ≠ cpu) (there : w.cpuContext other = some id) : id ∈ w.live ∧
      ((leaveOld w cpu).contexts id).life.activeCpuMask.getLsbD other.val = true := by
  have before := inv.cpus other id there
  apply And.intro before.1
  unfold leaveOld
  split
  · exact before.2
  rw [setLife_life]
  split
  · rename_i same
    have different : other.val ≠ cpu.val := fun equal => elsewhere (Fin.ext equal)
    rw [MmLifecycle.leave_getLsbD _ _ (by omega), ← same, before.2]
    simp [different]
  · exact before.2

variable {target : Option Nat}

/-- The locked section of `mmu_context_switch`. -/
theorem switchContext_spec (inv : Inv foreign marked w [] active []) (cpu : Fin 4)
    (live : ∀ id ∈ target, id ∈ w.live) :
    (Inv foreign marked (switchContext w cpu target) [] active [] ∧
      Quiet w (switchContext w cpu target)) ∧ (switchContext w cpu target).live = w.live := by
  have same := leaveOld_same w cpu
  unfold switchContext
  dsimp only
  split
  · apply And.intro _ same.2.1
    apply inv.relive
    · exact same.1
    · exact same.2.1
    · exact same.2.2.2.1
    · exact same.2.2.2.2
    · intro other id installed
      have shown : (if other = cpu then none else (leaveOld w cpu).cpuContext other) = some id :=
        installed
      split at shown
      · cases shown
      · rename_i elsewhere
        rw [same.2.2.1] at shown
        have kept := leaveOld_bit inv elsewhere shown
        exact ⟨same.2.1.symm ▸ kept.1, kept.2⟩
  · rename_i new chosen
    have liveNew : new ∈ w.live := live new (Option.filter_eq_some_iff.mp chosen).1
    apply And.intro _ same.2.1
    apply inv.relive
    · exact same.1
    · exact same.2.1
    · exact fun id => (setLife_root _ _ id _).trans (same.2.2.2.1 id)
    · exact fun id => (setLife_pages _ _ id _).trans (same.2.2.2.2 id)
    · intro other id installed
      have shown : (if other = cpu then some new else (leaveOld w cpu).cpuContext other) = some id :=
        installed
      show id ∈ (leaveOld w cpu).live ∧ (((leaveOld w cpu).setLife new
        (((leaveOld w cpu).contexts new).life.enter cpu)).contexts id).life.activeCpuMask.getLsbD
          other.val = true
      rw [same.2.1, setLife_life]
      split at shown
      · rename_i here
        cases Option.some.inj shown
        rw [if_pos rfl, MmLifecycle.enter_getLsbD, here]
        exact ⟨liveNew, by simp⟩
      · rename_i elsewhere
        rw [same.2.2.1] at shown
        have kept := leaveOld_bit inv elsewhere shown
        apply And.intro kept.1
        split
        · rename_i here
          rw [MmLifecycle.enter_getLsbD, ← here, kept.2]
          rfl
        · exact kept.2

/-- A context that the switch releases is dying, so the switch has not installed it again. -/
theorem switchContext_uninstalled (inv : Inv foreign marked w [] active []) {cpu : Fin 4}
    {old : Nat} (installed : w.cpuContext cpu = some old)
    (release : ((w.contexts old).life.leave cpu).1 = true) (other : Fin 4) :
    (switchContext w cpu target).cpuContext other ≠ some old := by
  have last : (w.contexts old).life.dying = true ∧ (w.contexts old).life.refs = 0 ∧
      ((w.contexts old).life.leave cpu).2.activeCpuMask = 0 := of_decide_eq_true release
  have left : ((leaveOld w cpu).contexts old).life = ((w.contexts old).life.leave cpu).2 := by
    unfold leaveOld
    rw [installed]
    exact (setLife_life _ _ _ _).trans (if_pos rfl)
  have elsewhere : other ≠ cpu → (leaveOld w cpu).cpuContext other ≠ some old := by
    intro different there
    rw [(leaveOld_same w cpu).2.2.1] at there
    have bit := (leaveOld_bit inv different there).2
    rw [left, last.2.2] at bit
    simp at bit
  unfold switchContext
  dsimp only
  split
  · show (if other = cpu then none else (leaveOld w cpu).cpuContext other) ≠ some old
    split
    · exact (Option.some_ne_none old).symm
    · rename_i different
      exact elsewhere different
  · rename_i new chosen
    show (if other = cpu then some new else (leaveOld w cpu).cpuContext other) ≠ some old
    split
    · intro same
      cases Option.some.inj same
      have usable := (Option.filter_eq_some_iff.mp chosen).2
      rw [left] at usable
      have alive : (w.contexts old).life.dying = false := (of_decide_eq_true usable).1
      rw [last.1] at alive
      cases alive
    · rename_i different
      exact elsewhere different

/-- `mmu_context_switch`. -/
theorem contextSwitch_spec (inv : Inv foreign marked w [] active []) (cpu : Fin 4)
    (live : ∀ id ∈ target, id ∈ w.live) :
    Inv foreign marked (contextSwitch w cpu target) [] active [] ∧
      Surviving w (contextSwitch w cpu target) := by
  have switched := switchContext_spec inv cpu live
  unfold contextSwitch
  split
  · exact ⟨inv, fun id member => ⟨member, .refl member⟩⟩
  split
  · exact ⟨switched.1.1, switched.1.2.surviving switched.2⟩
  rename_i old installed
  split
  · rename_i release
    have member : old ∈ (switchContext w cpu target).live :=
      switched.2 ▸ (inv.cpus cpu old installed).1
    have released := contextRelease_spec switched.1.1 member
      (switchContext_uninstalled inv installed release)
    have frame := (switched.1.2.frame old).trans released.2.1
    exact ⟨released.1, frame.surviving inv.live (by rw [released.2.2, switched.2])⟩
  · exact ⟨switched.1.1, switched.1.2.surviving switched.2⟩

end Lifetime

end OsArmv8a.Mmu
