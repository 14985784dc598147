import OsArmv8a.MmuRun

/-! Write protection over forks: which pages were mapped read-only, followed through runs. -/

set_option autoImplicit false

namespace OsArmv8a.Mmu

/-- A system that remembers, for each context, the pages that were mapped from a region whose
flags carry `MMU_USER_PAGE_AP_RO`. -/
structure Watched where
  system : System
  readOnly : Nat → List Nat → Bool

namespace Watched

variable (s : Watched)

def live : List Nat := s.system.live

/-- The page and the leaf descriptor a context has for a virtual address. -/
def leaf (id va : Nat) : Option (Nat × BitVec 64) :=
  resolveUserPage s.system.world.pages.mem (s.system.world.contexts id) va

def setContext (id : Nat) (paths : List Nat → Bool) : Nat → List Nat → Bool :=
  fun other => if other = id then paths else s.readOnly other

/-- A lazy mapping decides what its page is. -/
def afterFault (layout : VmLayout) (id far esr : Nat) : Nat → List Nat → Bool :=
  if fscType esr = 0x04 ∧ s.leaf id far = none then
    s.setContext id fun path =>
      if path = pathOf far then
        (faultFlags layout far).any fun flags => flags &&& userApMask = userApRo
      else s.readOnly id path
  else s.readOnly

/-- A new context starts with nothing, or with what its source has. -/
def afterCreate (made : Option Nat) (paths : List Nat → Bool) : Nat → List Nat → Bool :=
  match made with
  | none => s.readOnly
  | some id => s.setContext id paths

def readOnlyAfter : Event → Nat → List Nat → Bool
  | .fault layout id far esr => s.afterFault layout id far esr
  | .clone src block => s.afterCreate (contextClone s.system.world src block).1 (s.readOnly src)
  | .create block => s.afterCreate (contextCreate s.system.world block).1 fun _ => false
  | _ => s.readOnly

def step (event : Event) : Option Watched :=
  (Mmu.step s.system event).map fun t => { system := t, readOnly := s.readOnlyAfter event }

/-- No permission fault is taken at a read-only page that a clone has made copy-on-write. The
handler takes `MMU_DESC_SOFTWARE_COW` for the permission to write. -/
def CowWritesAllowed : Event → Prop
  | .fault _ id far esr => fscType esr = 0x0C → s.readOnly id (pathOf far) = true →
      ∀ ptr ∈ resolveUserPageDesc s.system.world.pages.mem (s.system.world.contexts id) far,
        ¬ IsCow (s.system.world.load ptr)
  | _ => True

instance : (event : Event) → Decidable (s.CowWritesAllowed event)
  | .fault _ id far esr => inferInstanceAs (Decidable (fscType esr = 0x0C →
      s.readOnly id (pathOf far) = true →
      ∀ ptr ∈ resolveUserPageDesc s.system.world.pages.mem (s.system.world.contexts id) far,
        ¬ IsCow (s.system.world.load ptr)))
  | .create _ | .clone _ _ | .write _ _ _ | .unmap _ _ _ | .get _ | .put _ | .switch _ _
  | .kernel _ => isTrue trivial

end Watched

def WatchedBoot (s : Watched) : Prop := Boot s.system

section Protection

variable {foreign : Nat → Prop} {marked fresh : Nat → List Nat → Prop}

/-- Marks only matter where a page is mapped. -/
theorem Inv.remark {w : World} {inHand : List Nat} {active : Nat} {loose : List Nat}
    (inv : Inv foreign marked w inHand active loose)
    (covered : ∀ id ∈ w.live, ∀ path pa, NodePath path →
      node w.pages.mem (w.contexts id) path = some pa → fresh id path → marked id path) :
    Inv foreign fresh w inHand active loose where
  alloc := inv.alloc
  live := inv.live
  spaces id member := by
    have space := inv.spaces id member
    constructor
    · exact space.owned
    · exact space.bounded
    · exact space.addresses
    · exact space.typed
    · exact space.tables
    · exact space.leaves
    · intro path table slot ok leaf found below isTable mark
      have mapped := (node_snoc slot found).trans (child_of_isTable isTable)
      exact space.guarded path table slot ok leaf found below isTable
        (covered id member _ _ (ok.snoc below) mapped mark)
    · exact space.alone
  counted := inv.counted
  accounted := inv.accounted
  apart := inv.apart
  cpus := inv.cpus

/-- The marks of a watched system as a predicate. -/
abbrev marks (readOnly : Nat → List Nat → Bool) (id : Nat) (path : List Nat) : Prop :=
  readOnly id path = true

theorem afterFault_mapped {s : Watched} {layout : VmLayout} {actor far esr id pa : Nat}
    {path : List Nat}
    (mapped : node s.system.world.pages.mem (s.system.world.contexts id) path = some pa) :
    s.afterFault layout actor far esr id path = s.readOnly id path := by
  unfold Watched.afterFault
  split
  · rename_i translation
    unfold Watched.setContext
    split
    · rename_i same
      subst same
      have elsewhere : path ≠ pathOf far := by
        intro here
        rw [here, resolveUserPage_none.mp translation.2] at mapped
        cases mapped
      exact if_neg elsewhere
    · rfl
  · rfl

theorem afterCreate_live {s : Watched} {made : Option Nat} {paths : List Nat → Bool} {id : Nat}
    (unused : ∀ new ∈ made, new ≠ id) : s.afterCreate made paths id = s.readOnly id := by
  cases made with
  | none => rfl
  | some new => exact if_neg (Ne.symm (unused new rfl))

/-- The new marks are in force before the event: they differ from the old ones only where
nothing is mapped and for contexts that do not exist yet. -/
theorem Watched.remark {s : Watched} {event : Event} {t : System}
    (sound : Sound (marks s.readOnly) s.system) (taken : Mmu.step s.system event = some t) :
    Sound (marks (s.readOnlyAfter event)) s.system := by
  apply Inv.remark sound
  intro id member path pa ok mapped mark
  cases event with
  | fault layout actor far esr => exact (afterFault_mapped mapped).symm.trans mark
  | clone src block =>
    obtain ⟨⟨liveSrc, fresh⟩, _⟩ := Option.ite_none_right_eq_some.mp taken
    have cloned := contextClone_spec (sound.inv 0) liveSrc fresh Prod.mk.eta.symm
    have unused : ∀ new ∈ (contextClone s.system.world src block).1, new ≠ id := by
      intro new made same
      have nodup := cloned.1.live
      rw [cloned.2.live, made, same] at nodup
      exact (List.nodup_cons.mp nodup).1 member
    exact (congrFun (afterCreate_live unused) path).symm.trans mark
  | create block =>
    obtain ⟨fresh, _⟩ := Option.ite_none_right_eq_some.mp taken
    have unused : ∀ new ∈ (contextCreate s.system.world block).1, new ≠ id := by
      intro new made same
      have created := contextCreate_some (sound.inv 0) fresh (Prod.ext made rfl)
      exact fresh new created.2.2 (same ▸ member)
    exact (congrFun (afterCreate_live unused) path).symm.trans mark
  | _ => exact mark

/-- Under the new marks the event makes no marked page writable. -/
theorem Watched.permitted {s : Watched} {event : Event} (allowed : s.CowWritesAllowed event) :
    event.Permitted (marks (s.readOnlyAfter event)) s.system := by
  cases event with
  | fault layout id far esr =>
    constructor
    · intro permission table found mark
      apply allowed permission _ _ (resolveUserPageDesc_some.mpr ⟨table, found, rfl⟩)
      have unchanged : s.afterFault layout id far esr = s.readOnly :=
        if_neg fun translation => absurd (permission.symm.trans translation.1) (by decide)
      rw [← unchanged]
      exact mark
    · intro translation unresolved flags member mark writable
      have decided : s.afterFault layout id far esr id (pathOf far) =
          (faultFlags layout far).any fun flags => flags &&& userApMask = userApRo := by
        unfold Watched.afterFault
        rw [if_pos ⟨translation, resolveUserPage_none.mpr unresolved⟩]
        unfold Watched.setContext
        rw [if_pos rfl, if_pos rfl]
      have readOnly : flags &&& userApMask = userApRo := by
        have any := decided.symm.trans mark
        rw [member] at any
        exact of_decide_eq_true any
      exact absurd (readOnly.symm.trans writable) (by decide)
  | _ => exact trivial

/-- A page that was mapped read-only, or cloned from one that was, is not writable by EL0 as
long as no permission fault is taken at such a page after it became copy-on-write. -/
theorem run_writeProtection {s : Watched}
    (reached : Transition.Reachable WatchedBoot Watched.step Watched.CowWritesAllowed s) {id va : Nat}
    {page : Nat × BitVec 64} (member : id ∈ s.live) (mapped : s.leaf id va = some page)
    (readOnly : s.readOnly id (pathOf va) = true) : ¬ Writable page.2 := by
  have sound : Sound (marks s.readOnly) s.system := by
    apply reached.invariant
    · exact fun start boot => Boot.sound boot _
    · intro before after event sound allowed taken
      obtain ⟨t, stepped, rfl⟩ := Option.map_eq_some_iff.mp taken
      exact (step_preserved (before.remark sound stepped) (before.permitted allowed) stepped).sound
  obtain ⟨table, found, entry, isTable, _⟩ := resolveUserPage_some.mp mapped
  rw [entry]
  rw [entry] at isTable
  exact (sound.spaces id member).guarded _ table _ (tablePathOf_ok va) rfl found (l3Index_lt va)
    isTable readOnly

def watch (system : System) : Watched := { system := system, readOnly := fun _ _ => false }

theorem watch_boot (image : PageAlloc.KernelImage) (mem : Mem) (mode : Bool) :
    WatchedBoot (watch (booted (PageAlloc.init image mem mode))) := booted_boot image mem mode

/-- A page of the read-only region is mapped and the context is cloned. -/
def sharedText : List Event :=
  [.create (some 1), .fault sampleLayout 1 0x500000 0x04, .clone 1 (some 2)]

theorem run_writeProtection_shared :
    ∃ s page, Transition.run Watched.step
        (watch (booted (PageAlloc.init sixteenPages (fun _ => 0) true))) sharedText = some s ∧
      s.leaf 2 0x500010 = some page ∧ IsCow page.2 ∧ ¬ Writable page.2 := by
  obtain ⟨s, ran, live, readOnly, page, leaf, cow⟩ : ∃ s, Transition.run Watched.step
      (watch (booted (PageAlloc.init sixteenPages (fun _ => 0) true))) sharedText = some s ∧
      2 ∈ s.live ∧ s.readOnly 2 (pathOf 0x500010) = true ∧
      ∃ page, s.leaf 2 0x500010 = some page ∧ IsCow page.2 := by
    decide +kernel
  have guarded : Transition.Guarded Watched.step Watched.CowWritesAllowed
      (watch (booted (PageAlloc.init sixteenPages (fun _ => 0) true))) sharedText :=
    ⟨trivial, fun _ _ => ⟨fun translation => absurd translation (by decide), fun _ _ =>
      ⟨trivial, fun _ _ => trivial⟩⟩⟩
  have reached := Transition.Reachable.of_run _ (.start (watch_boot _ _ _)) guarded ran
  exact ⟨s, page, ran, leaf, cow, run_writeProtection reached live leaf readOnly⟩

/-- The first write by the clone faults, and the handler makes the page writable. -/
theorem run_writeProtection_lost :
    ∃ s page, Transition.Reachable WatchedBoot Watched.step Transition.always s ∧ 2 ∈ s.live ∧
      s.leaf 2 0x500010 = some page ∧ s.readOnly 2 (pathOf 0x500010) = true ∧ Writable page.2 := by
  obtain ⟨s, ran, live, readOnly, page, leaf, writable⟩ : ∃ s, Transition.run Watched.step
      (watch (booted (PageAlloc.init sixteenPages (fun _ => 0) true)))
      (sharedText ++ [.fault sampleLayout 2 0x500010 0x0F]) = some s ∧
      2 ∈ s.live ∧ s.readOnly 2 (pathOf 0x500010) = true ∧
      ∃ page, s.leaf 2 0x500010 = some page ∧ Writable page.2 := by
    decide +kernel
  exact ⟨s, page, .of_ran (watch_boot _ _ _) ran, live, leaf, readOnly, writable⟩

end Protection

end OsArmv8a.Mmu
