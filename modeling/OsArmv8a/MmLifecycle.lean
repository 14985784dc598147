import OsArmv8a.Lib.SlotTable
import OsArmv8a.Lib.Transition

/-! The lifetime of address spaces in `mmu_vmsa.c`: `mmu_context_get`,
`mmu_context_put` and `mmu_context_switch` under `mmu_lifecycle_lock`, and the
`mmu_context_release` that the last two run after they have dropped it. -/

set_option autoImplicit false

namespace OsArmv8a.MmLifecycle

/-- The lifetime fields of `struct mm_context`; `refs` and the mask are `unsigned int`. -/
structure Lifecycle where
  refs : BitVec 32
  dying : Bool
  activeCpuMask : BitVec 32
  deriving DecidableEq, Repr

/-- As `mmu_context_create` leaves them. -/
def created : Lifecycle := { refs := 1, dying := false, activeCpuMask := 0 }

namespace Lifecycle

/-- The locked section of `mmu_context_get`, with its result. -/
def get (mm : Lifecycle) : Bool × Lifecycle :=
  if mm.refs ≠ 0 ∧ mm.dying = false then (true, { mm with refs := mm.refs + 1 }) else (false, mm)

/-- The locked section of `mmu_context_put`; the flag is `release`. -/
def put (mm : Lifecycle) : Bool × Lifecycle :=
  if mm.refs = 0 then (false, mm)
  else if mm.refs - 1 = 0 then
    (mm.activeCpuMask = 0, { mm with refs := mm.refs - 1, dying := true })
  else (false, { mm with refs := mm.refs - 1 })

/-- `1U << cpu_id`. -/
def cpuBit (cpu : Fin 4) : BitVec 32 := 1#32 <<< cpu.val

/-- What `mmu_context_switch` does to `old_mm`; the flag says that it becomes `release_mm`. -/
def leave (mm : Lifecycle) (cpu : Fin 4) : Bool × Lifecycle :=
  let mm := { mm with activeCpuMask := mm.activeCpuMask &&& ~~~cpuBit cpu }
  (mm.dying = true ∧ mm.refs = 0 ∧ mm.activeCpuMask = 0, mm)

/-- The test before `mmu_context_switch` installs a context. -/
def installable (mm : Lifecycle) : Bool := mm.dying = false ∧ mm.refs ≠ 0

def enter (mm : Lifecycle) (cpu : Fin 4) : Lifecycle :=
  { mm with activeCpuMask := mm.activeCpuMask ||| cpuBit cpu }

end Lifecycle

/-- A context keeps its name for good: `mm` still holds the last fields of one whose memory
has gone back to the heap. `pending` are the contexts some CPU has decided to release and
has not released yet, `releases` counts the runs of `mmu_context_release`. -/
structure State where
  mmuEnabled : Bool
  cpuContext : Fin 4 → Option Nat
  mm : Nat → Option Lifecycle
  pending : List Nat
  releases : Nat → Nat

namespace State

def boot (mmuEnabled : Bool) : State :=
  { mmuEnabled := mmuEnabled, cpuContext := fun _ => none, mm := fun _ => none, pending := [],
    releases := fun _ => 0 }

def set (s : State) (id : Nat) (mm : Lifecycle) : State :=
  { s with mm := fun other => if other = id then some mm else s.mm other }

def install (s : State) (cpu : Fin 4) (context : Option Nat) : State :=
  { s with cpuContext := fun other => if other = cpu then context else s.cpuContext other }

/-- Records a release to be run once the lock has been dropped. -/
def defer (s : State) (release : Bool) (id : Nat) : State :=
  if release = true then { s with pending := id :: s.pending } else s

end State

/-- The first half of the locked section: `cpu` gives up its old context. -/
def leaveOld (s : State) (cpu : Fin 4) : State :=
  match s.cpuContext cpu with
  | none => s
  | some old =>
    match s.mm old with
    | none => s
    | some mm => (((s.set old (mm.leave cpu).2).defer (mm.leave cpu).1 old)).install cpu none

/-- The second half: a context that is not dying and has owners is installed. -/
def enterNew (s : State) (cpu : Fin 4) (target : Option Nat) : State :=
  match target with
  | none => s.install cpu none
  | some id =>
    match s.mm id with
    | none => s.install cpu none
    | some mm =>
      if mm.installable = true then (s.set id (mm.enter cpu)).install cpu (some id)
      else s.install cpu none

def contextSwitch (s : State) (cpu : Fin 4) (target : Option Nat) : State :=
  if s.mmuEnabled = true then enterNew (leaveOld s cpu) cpu target else s

/-- `mmu_context_release` runs: its pages, its ASID and its memory are given back. -/
def contextRelease (s : State) (id : Nat) : State :=
  { s with pending := s.pending.erase id,
           releases := fun other => s.releases other + if other = id then 1 else 0 }

inductive Event where
  | enableMmu
  | create (id : Nat)
  | get (id : Nat)
  | put (id : Nat)
  /-- `mmu_context_switch(mm)` on a CPU; `none` is the null context. -/
  | switch (cpu : Fin 4) (target : Option Nat)
  /-- A CPU runs a `mmu_context_release` it has decided on. -/
  | release (id : Nat)
  deriving DecidableEq, Repr

/-- Calls are started on contexts that exist and have not been released. -/
def usable (s : State) (id : Nat) : Option Lifecycle :=
  if s.releases id = 0 then s.mm id else none

def step (s : State) : Event → Option State
  | .enableMmu => some { s with mmuEnabled := true }
  | .create id => if s.mm id = none then some (s.set id created) else none
  | .get id => (usable s id).map fun mm => s.set id mm.get.2
  | .put id => (usable s id).map fun mm => (s.set id mm.put.2).defer mm.put.1 id
  | .switch cpu none => some (contextSwitch s cpu none)
  | .switch cpu (some id) => (usable s id).map fun _ => contextSwitch s cpu (some id)
  | .release id => if id ∈ s.pending then some (contextRelease s id) else none

/-- No context is asked for another reference while `refs` is at its maximum. -/
def NoOverflow (s : State) : Event → Prop
  | .get id => ∀ mm ∈ s.mm id, mm.refs ≠ BitVec.allOnes 32
  | _ => True

instance decidableNoOverflow (s : State) : ∀ event, Decidable (NoOverflow s event)
  | .get id => inferInstanceAs (Decidable (∀ mm ∈ s.mm id, mm.refs ≠ BitVec.allOnes 32))
  | .enableMmu => isTrue trivial
  | .create _ => isTrue trivial
  | .put _ => isTrue trivial
  | .switch _ _ => isTrue trivial
  | .release _ => isTrue trivial

/-- What holds of one context: its mask says which CPUs have it installed, and it has a
release decided or run exactly when it has neither owners nor CPUs. -/
structure Tracked (s : State) (id : Nat) (mm : Lifecycle) : Prop where
  installed : ∀ i, mm.activeCpuMask.getLsbD i = true ↔
    ∃ small : i < 4, s.cpuContext ⟨i, small⟩ = some id
  dying : mm.dying = true ↔ mm.refs = 0
  released : s.pending.count id + s.releases id =
    if mm.refs = 0 ∧ mm.activeCpuMask = 0 then 1 else 0

structure Invariant (s : State) : Prop where
  tracked : ∀ id mm, s.mm id = some mm → Tracked s id mm
  idle : ∀ id, s.mm id = none →
    (∀ cpu, s.cpuContext cpu ≠ some id) ∧ s.pending.count id = 0 ∧ s.releases id = 0

theorem getLsbD_cpuBit (cpu : Fin 4) (i : Nat) :
    (Lifecycle.cpuBit cpu).getLsbD i = decide (i = cpu.val) := by
  have small : cpu.val < 32 := by omega
  unfold Lifecycle.cpuBit
  rcases Nat.lt_trichotomy i cpu.val with low | same | high
  · simp [low, Nat.ne_of_lt low]
  · simp [same, small]
  · have positive : i - cpu.val ≠ 0 := by omega
    simp [positive, Nat.ne_of_gt high]

variable {s : State} {id : Nat} {mm : Lifecycle}

theorem Tracked.mask_zero (tracked : Tracked s id mm) :
    mm.activeCpuMask = 0 ↔ ∀ cpu, s.cpuContext cpu ≠ some id := by
  constructor
  · intro empty cpu installed
    have bit := (tracked.installed cpu.val).mpr ⟨cpu.isLt, installed⟩
    simp [empty] at bit
  · intro absent
    apply BitVec.eq_of_getLsbD_eq
    intro i below
    have clear : mm.activeCpuMask.getLsbD i ≠ true := by
      intro bit
      obtain ⟨small, installed⟩ := (tracked.installed i).mp bit
      exact absent _ installed
    simpa using clear

/-- Everything a step may do to contexts other than `id`: nothing. -/
structure Elsewhere (s t : State) (id : Nat) : Prop where
  fields : ∀ other, other ≠ id → t.mm other = s.mm other
  cpus : ∀ other, other ≠ id → ∀ cpu, t.cpuContext cpu = some other ↔ s.cpuContext cpu = some other
  pending : ∀ other, other ≠ id → t.pending.count other = s.pending.count other
  releases : ∀ other, other ≠ id → t.releases other = s.releases other

/-- A step on one context has to be checked on that context only. -/
theorem Invariant.change {t : State} (inv : Invariant s) (elsewhere : Elsewhere s t id)
    (here : t.mm id = some mm) (tracked : Tracked t id mm) : Invariant t := by
  constructor
  · intro other fields found
    by_cases same : other = id
    · subst same
      cases Option.some.inj (here.symm.trans found)
      exact tracked
    · have before := inv.tracked other fields ((elsewhere.fields other same).symm.trans found)
      apply Tracked.mk
      · intro i
        rw [before.installed i]
        exact exists_congr fun small => (elsewhere.cpus other same _).symm
      · exact before.dying
      · rw [elsewhere.pending other same, elsewhere.releases other same]
        exact before.released
  · intro other absent
    have same : other ≠ id := by
      intro same
      rw [same, here] at absent
      cases absent
    have before := inv.idle other ((elsewhere.fields other same).symm.trans absent)
    rw [elsewhere.pending other same, elsewhere.releases other same]
    exact ⟨fun cpu installed => before.1 cpu ((elsewhere.cpus other same cpu).mp installed), before.2⟩

@[simp] theorem State.set_mm (s : State) (id other : Nat) (mm : Lifecycle) :
    (s.set id mm).mm other = if other = id then some mm else s.mm other := rfl

@[simp] theorem State.defer_mm (s : State) (release : Bool) (id : Nat) :
    (s.defer release id).mm = s.mm := by
  unfold State.defer
  split <;> rfl

@[simp] theorem State.defer_cpuContext (s : State) (release : Bool) (id : Nat) :
    (s.defer release id).cpuContext = s.cpuContext := by
  unfold State.defer
  split <;> rfl

@[simp] theorem State.defer_releases (s : State) (release : Bool) (id : Nat) :
    (s.defer release id).releases = s.releases := by
  unfold State.defer
  split <;> rfl

theorem State.defer_count (s : State) (release : Bool) (id other : Nat) :
    (s.defer release id).pending.count other =
      s.pending.count other + if release = true ∧ other = id then 1 else 0 := by
  unfold State.defer
  by_cases decided : release = true
  · rw [if_pos decided, List.count_cons]
    by_cases same : other = id
    · simp [decided, same]
    · simp [same, Ne.symm same]
  · rw [if_neg decided, if_neg fun both => decided both.1]
    rfl

/-- The effect of writing one context's fields and maybe deciding to release it. -/
theorem elsewhere_set (s : State) (id : Nat) (mm : Lifecycle) (release : Bool) :
    Elsewhere s ((s.set id mm).defer release id) id := by
  constructor
  · intro other different
    rw [State.defer_mm, State.set_mm, if_neg different]
  · intro other _ cpu
    rw [State.defer_cpuContext]
    exact Iff.rfl
  · intro other different
    rw [State.defer_count, if_neg fun both => different both.2]
    rfl
  · intro other _
    rw [State.defer_releases]
    rfl

theorem create_invariant (inv : Invariant s) (fresh : s.mm id = none) :
    Invariant (s.set id created) := by
  have idle := inv.idle id fresh
  apply inv.change (elsewhere_set s id created false)
  · show (if id = id then some created else s.mm id) = some created
    rw [if_pos rfl]
  · constructor
    · intro i
      constructor
      · intro bit
        simp [created] at bit
      · intro installed
        exact absurd installed.choose_spec (idle.1 _)
    · decide
    · show s.pending.count id + s.releases id = _
      rw [idle.2.1, idle.2.2]
      rfl

theorem get_invariant (inv : Invariant s) (found : s.mm id = some mm)
    (bounded : mm.refs ≠ BitVec.allOnes 32) : Invariant (s.set id mm.get.2) := by
  have tracked := inv.tracked id mm found
  apply inv.change (elsewhere_set s id mm.get.2 false)
  · show (if id = id then some mm.get.2 else s.mm id) = some mm.get.2
    rw [if_pos rfl]
  · unfold Lifecycle.get
    split
    · rename_i owned
      have more : mm.refs + 1 ≠ 0 := by
        intro wrapped
        apply bounded
        exact BitVec.eq_sub_iff_add_eq.mpr wrapped
      constructor
      · exact tracked.installed
      · rw [owned.2]
        exact ⟨fun impossible => absurd impossible Bool.false_ne_true,
          fun wrapped => absurd wrapped more⟩
      · show s.pending.count id + s.releases id = if mm.refs + 1 = 0 ∧ _ then 1 else 0
        rw [tracked.released, if_neg fun both => owned.1 both.1, if_neg fun both => more both.1]
    · exact ⟨tracked.installed, tracked.dying, tracked.released⟩

theorem put_invariant (inv : Invariant s) (found : s.mm id = some mm) :
    Invariant ((s.set id mm.put.2).defer mm.put.1 id) := by
  have tracked := inv.tracked id mm found
  apply inv.change (elsewhere_set s id mm.put.2 mm.put.1)
  · rw [State.defer_mm, State.set_mm, if_pos rfl]
  · apply Tracked.mk
    · intro i
      rw [State.defer_cpuContext]
      have mask : mm.put.2.activeCpuMask = mm.activeCpuMask := by
        unfold Lifecycle.put
        split <;> [rfl; split <;> rfl]
      rw [mask]
      exact tracked.installed i
    · unfold Lifecycle.put
      split
      · exact tracked.dying
      · rename_i owned
        split
        · rename_i last
          exact ⟨fun _ => last, fun _ => rfl⟩
        · rename_i more
          rw [tracked.dying]
          exact ⟨fun none => absurd none owned, fun last => absurd last more⟩
    · rw [State.defer_count, State.defer_releases]
      show s.pending.count id + _ + s.releases id = _
      have before := tracked.released
      unfold Lifecycle.put
      split
      · simpa using before
      · rename_i owned
        rw [if_neg fun both => owned both.1] at before
        split
        · rename_i last
          by_cases empty : mm.activeCpuMask = 0
          · rw [if_pos ⟨decide_eq_true empty, rfl⟩, if_pos ⟨last, empty⟩]
            omega
          · rw [if_neg fun both => empty (of_decide_eq_true both.1), if_neg fun both => empty both.2]
            omega
        · rename_i more
          rw [if_neg fun both => Bool.false_ne_true both.1, if_neg fun both => more both.1]
          omega

theorem leave_getLsbD (mm : Lifecycle) (cpu : Fin 4) {i : Nat} (small : i < 32) :
    (mm.leave cpu).2.activeCpuMask.getLsbD i =
      (mm.activeCpuMask.getLsbD i && !decide (i = cpu.val)) := by
  show (mm.activeCpuMask &&& ~~~Lifecycle.cpuBit cpu).getLsbD i = _
  rw [BitVec.getLsbD_and, BitVec.getLsbD_not, getLsbD_cpuBit]
  simp [small]

theorem enter_getLsbD (mm : Lifecycle) (cpu : Fin 4) (i : Nat) :
    (mm.enter cpu).activeCpuMask.getLsbD i =
      (mm.activeCpuMask.getLsbD i || decide (i = cpu.val)) := by
  show (mm.activeCpuMask ||| Lifecycle.cpuBit cpu).getLsbD i = _
  rw [BitVec.getLsbD_or, getLsbD_cpuBit]

/-- A context that leaves a CPU is released by that switch when nobody else needs it. -/
theorem leaveOld_invariant (inv : Invariant s) (cpu : Fin 4) :
    Invariant (leaveOld s cpu) ∧ (leaveOld s cpu).cpuContext cpu = none := by
  unfold leaveOld
  split
  · rename_i empty
    exact ⟨inv, empty⟩
  rename_i old installed
  split
  · rename_i absent
    exact absurd installed ((inv.idle old absent).1 cpu)
  rename_i mm found
  have tracked := inv.tracked old mm found
  have bit : mm.activeCpuMask.getLsbD cpu.val = true :=
    (tracked.installed cpu.val).mpr ⟨cpu.isLt, installed⟩
  have busy : mm.activeCpuMask ≠ 0 := fun empty => by simp [empty] at bit
  apply And.intro
  · have set := elsewhere_set s old (mm.leave cpu).2 (mm.leave cpu).1
    have elsewhere : Elsewhere s (((s.set old (mm.leave cpu).2).defer (mm.leave cpu).1 old).install
        cpu none) old := by
      apply Elsewhere.mk
      · exact set.fields
      · intro other different c
        show (if c = cpu then none else _) = some other ↔ _
        by_cases same : c = cpu
        · rw [if_pos same, same, installed]
          exact ⟨fun impossible => absurd impossible (Option.some_ne_none other).symm,
            fun equal => absurd (Option.some.inj equal).symm different⟩
        · rw [if_neg same]
          exact set.cpus other different c
      · exact set.pending
      · exact set.releases
    apply inv.change elsewhere
    · show ((s.set old _).defer _ old).mm old = some (mm.leave cpu).2
      rw [State.defer_mm, State.set_mm, if_pos rfl]
    · apply Tracked.mk
      · intro i
        by_cases small : i < 32
        · rw [leave_getLsbD mm cpu small, Bool.and_eq_true, tracked.installed i]
          constructor
          · intro both
            obtain ⟨below, holds⟩ := both.1
            have other : (⟨i, below⟩ : Fin 4) ≠ cpu := by
              intro same
              have value := congrArg Fin.val same
              simp [show i = cpu.val from value] at both
            apply Exists.intro below
            show (if (⟨i, below⟩ : Fin 4) = cpu then none else _) = some old
            rw [if_neg other, State.defer_cpuContext]
            exact holds
          · intro holds
            obtain ⟨below, holds⟩ := holds
            have here : (if (⟨i, below⟩ : Fin 4) = cpu then none
                else ((s.set old (mm.leave cpu).2).defer (mm.leave cpu).1 old).cpuContext
                  ⟨i, below⟩) = some old := holds
            by_cases same : (⟨i, below⟩ : Fin 4) = cpu
            · rw [if_pos same] at here
              cases here
            · rw [if_neg same, State.defer_cpuContext] at here
              have different : i ≠ cpu.val := fun value => same (Fin.ext value)
              exact ⟨⟨below, here⟩, by simp [different]⟩
        · rw [BitVec.getLsbD_of_ge _ _ (by omega)]
          exact ⟨fun impossible => absurd impossible Bool.false_ne_true,
            fun holds => absurd holds.choose (by omega)⟩
      · exact tracked.dying
      · show ((s.set old _).defer _ old).pending.count old + ((s.set old _).defer _ old).releases old = _
        rw [State.defer_count, State.defer_releases]
        have before := tracked.released
        rw [if_neg fun both => busy both.2] at before
        show s.pending.count old + _ + s.releases old = _
        by_cases last : mm.refs = 0 ∧ (mm.leave cpu).2.activeCpuMask = 0
        · have flag : (mm.leave cpu).1 = true :=
            decide_eq_true ⟨tracked.dying.mpr last.1, last.1, last.2⟩
          rw [if_pos ⟨flag, rfl⟩, if_pos (show (mm.leave cpu).2.refs = 0 ∧ _ from last)]
          omega
        · have flag : (mm.leave cpu).1 = true → False :=
            fun set => last (of_decide_eq_true set).2
          rw [if_neg fun both => flag both.1, if_neg (show ¬ ((mm.leave cpu).2.refs = 0 ∧ _) from last)]
          omega
  · show (if cpu = cpu then none else _) = none
    rw [if_pos rfl]

theorem install_none_invariant (inv : Invariant s) {cpu : Fin 4} (empty : s.cpuContext cpu = none) :
    Invariant (s.install cpu none) := by
  have same : s.install cpu none = s := by
    unfold State.install
    congr 1
    funext other
    split
    · rename_i here
      rw [here, empty]
    · rfl
  rw [same]
  exact inv

theorem enterNew_invariant (inv : Invariant s) {cpu : Fin 4} (target : Option Nat)
    (empty : s.cpuContext cpu = none) : Invariant (enterNew s cpu target) := by
  unfold enterNew
  split
  · exact install_none_invariant inv empty
  rename_i id
  split
  · exact install_none_invariant inv empty
  rename_i mm found
  split
  · rename_i installable
    have open' : mm.dying = false ∧ mm.refs ≠ 0 := of_decide_eq_true installable
    have tracked := inv.tracked id mm found
    have elsewhere : Elsewhere s ((s.set id (mm.enter cpu)).install cpu (some id)) id := by
      apply Elsewhere.mk
      · intro other different
        show (if other = id then _ else s.mm other) = s.mm other
        rw [if_neg different]
      · intro other different c
        show (if c = cpu then some id else s.cpuContext c) = some other ↔ _
        by_cases same : c = cpu
        · rw [if_pos same, same, empty]
          exact ⟨fun equal => absurd (Option.some.inj equal).symm different,
            fun impossible => absurd impossible (Option.some_ne_none other).symm⟩
        · rw [if_neg same]
      · intro other _
        rfl
      · intro other _
        rfl
    apply inv.change elsewhere
    · show (if id = id then some (mm.enter cpu) else s.mm id) = some (mm.enter cpu)
      rw [if_pos rfl]
    · apply Tracked.mk
      · intro i
        show (mm.enter cpu).activeCpuMask.getLsbD i = true ↔ ∃ small : i < 4,
          (if (⟨i, small⟩ : Fin 4) = cpu then some id else s.cpuContext ⟨i, small⟩) = some id
        rw [enter_getLsbD, Bool.or_eq_true, tracked.installed i, decide_eq_true_iff]
        by_cases same : i = cpu.val
        · exact ⟨fun _ => ⟨same ▸ cpu.isLt, if_pos (Fin.ext same)⟩, fun _ => Or.inr same⟩
        · have other : ∀ small : i < 4, (⟨i, small⟩ : Fin 4) ≠ cpu :=
            fun small equal => same (congrArg Fin.val equal)
          simp only [same, or_false]
          exact exists_congr fun small => by rw [if_neg (other small)]
      · exact tracked.dying
      · have before := tracked.released
        rw [if_neg fun both => open'.2 both.1] at before
        exact before.trans (if_neg fun both => open'.2 both.1).symm
  · exact install_none_invariant inv empty

theorem contextSwitch_invariant (inv : Invariant s) (cpu : Fin 4) (target : Option Nat) :
    Invariant (contextSwitch s cpu target) := by
  unfold contextSwitch
  split
  · have left := leaveOld_invariant inv cpu
    exact enterNew_invariant left.1 target left.2
  · exact inv

theorem release_invariant (inv : Invariant s) (decided : id ∈ s.pending) :
    Invariant (contextRelease s id) := by
  have positive : 0 < s.pending.count id := List.count_pos_iff.mpr decided
  cases found : s.mm id with
  | none =>
    have idle := inv.idle id found
    omega
  | some mm =>
    have tracked := inv.tracked id mm found
    have elsewhere : Elsewhere s (contextRelease s id) id := by
      apply Elsewhere.mk
      · intro other _
        rfl
      · intro other _ cpu
        exact Iff.rfl
      · intro other different
        exact List.count_erase_of_ne different
      · intro other different
        show s.releases other + (if other = id then 1 else 0) = s.releases other
        rw [if_neg different]
        rfl
    apply inv.change elsewhere found
    apply Tracked.mk
    · exact tracked.installed
    · exact tracked.dying
    · show (s.pending.erase id).count id + (s.releases id + if id = id then 1 else 0) = _
      rw [List.count_erase_self, if_pos rfl, ← tracked.released]
      omega

theorem usable_found (found : usable s id = some mm) : s.mm id = some mm := by
  unfold usable at found
  split at found
  · exact found
  · cases found

theorem step_invariant {t : State} {event : Event} (inv : Invariant s)
    (bounded : NoOverflow s event) (taken : step s event = some t) : Invariant t := by
  cases event with
  | enableMmu =>
    cases Option.some.inj taken
    exact ⟨fun id mm found =>
      ⟨(inv.tracked id mm found).installed, (inv.tracked id mm found).dying,
        (inv.tracked id mm found).released⟩, inv.idle⟩
  | create id =>
    obtain ⟨fresh, rfl⟩ := Transition.of_guard taken
    exact create_invariant inv fresh
  | get id =>
    obtain ⟨mm, found, rfl⟩ := Option.map_eq_some_iff.mp taken
    exact get_invariant inv (usable_found found) (bounded mm (usable_found found))
  | put id =>
    obtain ⟨mm, found, rfl⟩ := Option.map_eq_some_iff.mp taken
    exact put_invariant inv (usable_found found)
  | switch cpu target =>
    cases target with
    | none =>
      cases Option.some.inj taken
      exact contextSwitch_invariant inv cpu none
    | some id =>
      obtain ⟨mm, found, rfl⟩ := Option.map_eq_some_iff.mp taken
      exact contextSwitch_invariant inv cpu (some id)
  | release id =>
    obtain ⟨decided, rfl⟩ := Transition.of_guard taken
    exact release_invariant inv decided

/-- The states the kernel can boot into: no context exists and no CPU has one installed. -/
def Booted (s : State) : Prop := ∃ mmuEnabled, s = State.boot mmuEnabled

theorem boot_invariant (booted : Booted s) : Invariant s := by
  obtain ⟨mmuEnabled, rfl⟩ := booted
  constructor
  · intro id mm found
    cases found
  · intro id _
    exact ⟨fun cpu => (Option.some_ne_none id).symm, rfl, rfl⟩

/-- What the lifetime of one context looks like in a state. -/
structure Lifetime (s : State) (id : Nat) (mm : Lifecycle) : Prop where
  mask : ∀ cpu : Fin 4, mm.activeCpuMask.getLsbD cpu.val = true ↔ s.cpuContext cpu = some id
  dying : mm.dying = true ↔ mm.refs = 0
  atMostOnce : s.pending.count id + s.releases id ≤ 1
  onlyUnused : id ∈ s.pending ∨ 0 < s.releases id → mm.refs = 0 ∧ mm.activeCpuMask = 0
  afterLast : mm.refs = 0 → (∀ cpu, s.cpuContext cpu ≠ some id) → id ∉ s.pending →
    s.releases id = 1

theorem Tracked.lifetime (tracked : Tracked s id mm) : Lifetime s id mm := by
  have count := tracked.released
  apply Lifetime.mk
  · intro cpu
    rw [tracked.installed cpu.val]
    exact ⟨fun holds => holds.choose_spec, fun holds => ⟨cpu.isLt, holds⟩⟩
  · exact tracked.dying
  · rw [count]
    split <;> omega
  · intro decided
    have positive : 0 < s.pending.count id + s.releases id := by
      rcases decided with waiting | ran
      · have counted := List.count_pos_iff.mpr waiting
        omega
      · omega
    by_cases unused : mm.refs = 0 ∧ mm.activeCpuMask = 0
    · exact unused
    · rw [if_neg unused] at count
      omega
  · intro unowned left undecided
    rw [if_pos ⟨unowned, tracked.mask_zero.mpr left⟩] at count
    have none : s.pending.count id = 0 := List.count_eq_zero.mpr undecided
    omega

/-- In every interleaving in which no reference counter is incremented at its maximum, every
context that was ever created lives and is released as it should be. -/
theorem run_lifetime {s : State} (reached : Transition.Reachable Booted step NoOverflow s)
    {id : Nat} {mm : Lifecycle} (exists' : s.mm id = some mm) : Lifetime s id mm := by
  have inv : Invariant s := reached.invariant (fun _ => boot_invariant)
    fun _ _ _ inv bounded taken => step_invariant inv bounded taken
  exact (inv.tracked id mm exists').lifetime

/-- One context is shared, installed on CPU 0, given up by both owners and released when the
CPU switches away. -/
def sampleEvents : List Event :=
  [.create 0, .get 0, .switch 0 (some 0), .put 0, .put 0, .switch 0 none, .release 0]

theorem run_lifetime_released :
    ∃ s mm, Transition.run step (State.boot true) sampleEvents = some s ∧ s.mm 0 = some mm ∧
      s.releases 0 = 1 ∧ Lifetime s 0 mm :=
  ⟨_, _, rfl, rfl, rfl, run_lifetime
    (Transition.Reachable.of_run sampleEvents (.start ⟨true, rfl⟩) (by decide) rfl) rfl⟩

/-- `refs` is counted up by one with every `mmu_context_get`. -/
theorem gets_reached (n : Nat) (small : n < 2 ^ 32) :
    ∃ s, Transition.Reachable Booted step Transition.always s ∧ s.releases 0 = 0 ∧
      s.mm 0 = some { refs := BitVec.ofNat 32 (n + 1), dying := false, activeCpuMask := 0 } := by
  induction n with
  | zero => exact ⟨_, .next (.start ⟨true, rfl⟩) trivial (show step _ (.create 0) = _ from rfl), rfl, rfl⟩
  | succ n ih =>
    obtain ⟨s, reached, unreleased, fields⟩ := ih (by omega)
    have owned : BitVec.ofNat 32 (n + 1) ≠ 0 := by
      intro zero
      have value := congrArg BitVec.toNat zero
      rw [BitVec.toNat_ofNat, Nat.mod_eq_of_lt small] at value
      exact absurd value (Nat.succ_ne_zero n)
    have taken : step s (.get 0) = some (s.set 0
        { refs := BitVec.ofNat 32 (n + 1) + 1, dying := false, activeCpuMask := 0 }) := by
      show (usable s 0).map _ = _
      unfold usable Lifecycle.get
      rw [if_pos unreleased, fields, Option.map_some, if_pos ⟨owned, rfl⟩]
    have counted : BitVec.ofNat 32 (n + 1) + 1 = BitVec.ofNat 32 (n + 1 + 1) :=
      (BitVec.ofNat_add (n + 1) 1).symm
    rw [counted] at taken
    exact ⟨_, .next reached trivial taken, unreleased, rfl⟩

theorem run_lifetime_overflow :
    ∃ s mm, Transition.Reachable Booted step Transition.always s ∧ s.mm 0 = some mm ∧
      ¬ Lifetime s 0 mm := by
  obtain ⟨s, reached, _, fields⟩ := gets_reached (2 ^ 32 - 1) (by decide)
  exact ⟨s, _, reached, fields,
    fun lifetime => Bool.false_ne_true (lifetime.dying.mpr (by decide))⟩

end OsArmv8a.MmLifecycle
