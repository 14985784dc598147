import OsArmv8a.MmLifecycle

/-! The TTBR0 registers behind `mmu_cpu_context`. `mmu_context_switch` changes the owner and
CPU bookkeeping under `mmu_lifecycle_lock`, writes TTBR0 after it has dropped the lock, and
releases the old context after that write; each of the three is a step here. -/

set_option autoImplicit false

namespace OsArmv8a.MmTtbr

open MmLifecycle (Lifecycle usable contextRelease)
open MmLifecycle.Lifecycle (cpuBit)

/-- What a CPU has left to do in a call that has dropped the lock: `write` is the context
whose root goes to TTBR0, or `some none` for the empty root; `release` is `release_mm` of a
switch, or the context of a `mmu_context_put` that found `release` set. -/
structure Rest where
  write : Option (Option Nat)
  release : Option Nat
  deriving DecidableEq, Repr

def Rest.idle : Rest := { write := none, release := none }

/-- `ttbr0 cpu` is the context whose root the register holds, `none` the empty root. -/
structure State where
  life : MmLifecycle.State
  ttbr0 : Fin 4 → Option Nat
  rest : Fin 4 → Rest

inductive Label where
  | enableMmu
  | create (id : Nat)
  | get (id : Nat)
  | put (cpu : Fin 4) (id : Nat)
  | switch (cpu : Fin 4) (target : Option Nat)
  /-- `mmu_set_ttbr0` and `mmu_invalidate_tlb_all`. -/
  | setTtbr0 (cpu : Fin 4)
  /-- `mmu_context_release` starts to free the pages of the context. -/
  | release (cpu : Fin 4) (id : Nat)
  deriving DecidableEq, Repr

namespace State

def boot (mmuEnabled : Bool) : State :=
  { life := .boot mmuEnabled, ttbr0 := fun _ => none, rest := fun _ => .idle }

def withLife (s : State) (life : MmLifecycle.State) : State := { s with life := life }

def setRest (s : State) (cpu : Fin 4) (rest : Rest) : State :=
  { s with rest := fun other => if other = cpu then rest else s.rest other }

def load (s : State) (cpu : Fin 4) (root : Option Nat) : State :=
  { s with ttbr0 := fun other => if other = cpu then root else s.ttbr0 other }

end State

/-- `release_mm` as the locked section of a switch on `cpu` leaves it. -/
def releaseMm (life : MmLifecycle.State) (cpu : Fin 4) : Option Nat :=
  (life.cpuContext cpu).filter fun old => ((life.mm old).map fun mm => (mm.leave cpu).1) = some true

def step (s : State) : Label → Option State
  | .enableMmu => (MmLifecycle.step s.life .enableMmu).map s.withLife
  | .create id => (MmLifecycle.step s.life (.create id)).map s.withLife
  | .get id => (MmLifecycle.step s.life (.get id)).map s.withLife
  | .put cpu id =>
    if s.rest cpu = .idle then
      (usable s.life id).bind fun mm =>
        (MmLifecycle.step s.life (.put id)).map fun life =>
          (s.withLife life).setRest cpu
            { write := none, release := if mm.put.1 = true then some id else none }
    else none
  | .switch cpu target =>
    if s.rest cpu = .idle then
      (MmLifecycle.step s.life (.switch cpu target)).map fun life =>
        if s.life.mmuEnabled = true then
          (s.withLife life).setRest cpu
            { write := some (life.cpuContext cpu), release := releaseMm s.life cpu }
        else s
    else none
  | .setTtbr0 cpu =>
    (s.rest cpu).write.map fun root =>
      (s.load cpu root).setRest cpu { write := none, release := (s.rest cpu).release }
  | .release cpu id =>
    if s.rest cpu = { write := none, release := some id } then
      some ((s.withLife (contextRelease s.life id)).setRest cpu .idle)
    else none

/-- The CPU has given the context up and its register still holds the root. -/
def State.Lingers (s : State) (cpu : Fin 4) (id : Nat) : Prop :=
  s.ttbr0 cpu = some id ∧ s.life.cpuContext cpu ≠ some id

instance (s : State) (cpu : Fin 4) (id : Nat) : Decidable (s.Lingers cpu id) :=
  inferInstanceAs (Decidable (_ ∧ _))

/-- Nobody drops the last reference of a context no CPU has installed, and no CPU gives up a
dying context as the last one, while another CPU has yet to write its TTBR0 for having given
up that context. -/
def Drained (s : State) : Label → Prop
  | .put _ id => ∀ mm ∈ s.life.mm id, mm.refs = 1 → mm.activeCpuMask = 0 → ∀ cpu, ¬ s.Lingers cpu id
  | .switch cpu _ => ∀ id ∈ s.life.cpuContext cpu, ∀ mm ∈ s.life.mm id, mm.dying = true →
      mm.activeCpuMask &&& ~~~cpuBit cpu = 0 → ∀ other, ¬ s.Lingers other id
  | _ => True

instance decidableDrained (s : State) : ∀ label, Decidable (Drained s label)
  | .put _ id => inferInstanceAs (Decidable (∀ mm ∈ s.life.mm id, mm.refs = 1 →
      mm.activeCpuMask = 0 → ∀ cpu, ¬ s.Lingers cpu id))
  | .switch cpu _ => inferInstanceAs (Decidable (∀ id ∈ s.life.cpuContext cpu,
      ∀ mm ∈ s.life.mm id, mm.dying = true → mm.activeCpuMask &&& ~~~cpuBit cpu = 0 →
        ∀ other, ¬ s.Lingers other id))
  | .enableMmu => isTrue trivial
  | .create _ => isTrue trivial
  | .get _ => isTrue trivial
  | .setTtbr0 _ => isTrue trivial
  | .release _ _ => isTrue trivial

/-- An installed context has the CPU's bit in its mask. -/
def Marked (life : MmLifecycle.State) : Prop :=
  ∀ cpu id, life.cpuContext cpu = some id →
    ∃ mm, life.mm id = some mm ∧ mm.activeCpuMask.getLsbD cpu.val = true

/-- A context that can never be installed again and is installed nowhere. -/
def Doomed (life : MmLifecycle.State) (id : Nat) : Prop :=
  ∃ mm, life.mm id = some mm ∧ mm.dying = true ∧ mm.activeCpuMask = 0

variable {life : MmLifecycle.State} {id : Nat}

theorem Doomed.not_installed (doomed : Doomed life id) (marked : Marked life) (cpu : Fin 4) :
    life.cpuContext cpu ≠ some id := by
  intro installed
  obtain ⟨mm, found, -, empty⟩ := doomed
  obtain ⟨mm', found', bit⟩ := marked cpu id installed
  cases Option.some.inj (found.symm.trans found')
  simp [empty] at bit

/-- No mask changes, and a dying context stays so. -/
structure Keeps (life next : MmLifecycle.State) : Prop where
  cpus : next.cpuContext = life.cpuContext
  fields : ∀ id mm, life.mm id = some mm → ∃ mm', next.mm id = some mm' ∧
    mm'.activeCpuMask = mm.activeCpuMask ∧ (mm.dying = true → mm'.dying = true)

variable {next : MmLifecycle.State}

theorem Keeps.marked (keeps : Keeps life next) (marked : Marked life) : Marked next := by
  intro cpu id installed
  rw [keeps.cpus] at installed
  obtain ⟨mm, found, bit⟩ := marked cpu id installed
  obtain ⟨mm', found', mask, -⟩ := keeps.fields id mm found
  exact ⟨mm', found', mask ▸ bit⟩

theorem Keeps.doomed (keeps : Keeps life next) (doomed : Doomed life id) : Doomed next id := by
  obtain ⟨mm, found, dying, empty⟩ := doomed
  obtain ⟨mm', found', mask, still⟩ := keeps.fields id mm found
  exact ⟨mm', found', still dying, mask.trans empty⟩

theorem keeps_set {fresh : Lifecycle} (release : Bool)
    (same : ∀ mm, life.mm id = some mm → fresh.activeCpuMask = mm.activeCpuMask ∧
      (mm.dying = true → fresh.dying = true)) :
    Keeps life ((life.set id fresh).defer release id) := by
  constructor
  · rw [MmLifecycle.State.defer_cpuContext]
    rfl
  · intro other mm found
    rw [MmLifecycle.State.defer_mm, MmLifecycle.State.set_mm]
    by_cases here : other = id
    · subst here
      exact ⟨fresh, if_pos rfl, same mm found⟩
    · exact ⟨mm, (if_neg here).trans found, rfl, fun dying => dying⟩

theorem put_mask (mm : Lifecycle) : mm.put.2.activeCpuMask = mm.activeCpuMask := by
  unfold Lifecycle.put
  split <;> [rfl; split <;> rfl]

theorem put_dying (mm : Lifecycle) (dying : mm.dying = true) : mm.put.2.dying = true := by
  unfold Lifecycle.put
  split <;> [exact dying; split <;> [rfl; exact dying]]

theorem get_mask (mm : Lifecycle) : mm.get.2.activeCpuMask = mm.activeCpuMask := by
  unfold Lifecycle.get
  split <;> rfl

theorem get_dying (mm : Lifecycle) (dying : mm.dying = true) : mm.get.2.dying = true := by
  unfold Lifecycle.get
  split <;> exact dying

variable {mm : Lifecycle}

theorem mm_of_usable (found : usable life id = some mm) : life.mm id = some mm :=
  (Option.ite_none_right_eq_some.mp found).2

/-- Outside `mmu_context_switch` no context moves to or from a CPU. -/
theorem keeps_step (event : MmLifecycle.Event) (taken : MmLifecycle.step life event = some next)
    (noSwitch : ∀ cpu target, event ≠ .switch cpu target) : Keeps life next := by
  cases event with
  | enableMmu =>
    cases taken
    exact ⟨rfl, fun id mm found => ⟨mm, found, rfl, fun dying => dying⟩⟩
  | create id =>
    obtain ⟨fresh, rfl⟩ := Transition.of_guard taken
    exact keeps_set false fun mm found => absurd (fresh.symm.trans found) (by simp)
  | get id =>
    obtain ⟨mm, found, same⟩ := Option.map_eq_some_iff.mp taken
    subst same
    apply keeps_set false
    intro mm' found'
    cases Option.some.inj ((mm_of_usable found).symm.trans found')
    exact ⟨get_mask mm, get_dying mm⟩
  | put id =>
    obtain ⟨mm, found, same⟩ := Option.map_eq_some_iff.mp taken
    subst same
    apply keeps_set
    intro mm' found'
    cases Option.some.inj ((mm_of_usable found).symm.trans found')
    exact ⟨put_mask mm, put_dying mm⟩
  | switch cpu target => exact absurd rfl (noSwitch cpu target)
  | release id =>
    obtain ⟨-, rfl⟩ := Transition.of_guard taken
    exact ⟨rfl, fun id mm found => ⟨mm, found, rfl, fun dying => dying⟩⟩

section Switch

variable {life : MmLifecycle.State} (cpu : Fin 4)

theorem Marked.leaveOld (marked : Marked life) : Marked (MmLifecycle.leaveOld life cpu) := by
  unfold MmLifecycle.leaveOld
  split
  · exact marked
  rename_i old installed
  split
  · exact marked
  rename_i mm found
  intro other id holds
  have elsewhere : other ≠ cpu := by
    intro same
    simp [MmLifecycle.State.install, same] at holds
  have before : life.cpuContext other = some id := by
    simpa [MmLifecycle.State.install, elsewhere, MmLifecycle.State.set] using holds
  obtain ⟨fields, known, bit⟩ := marked other id before
  show ∃ after, ((life.set old _).defer _ old).mm id = some after ∧ _
  rw [MmLifecycle.State.defer_mm, MmLifecycle.State.set_mm]
  by_cases same : id = old
  · subst same
    cases Option.some.inj (found.symm.trans known)
    refine ⟨_, if_pos rfl, ?_⟩
    rw [MmLifecycle.leave_getLsbD mm cpu (by omega), bit]
    simpa using fun same => elsewhere (Fin.ext same)
  · exact ⟨fields, (if_neg same).trans known, bit⟩

variable {id : Nat}

theorem Doomed.leaveOld (doomed : Doomed life id) : Doomed (MmLifecycle.leaveOld life cpu) id := by
  obtain ⟨fields, known, dying, empty⟩ := doomed
  unfold MmLifecycle.leaveOld
  split
  · exact ⟨fields, known, dying, empty⟩
  rename_i old installed
  split
  · exact ⟨fields, known, dying, empty⟩
  rename_i mm found
  show ∃ after, ((life.set old _).defer _ old).mm id = some after ∧ _
  rw [MmLifecycle.State.defer_mm, MmLifecycle.State.set_mm]
  by_cases same : id = old
  · subst same
    cases Option.some.inj (found.symm.trans known)
    exact ⟨_, if_pos rfl, dying, by simp [Lifecycle.leave, empty]⟩
  · exact ⟨fields, (if_neg same).trans known, dying, empty⟩

theorem marked_install_none (marked : Marked life) : Marked (life.install cpu none) := by
  intro other id holds
  have elsewhere : other ≠ cpu := by
    intro same
    simp [MmLifecycle.State.install, same] at holds
  exact marked other id (by simpa [MmLifecycle.State.install, elsewhere] using holds)

theorem Marked.enterNew (marked : Marked life) (target : Option Nat) :
    Marked (MmLifecycle.enterNew life cpu target) := by
  unfold MmLifecycle.enterNew
  split
  · exact marked_install_none cpu marked
  rename_i id
  split
  · exact marked_install_none cpu marked
  rename_i mm found
  split
  · intro other context holds
    by_cases same : other = cpu
    · have entered : context = id := by
        simpa [MmLifecycle.State.install, same, eq_comm] using holds
      refine ⟨_, if_pos entered, ?_⟩
      simp [MmLifecycle.enter_getLsbD, same]
    · have before : life.cpuContext other = some context := by
        simpa [MmLifecycle.State.install, same, MmLifecycle.State.set] using holds
      obtain ⟨fields, known, bit⟩ := marked other context before
      by_cases here : context = id
      · subst here
        cases Option.some.inj (found.symm.trans known)
        exact ⟨_, if_pos rfl, by simp [MmLifecycle.enter_getLsbD, bit]⟩
      · exact ⟨fields, (if_neg here).trans known, bit⟩
  · exact marked_install_none cpu marked

theorem Doomed.enterNew (doomed : Doomed life id) (target : Option Nat) :
    Doomed (MmLifecycle.enterNew life cpu target) id := by
  obtain ⟨fields, known, dying, empty⟩ := doomed
  unfold MmLifecycle.enterNew
  split
  · exact ⟨fields, known, dying, empty⟩
  rename_i new
  split
  · exact ⟨fields, known, dying, empty⟩
  rename_i mm found
  split
  · rename_i installable
    have different : id ≠ new := by
      intro same
      subst same
      cases Option.some.inj (found.symm.trans known)
      simp [Lifecycle.installable, dying] at installable
    exact ⟨fields, (if_neg different).trans known, dying, empty⟩
  · exact ⟨fields, known, dying, empty⟩

theorem leaveOld_cpuContext {other : Fin 4} (elsewhere : other ≠ cpu) :
    (MmLifecycle.leaveOld life cpu).cpuContext other = life.cpuContext other := by
  unfold MmLifecycle.leaveOld
  split
  · rfl
  · split
    · rfl
    · simp [MmLifecycle.State.install, elsewhere, MmLifecycle.State.set]

theorem enterNew_cpuContext (target : Option Nat) {other : Fin 4} (elsewhere : other ≠ cpu) :
    (MmLifecycle.enterNew life cpu target).cpuContext other = life.cpuContext other := by
  unfold MmLifecycle.enterNew
  split
  · exact if_neg elsewhere
  · split
    · exact if_neg elsewhere
    · split <;> exact if_neg elsewhere

/-- A release the locked section decides on: the context was this CPU's, is dying and has no
other CPU, and it stays that way. -/
theorem releaseMm_some (release : releaseMm life cpu = some id) :
    ∃ mm, life.cpuContext cpu = some id ∧ life.mm id = some mm ∧ mm.dying = true ∧
      mm.activeCpuMask &&& ~~~cpuBit cpu = 0 := by
  obtain ⟨installed, leaves⟩ := Option.filter_eq_some_iff.mp release
  obtain ⟨mm, found, left⟩ := Option.map_eq_some_iff.mp (of_decide_eq_true leaves)
  have facts := of_decide_eq_true left
  exact ⟨mm, installed, found, facts.1, facts.2.2⟩

theorem doomed_of_releaseMm (release : releaseMm life cpu = some id) :
    Doomed (MmLifecycle.leaveOld life cpu) id := by
  obtain ⟨mm, installed, found, dying, empty⟩ := releaseMm_some cpu release
  refine ⟨(mm.leave cpu).2, ?_, dying, empty⟩
  unfold MmLifecycle.leaveOld
  rw [installed]
  dsimp only
  rw [found]
  show ((life.set id _).defer _ id).mm id = _
  rw [MmLifecycle.State.defer_mm, MmLifecycle.State.set_mm, if_pos rfl]

end Switch

/-- The software view and the registers: TTBR0 agrees with `mmu_cpu_context` once the write a
CPU still owes is counted in, and a context some CPU is going to release is doomed and in no
register except that CPU's own, until it has written it. -/
structure Aligned (s : State) : Prop where
  marked : Marked s.life
  register : ∀ cpu, s.life.cpuContext cpu = (s.rest cpu).write.getD (s.ttbr0 cpu)
  doomed : ∀ cpu id, (s.rest cpu).release = some id → Doomed s.life id ∧
    ∀ other, s.ttbr0 other = some id → other = cpu ∧ (s.rest cpu).write.isSome = true

theorem boot_aligned (mmuEnabled : Bool) : Aligned (.boot mmuEnabled) := by
  constructor
  · intro cpu id installed
    cases installed
  · intro cpu
    rfl
  · intro cpu id release
    cases release

variable {s : State} {cpu : Fin 4}

/-- A CPU with nothing left to write has its register in step with the software view. -/
theorem Aligned.settled (aligned : Aligned s) (written : (s.rest cpu).write = none) :
    s.ttbr0 cpu = s.life.cpuContext cpu := by
  rw [aligned.register cpu, written]
  rfl

/-- Steps outside the locked section of a switch. -/
theorem Aligned.keeps (aligned : Aligned s) (keeps : Keeps s.life next) :
    Aligned (s.withLife next) := by
  constructor
  · exact keeps.marked aligned.marked
  · intro cpu
    exact (congrFun keeps.cpus cpu).trans (aligned.register cpu)
  · intro cpu id release
    have before := aligned.doomed cpu id release
    exact ⟨keeps.doomed before.1, before.2⟩

@[simp] theorem setRest_rest (s : State) (cpu other : Fin 4) (rest : Rest) :
    (s.setRest cpu rest).rest other = if other = cpu then rest else s.rest other := rfl

@[simp] theorem load_rest (s : State) (cpu : Fin 4) (root : Option Nat) :
    (s.load cpu root).rest = s.rest := rfl

@[simp] theorem load_ttbr0 (s : State) (cpu other : Fin 4) (root : Option Nat) :
    (s.load cpu root).ttbr0 other = if other = cpu then root else s.ttbr0 other := rfl

/-- A context that is doomed after a locked section, with no CPU lingering on it before, is in
the register of no CPU that the section left alone. -/
theorem not_held (doomed : Doomed next id) (marked : Marked next)
    (same : next.cpuContext cpu = s.life.cpuContext cpu) (drained : ¬ s.Lingers cpu id) :
    s.ttbr0 cpu ≠ some id := by
  intro held
  apply drained
  exact ⟨held, same ▸ doomed.not_installed marked cpu⟩

theorem doomed_put (release : mm.put.1 = true) :
    mm.refs = 1 ∧ mm.activeCpuMask = 0 ∧ Doomed ((life.set id mm.put.2).defer mm.put.1 id) id := by
  have mask := put_mask mm
  have facts : mm.refs = 1 ∧ mm.activeCpuMask = 0 ∧ mm.put.2.dying = true := by
    unfold Lifecycle.put at release ⊢
    split at release
    · simp at release
    rename_i owned
    split at release
    · rename_i last
      rw [if_neg owned, if_pos last]
      exact ⟨by bv_omega, of_decide_eq_true release, rfl⟩
    · simp at release
  refine ⟨facts.1, facts.2.1, mm.put.2, ?_, facts.2.2, mask.trans facts.2.1⟩
  rw [MmLifecycle.State.defer_mm, MmLifecycle.State.set_mm, if_pos rfl]

theorem Aligned.put (aligned : Aligned s) (idle : s.rest cpu = .idle)
    (found : usable s.life id = some mm) (drained : Drained s (.put cpu id)) :
    Aligned ((s.withLife ((s.life.set id mm.put.2).defer mm.put.1 id)).setRest cpu
      { write := none, release := if mm.put.1 = true then some id else none }) := by
  have keeps : Keeps s.life ((s.life.set id mm.put.2).defer mm.put.1 id) :=
    keeps_step (.put id) (by simp [MmLifecycle.step, found]) nofun
  have kept := aligned.keeps keeps
  constructor
  · exact kept.marked
  · intro other
    rw [setRest_rest]
    by_cases same : other = cpu
    · subst same
      rw [if_pos rfl]
      exact (kept.settled (congrArg Rest.write idle)).symm
    · rw [if_neg same]
      exact kept.register other
  · intro other context release
    rw [setRest_rest] at release ⊢
    by_cases same : other = cpu
    · subst same
      rw [if_pos rfl] at release ⊢
      obtain ⟨decided, rfl⟩ := Transition.of_guard release
      obtain ⟨last, empty, doomed⟩ := doomed_put decided
      refine ⟨doomed, fun holder held => absurd held ?_⟩
      apply not_held doomed kept.marked (congrFun keeps.cpus holder)
      exact drained mm (mm_of_usable found) last empty holder
    · rw [if_neg same] at release ⊢
      exact kept.doomed other context release

theorem Aligned.switch (aligned : Aligned s) {target : Option Nat} (idle : s.rest cpu = .idle)
    (enabled : s.life.mmuEnabled = true) (drained : Drained s (.switch cpu target)) :
    Aligned ((s.withLife (MmLifecycle.contextSwitch s.life cpu target)).setRest cpu
      { write := some ((MmLifecycle.contextSwitch s.life cpu target).cpuContext cpu),
        release := releaseMm s.life cpu }) := by
  unfold MmLifecycle.contextSwitch
  rw [if_pos enabled]
  generalize entered : MmLifecycle.enterNew (MmLifecycle.leaveOld s.life cpu) cpu target = next
  have marked : Marked next := entered ▸ (aligned.marked.leaveOld cpu).enterNew cpu target
  have elsewhere : ∀ other, other ≠ cpu → next.cpuContext other = s.life.cpuContext other := by
    intro other different
    rw [← entered, enterNew_cpuContext cpu target different, leaveOld_cpuContext cpu different]
  constructor
  · exact marked
  · intro other
    rw [setRest_rest]
    by_cases same : other = cpu
    · rw [if_pos same, same]
      rfl
    · rw [if_neg same]
      exact (elsewhere other same).trans (aligned.register other)
  · intro other context release
    rw [setRest_rest] at release ⊢
    by_cases same : other = cpu
    · subst same
      rw [if_pos rfl] at release ⊢
      have doomed : Doomed next context :=
        entered ▸ (doomed_of_releaseMm other release).enterNew other target
      refine ⟨doomed, fun holder held => ?_⟩
      by_cases own : holder = other
      · exact ⟨own, rfl⟩
      · obtain ⟨mm, installed, found, dying, alone⟩ := releaseMm_some other release
        exact absurd held (not_held (s := s) doomed marked (elsewhere holder own)
          (drained context installed mm found dying alone holder))
    · rw [if_neg same] at release ⊢
      have before := aligned.doomed other context release
      exact ⟨entered ▸ (before.1.leaveOld cpu).enterNew cpu target, before.2⟩

theorem Aligned.setTtbr0 (aligned : Aligned s) {root : Option Nat}
    (owed : (s.rest cpu).write = some root) :
    Aligned ((s.load cpu root).setRest cpu
      { write := none, release := (s.rest cpu).release }) := by
  have value : s.life.cpuContext cpu = root := by
    rw [aligned.register cpu, owed]
    rfl
  constructor
  · exact aligned.marked
  · intro other
    show s.life.cpuContext other = _
    by_cases same : other = cpu
    · subst same
      simpa [State.setRest] using value
    · rw [aligned.register other]
      simp [State.setRest, same]
  · intro other context release
    have before : (s.rest other).release = some context := by
      by_cases same : other = cpu
      · subst same
        simpa using release
      · simpa [same] using release
    have doomed := aligned.doomed other context before
    refine ⟨doomed.1, fun holder held => ?_⟩
    -- the value just written is an installed context, so it is not the doomed one
    have elsewhere : holder ≠ cpu := by
      intro same
      subst same
      have written : root = some context := by simpa [State.setRest] using held
      exact doomed.1.not_installed aligned.marked holder (value.trans written)
    have unchanged : s.ttbr0 holder = some context := by
      simpa [State.setRest, elsewhere] using held
    obtain ⟨own, owes⟩ := doomed.2 holder unchanged
    rw [setRest_rest, if_neg (own ▸ elsewhere)]
    exact ⟨own, owes⟩

theorem Aligned.release (aligned : Aligned s)
    (due : s.rest cpu = { write := none, release := some id }) :
    Aligned ((s.withLife (contextRelease s.life id)).setRest cpu .idle) := by
  constructor
  · exact aligned.marked
  · intro other
    have before := aligned.register other
    rw [setRest_rest]
    by_cases same : other = cpu
    · subst same
      rw [due] at before
      rw [if_pos rfl]
      exact before
    · rw [if_neg same]
      exact before
  · intro other context release
    rw [setRest_rest] at release ⊢
    by_cases same : other = cpu
    · simp [same, Rest.idle] at release
    · rw [if_neg same] at release ⊢
      exact aligned.doomed other context release

theorem Aligned.step {r : State} {label : Label} (aligned : Aligned s) (drained : Drained s label)
    (taken : step s label = some r) : Aligned r := by
  cases label with
  | enableMmu =>
    cases taken
    exact aligned.keeps (keeps_step .enableMmu rfl nofun)
  | create id =>
    obtain ⟨next, moved, same⟩ := Option.map_eq_some_iff.mp taken
    exact same ▸ aligned.keeps (keeps_step _ moved nofun)
  | get id =>
    obtain ⟨next, moved, same⟩ := Option.map_eq_some_iff.mp taken
    exact same ▸ aligned.keeps (keeps_step _ moved nofun)
  | put cpu id =>
    obtain ⟨idle, taken⟩ := Option.ite_none_right_eq_some.mp taken
    obtain ⟨mm, found, taken⟩ := Option.bind_eq_some_iff.mp taken
    simp only [MmLifecycle.step, found, Option.map_some, Option.some.injEq] at taken
    exact taken ▸ aligned.put idle found drained
  | switch cpu target =>
    obtain ⟨idle, taken⟩ := Option.ite_none_right_eq_some.mp taken
    obtain ⟨next, moved, same⟩ := Option.map_eq_some_iff.mp taken
    have switched : next = MmLifecycle.contextSwitch s.life cpu target := by
      cases target with
      | none => exact (Option.some.inj moved).symm
      | some id =>
        obtain ⟨-, -, equal⟩ := Option.map_eq_some_iff.mp moved
        exact equal.symm
    subst switched
    by_cases enabled : s.life.mmuEnabled = true
    · rw [if_pos enabled] at same
      exact same ▸ aligned.switch idle enabled drained
    · rw [if_neg enabled] at same
      exact same ▸ aligned
  | setTtbr0 cpu =>
    obtain ⟨root, owed, same⟩ := Option.map_eq_some_iff.mp taken
    exact same ▸ aligned.setTtbr0 owed
  | release cpu id =>
    obtain ⟨due, same⟩ := Option.ite_none_right_eq_some.mp taken
    exact Option.some.inj same ▸ aligned.release due

/-- In a run whose steps are all drained, no TTBR0 register holds the root of a context at the
moment `mmu_context_release` starts to free its pages. -/
theorem run_ttbr0_clear {mmuEnabled : Bool} {s : State} {cpu : Fin 4} {id : Nat}
    (reached : Transition.Reachable (· = .boot mmuEnabled) step Drained s)
    (starts : (step s (.release cpu id)).isSome = true) (other : Fin 4) :
    s.ttbr0 other ≠ some id := by
  have aligned : Aligned s := reached.invariant
    (fun s (initial : s = .boot mmuEnabled) => initial ▸ boot_aligned mmuEnabled)
    fun s r label aligned drained taken => aligned.step drained taken
  intro held
  obtain ⟨r, taken⟩ := Option.isSome_iff_exists.mp starts
  have due := (Option.ite_none_right_eq_some.mp taken).1
  have owes := ((aligned.doomed cpu id (congrArg Rest.release due)).2 other held).2
  simp [due] at owes

/-- CPU 0 runs a context and gives it up, and CPU 1 drops the last reference. -/
def orderlyExit : List Label :=
  [.create 0, .switch 0 (some 0), .setTtbr0 0, .switch 0 none, .setTtbr0 0, .put 1 0]

theorem run_ttbr0_clear_orderlyExit :
    ∃ s, Transition.run step (.boot true) orderlyExit = some s ∧
      (step s (.release 1 0)).isSome = true ∧ ∀ other, s.ttbr0 other ≠ some 0 := by
  have guarded : Transition.Guarded step Drained (.boot true) orderlyExit := by decide +kernel
  refine Transition.ends_imp (Q := fun s => (step s (.release 1 0)).isSome = true)
    (by decide +kernel) ?_
  intro s ran starts
  exact ⟨starts, run_ttbr0_clear (.of_run _ (.start rfl) guarded ran) starts⟩

/-- CPU 0 has left the locked section of its switch and not written TTBR0 when CPU 1 drops
the last reference. -/
def putInWindow : List Label :=
  [.create 0, .switch 0 (some 0), .setTtbr0 0, .switch 0 none, .put 1 0]

/-- Both CPUs give up a dying context: CPU 1 does so last and is done with its own TTBR0 while
CPU 0 is not. -/
def switchInWindow : List Label :=
  [.create 0, .switch 0 (some 0), .setTtbr0 0, .switch 1 (some 0), .setTtbr0 1, .put 2 0,
    .switch 0 none, .switch 1 none, .setTtbr0 1]

/-- CPU 1 starts to free the tables of a context whose root is in the TTBR0 of CPU 0. -/
theorem run_ttbr0_window :
    (∃ s, Transition.run step (.boot true) putInWindow = some s ∧
      (step s (.release 1 0)).isSome = true ∧ s.ttbr0 0 = some 0) ∧
    ∃ s, Transition.run step (.boot true) switchInWindow = some s ∧
      (step s (.release 1 0)).isSome = true ∧ s.ttbr0 0 = some 0 := by
  decide +kernel

end OsArmv8a.MmTtbr
