import OsArmv8a.SchedStep
import OsArmv8a.Lib.Transition

/-! Whether every zombie still has a parent that can wait for it. -/

set_option autoImplicit false

namespace OsArmv8a.Sched

/-- `DEAD` and `REAPING` tasks make no further call. -/
def Task.gone (task : Task) : Bool := task.state = .dead ∨ task.state = .reaping

/-- The id names a task that is not gone. -/
def State.Names (s : State) (id : Option Nat) : Prop :=
  ∃ p, (s.tasks p).named = true ∧ some (s.tasks p).id = id ∧ (s.tasks p).gone = false

/-- A child that only a `sched_wait4` of this parent can collect. -/
def State.ZombieOf (s : State) (parent z : Slot) : Prop :=
  (s.tasks z).named = true ∧ (s.tasks z).state = .zombie ∧
    (s.tasks z).parentId = some (s.tasks parent).id

instance (s : State) (id : Option Nat) : Decidable (s.Names id) :=
  inferInstanceAs (Decidable (∃ _, _))

instance (s : State) (parent z : Slot) : Decidable (s.ZombieOf parent z) :=
  inferInstanceAs (Decidable (_ ∧ _))

/-- Every zombie can still be collected. -/
def Collectable (s : State) : Prop :=
  ∀ z, (s.tasks z).named = true → (s.tasks z).state = .zombie → s.Names (s.tasks z).parentId

/-- No step takes the parent of a zombie away: a task that is killed or collected has no zombie
child, one that exits has a living parent and leaves its zombies to a living init, and only a living
init adopts a zombie. -/
def KeepsParents (s : State) (label : Label) : Prop :=
  match label with
  | .exit cpu =>
    (∀ p, s.findId (s.tasks (s.current cpu)).parentId = some p → (s.tasks p).gone = false) ∧
      ∀ z, z ≠ s.current cpu → s.ZombieOf (s.current cpu) z →
        s.Names s.initTaskId ∧ s.initTaskId ≠ some (s.tasks (s.current cpu)).id
  | .kill cpu id => ∀ t, s.findId (some id) = some t → t ≠ s.current cpu → 4 ≤ (s.tasks t).id →
      (s.tasks t).alive = true →
      ¬ ((s.tasks t).state = .running ∧ (s.tasks t).currentCpu.isSome = true) → ∀ z, ¬ s.ZombieOf t z
  | .schedule cpu => 4 ≤ (s.tasks (s.current cpu)).id →
      (s.tasks (s.current cpu)).killPending = true → ∀ z, ¬ s.ZombieOf (s.current cpu) z
  | .wait4 cpu pid => ∀ child, s.Matches (s.current cpu) pid child →
      (s.tasks child).state = .zombie → ∀ z, ¬ s.ZombieOf child z
  | .adopt t => (s.tasks t).state = .zombie → s.initTaskId = none ∨ s.Names s.initTaskId
  | .registerInit t => (s.tasks t).state ≠ .zombie
  | _ => True

instance (s : State) (label : Label) : Decidable (KeepsParents s label) := by
  unfold KeepsParents
  rcases label with ⟨⟩ <;> infer_instance

section Zombies

variable {s r : State} {cpu : Cpu} {t : Slot}

section

variable (inv : Collectable s)

include inv

/-- A step after which every parent is still there, and every zombie is an old one or has a parent. -/
theorem Collectable.carry (parents : ∀ p, (s.tasks p).named = true → (s.tasks p).gone = false →
      ((r.tasks p).named = true ∧ (r.tasks p).id = (s.tasks p).id ∧ (r.tasks p).gone = false) ∨
        ∀ z, (r.tasks z).named = true → (r.tasks z).state = .zombie →
          (r.tasks z).parentId ≠ some (s.tasks p).id)
    (zombies : ∀ z, (r.tasks z).named = true → (r.tasks z).state = .zombie →
      ((s.tasks z).named = true ∧ (s.tasks z).state = .zombie ∧
        (r.tasks z).parentId = (s.tasks z).parentId) ∨ s.Names (r.tasks z).parentId) :
    Collectable r := by
  intro z named zombie
  have names : s.Names (r.tasks z).parentId := by
    rcases zombies z named zombie with ⟨old, before, same⟩ | names
    · rw [same]
      exact inv z old before
    · exact names
  obtain ⟨p, there, id, here⟩ := names
  rcases parents p there here with ⟨still, sameId, stays⟩ | none
  · exact ⟨p, still, sameId ▸ id, stays⟩
  · exact absurd id.symm (none z named zombie)

/-- A change of one task that keeps its name and parent, and neither ends it nor makes it a zombie. -/
theorem Collectable.kept (tasks : ∀ u, (r.tasks u).named = (s.tasks u).named ∧
    (r.tasks u).id = (s.tasks u).id ∧ (r.tasks u).parentId = (s.tasks u).parentId ∧
    ((r.tasks u).gone = true → (s.tasks u).gone = true) ∧
    ((r.tasks u).state = .zombie → (s.tasks u).state = .zombie)) : Collectable r := by
  apply inv.carry
  · grind
  · grind

theorem Collectable.park : Collectable (s.park t).2 := by
  apply inv.kept
  intro u
  rw [State.park_tasks]
  unfold Task.parked Task.gone
  grind

theorem Collectable.unpark : Collectable (s.unpark t) := by
  apply inv.kept
  intro u
  rw [State.unpark_tasks]
  unfold Task.unparked Task.readied Task.gone
  grind

theorem Collectable.wake : Collectable (s.wake t) := by
  apply inv.kept
  intro u
  rw [State.wake_tasks]
  unfold Task.woken Task.readied Task.gone
  grind

theorem Collectable.sleepCurrent (ticks : Nat) : Collectable (s.sleepCurrent cpu ticks) := by
  apply inv.kept
  intro u
  rw [State.sleepCurrent_tasks]
  unfold Task.slept Task.gone
  grind

theorem Collectable.tick : Collectable (s.tick cpu) := by
  apply inv.kept
  intro u
  rw [State.tick_tasks]
  unfold Task.ticked Task.readied Task.gone
  grind

theorem Collectable.schedule (keeps : KeepsParents s (.schedule cpu)) :
    Collectable (s.schedule cpu) := by
  obtain ⟨next, _, _, _, _, tasks⟩ := s.schedule_spec cpu
  have out := s.switchOut_tasks cpu
  unfold KeepsParents State.ZombieOf at keeps
  apply inv.carry
  · intro p named here
    by_cases ended : p = s.current cpu ∧ 4 ≤ (s.tasks p).id ∧ (s.tasks p).killPending = true
    · right
      intro z
      grind
    · left
      unfold Task.gone at here ⊢
      grind
  · intro z
    grind

theorem Collectable.wait4 (pid : Int) (keeps : KeepsParents s (.wait4 cpu pid)) :
    Collectable (s.wait4 cpu pid) := by
  unfold KeepsParents State.ZombieOf at keeps
  rcases s.wait4_cases cpu pid with ⟨child, matched, zombie, same⟩ | ⟨_, _, same⟩ | same
  · rw [same]
    have tasks : ∀ u, ((s.setState child .dead).setWaiting (s.current cpu) none).tasks u =
      if u = child then { s.tasks child with state := .dead } else s.tasks u := fun u => rfl
    apply inv.carry
    · intro p named here
      by_cases collected : p = child
      · right
        intro z
        grind
      · left
        rw [tasks, if_neg collected]
        exact ⟨named, rfl, here⟩
    · intro z
      grind
  · rw [same]
    apply inv.kept
    intro u
    rw [State.setWaiting_tasks, State.setState_tasks]
    unfold Task.gone
    grind
  · rw [same]
    exact inv

/-- The zombies of the exiting task go to init, and its parent can collect it. -/
theorem Collectable.exit (keeps : KeepsParents s (.exit cpu)) : Collectable (s.exit cpu) := by
  obtain ⟨parent, children⟩ := keeps
  have tasks := fun u => s.exit_tasks u cpu
  have moved := fun u => s.reparent_tasks (s.current cpu) u
  unfold State.ZombieOf at children
  apply inv.carry
  · intro p named here
    rw [tasks]
    by_cases self : p = s.current cpu
    · rcases s.finalState_cases p with dead | zombie
      · right
        intro z
        grind
      · left
        rw [if_pos self, zombie]
        exact ⟨named, rfl, rfl⟩
    · unfold Task.gone at *
      grind
  · intro z
    rw [tasks]
    by_cases self : z = s.current cpu
    · rw [if_pos self]
      intro _ zombie
      obtain ⟨p, found⟩ := State.finalState_zombie zombie
      obtain ⟨named, id⟩ := State.findId_spec found
      exact Or.inr ⟨p, named, id, parent p (self ▸ found)⟩
    · grind

theorem Collectable.kill (id : Nat) (keeps : KeepsParents s (.kill cpu id)) :
    Collectable (s.kill cpu id) := by
  unfold KeepsParents State.ZombieOf at keeps
  have zombies : ∀ z, ((s.kill cpu id).tasks z).named = true →
      ((s.kill cpu id).tasks z).state = .zombie → (s.tasks z).named = true ∧
        (s.tasks z).state = .zombie ∧ ((s.kill cpu id).tasks z).parentId = (s.tasks z).parentId := by
    intro z
    rw [State.kill_tasks]
    grind
  apply inv.carry
  · intro p named here
    by_cases found : s.findId (some id) = some p ∧ p ≠ s.current cpu
    · by_cases ended : 4 ≤ (s.tasks p).id ∧ (s.tasks p).alive = true ∧
          ¬ ((s.tasks p).state = .running ∧ (s.tasks p).currentCpu.isSome = true)
      · grind
      · rw [State.kill_tasks]
        unfold Task.gone at *
        grind
    · rw [State.kill_tasks, if_neg found]
      exact Or.inl ⟨named, rfl, here⟩
  · exact fun z named zombie => Or.inl (zombies z named zombie)

theorem Collectable.detach (dead : (s.tasks t).state = .dead) : Collectable (s.detach t) := by
  have tasks : ∀ u, (s.detach t).tasks u =
    if u = t then { s.tasks t with state := .reaping } else s.tasks u := fun u => rfl
  apply inv.kept
  intro u
  unfold Task.gone
  grind

theorem Collectable.clear (reaping : (s.tasks t).state = .reaping) : Collectable (s.clear t) := by
  have tasks : ∀ u, (s.clear t).tasks u = if u = t then Task.cleared else s.tasks u := fun u => rfl
  apply inv.carry
  · intro p named here
    unfold Task.gone at *
    grind
  · intro z
    grind

theorem Collectable.create (user : Bool) (fresh : 4 ≤ s.nextTaskId) :
    Collectable (s.create user) := by
  have unused := fun u => @State.freeSlot_unused s u
  apply inv.carry
  · intro p named here
    rw [State.create_tasks]
    grind
  · intro z
    rw [State.create_tasks]
    grind

/-- Only the parent of one task changes. -/
theorem Collectable.reassign (parent : Option Nat)
    (tasks : ∀ u, r.tasks u = if u = t then { s.tasks t with parentId := parent } else s.tasks u)
    (named : (s.tasks t).state = .zombie → s.Names parent) : Collectable r := by
  apply inv.carry
  · intro p there here
    unfold Task.gone at *
    grind
  · intro z
    grind

theorem Collectable.registerInit (live : (s.tasks t).state ≠ .zombie) :
    Collectable (s.registerInit t) := by
  unfold State.registerInit
  dsimp only
  split
  · exact inv
  · exact inv.reassign none (fun u => rfl) fun zombie => absurd zombie live

theorem Collectable.adopt (keeps : KeepsParents s (.adopt t)) : Collectable (s.adopt t) := by
  unfold State.adopt
  dsimp only
  split
  · exact inv
  · rename_i adopted
    refine inv.reassign s.initTaskId (fun u => rfl) fun zombie => ?_
    exact (keeps zombie).resolve_left fun none => adopted (Or.inr (Or.inl none))

theorem Collectable.step {label : Label} (fresh : 4 ≤ s.nextTaskId) (keeps : KeepsParents s label)
    (taken : step s label = some r) : Collectable r := by
  obtain ⟨_, taken⟩ := Option.ite_none_left_eq_some.mp taken
  cases label with
  | schedule cpu => cases taken; exact inv.schedule keeps
  | park cpu => cases taken; exact inv.park
  | unpark t => cases taken; exact inv.unpark
  | wake t => cases taken; exact inv.wake
  | sleep cpu ticks => cases taken; exact inv.sleepCurrent ticks
  | wait4 cpu pid =>
    obtain ⟨_, rfl⟩ := Transition.of_guard taken
    exact inv.wait4 pid keeps
  | tick cpu => cases taken; exact inv.tick
  | exit cpu => cases taken; exact inv.exit keeps
  | kill cpu id => cases taken; exact inv.kill id keeps
  | detach t =>
    obtain ⟨⟨_, dead, _⟩, rfl⟩ := Transition.of_guard taken
    exact inv.detach dead
  | clear t =>
    obtain ⟨reaping, rfl⟩ := Transition.of_guard taken
    exact inv.clear reaping
  | create user => cases taken; exact inv.create user fresh
  | registerInit t =>
    obtain ⟨_, rfl⟩ := Transition.of_guard taken
    exact inv.registerInit keeps
  | adopt t =>
    obtain ⟨_, rfl⟩ := Transition.of_guard taken
    exact inv.adopt keeps
  | assignParent cpu t =>
    obtain ⟨⟨_, _, state⟩, rfl⟩ := Transition.of_guard taken
    refine inv.reassign _ (fun u => rfl) fun zombie => ?_
    rw [zombie] at state
    simp at state

end

/-- What holds in every reached state. -/
structure Reapable (s : State) : Prop where
  fresh : 4 ≤ s.nextTaskId
  collectable : Collectable s

theorem Reapable.step {label : Label} (inv : Reapable s) (keeps : KeepsParents s label)
    (taken : step s label = some r) : Reapable r := by
  have performed := (Option.ite_none_left_eq_some.mp taken).2
  have counter := (perform_rest performed).counter
  have fresh := inv.fresh
  exact ⟨by omega, inv.collectable.step inv.fresh keeps taken⟩

theorem init_reapable : Reapable init := ⟨by decide, by unfold Collectable; decide⟩

end Zombies

/-- Some wait can still collect every zombie, when no step takes the parent of one away. -/
theorem run_collectable (s : State) (reached : Transition.Reachable (· = init) step KeepsParents s) :
    ∀ z, (s.tasks z).named = true → (s.tasks z).state = .zombie →
      ∃ p, (s.tasks p).named = true ∧ some (s.tasks p).id = (s.tasks z).parentId ∧
        (s.tasks p).state ≠ .dead ∧ (s.tasks p).state ≠ .reaping := by
  have inv : Reapable s := reached.invariant (fun s initial => initial ▸ init_reapable)
    (fun s r label inv keeps taken => inv.step keeps taken)
  intro z named zombie
  obtain ⟨p, there, id, here⟩ := inv.collectable z named zombie
  refine ⟨p, there, id, ?_⟩
  simpa [Task.gone] using here

/-- Task 4 starts task 5 as its child, which exits while its parent is there. -/
def childExit : List Label :=
  [.create false, .schedule 0, .create true, .assignParent 0 5, .wake 5, .schedule 1, .exit 1]

theorem run_collectable_child : ∃ s, Transition.run step init childExit = some s ∧
    (s.tasks 5).state = .zombie ∧ ∃ p, (s.tasks p).named = true ∧
      some (s.tasks p).id = (s.tasks 5).parentId ∧
      (s.tasks p).state ≠ .dead ∧ (s.tasks p).state ≠ .reaping := by
  have guarded : Transition.Guarded step KeepsParents init childExit := by decide +kernel
  refine Transition.ends_imp (Q := fun s => (s.tasks 5).named = true ∧ (s.tasks 5).state = .zombie)
    (by decide +kernel) ?_
  rintro s ran ⟨named, zombie⟩
  exact ⟨zombie, run_collectable s (.of_run _ (.start rfl) guarded ran) 5 named zombie⟩

/-- A third task kills the parent, which is reaped. -/
def parentKilled : List Label :=
  childExit ++ [.create false, .schedule 2, .kill 2 4, .schedule 0, .detach 4, .clear 4]

/-- No task has the id of the zombie's parent any more, and ids are not given out again. -/
theorem run_collectable_kill : ∃ s, Transition.run step init parentKilled = some s ∧
    (s.tasks 5).named = true ∧ (s.tasks 5).state = .zombie ∧
    ∀ p, (s.tasks p).named = true → some (s.tasks p).id ≠ (s.tasks 5).parentId := by
  decide +kernel

end OsArmv8a.Sched
