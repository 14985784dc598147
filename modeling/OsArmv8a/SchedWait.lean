import OsArmv8a.SchedStep
import OsArmv8a.Lib.Transition

/-! Whether a task blocked in `sched_wait4` still has a child to wait for. -/

set_option autoImplicit false

namespace OsArmv8a.Sched

/-- The task is `BLOCKED` inside `sched_wait4(pid)`. -/
def State.WaitsFor (s : State) (w : Slot) (pid : Int) : Prop :=
  (s.tasks w).named = true ∧ (s.tasks w).state = .blocked ∧ s.waiting w = some pid

instance (s : State) (w : Slot) (pid : Int) : Decidable (s.WaitsFor w pid) :=
  inferInstanceAs (Decidable (_ ∧ _))

/-- Every blocked wait has a child that can still exit, and none that has. -/
def Attended (s : State) : Prop :=
  ∀ w pid, s.WaitsFor w pid →
    (∃ child, s.Matches w pid child ∧ (s.tasks child).alive = true) ∧
      ∀ child, s.Matches w pid child → (s.tasks child).state ≠ .zombie

/-- No wait is for this living task alone. -/
def State.Spared (s : State) (t : Slot) : Prop :=
  (s.tasks t).alive = true → ∀ w, ∀ pid ∈ s.waiting w, s.WaitsFor w pid → s.Matches w pid t →
    ∃ child, child ≠ t ∧ s.Matches w pid child ∧ (s.tasks child).alive = true

/-- Init is not waiting for a task with this one's id. -/
def State.Unawaited (s : State) (t : Slot) : Prop :=
  ∀ w, ∀ pid ∈ s.waiting w, s.WaitsFor w pid → some (s.tasks w).id = s.initTaskId →
    ¬ (pid ≤ 0 ∨ ((s.tasks t).id : Int) = pid)

instance (s : State) (t : Slot) : Decidable (s.Spared t) := by
  unfold State.Spared
  infer_instance

instance (s : State) (t : Slot) : Decidable (s.Unawaited t) := by
  unfold State.Unawaited
  infer_instance

/-- A task that is killed or changes its parent while it lives is not the only child a wait is for,
init is not waiting for the zombies it inherits, and `sched_wait4` does not block for children that
are all gone. -/
def Considerate (s : State) (label : Label) : Prop :=
  match label with
  | .schedule cpu => 4 ≤ (s.tasks (s.current cpu)).id →
      (s.tasks (s.current cpu)).killPending = true → s.Spared (s.current cpu)
  | .kill cpu id => ∀ t, s.findId (some id) = some t → t ≠ s.current cpu → 4 ≤ (s.tasks t).id →
      ¬ ((s.tasks t).state = .running ∧ (s.tasks t).currentCpu.isSome = true) → s.Spared t
  | .wait4 cpu pid => (∃ child, s.Matches (s.current cpu) pid child) →
      ∃ child, s.Matches (s.current cpu) pid child ∧
        ((s.tasks child).alive = true ∨ (s.tasks child).state = .zombie)
  | .exit cpu => ∀ z, z ≠ s.current cpu → (s.tasks z).named = true → (s.tasks z).state = .zombie →
      (s.tasks z).parentId = some (s.tasks (s.current cpu)).id → s.Unawaited z
  | .adopt t => s.Spared t ∧ ((s.tasks t).state = .zombie → s.Unawaited t)
  | .registerInit t => s.Spared t
  | _ => True

instance (s : State) (label : Label) : Decidable (Considerate s label) := by
  unfold Considerate
  rcases label with ⟨⟩ <;> infer_instance

section Waits

variable {s r : State} {cpu : Cpu} {t : Slot}

/-- What a step leaves of a task when it moves no child and blocks nobody in a wait. -/
def Quiet (s r : State) (u : Slot) : Prop :=
  (r.tasks u).named = (s.tasks u).named ∧ (r.tasks u).id = (s.tasks u).id ∧
    (r.tasks u).parentId = (s.tasks u).parentId ∧
    ((r.tasks u).state = .zombie → (s.tasks u).state = .zombie) ∧
    ((r.tasks u).state = .blocked → r.waiting u = none ∨
      (s.tasks u).state = .blocked ∧ r.waiting u = s.waiting u)

section

variable (inv : Attended s)

include inv

theorem Attended.carry (quiet : ∀ u, Quiet s r u) (children : ∀ w pid, s.WaitsFor w pid →
      (∃ child, s.Matches w pid child ∧ (s.tasks child).alive = true) →
      ∃ child, s.Matches w pid child ∧ (r.tasks child).alive = true) : Attended r := by
  unfold Quiet at quiet
  have matched : ∀ w pid child, r.Matches w pid child ↔ s.Matches w pid child := by
    intro w pid child
    unfold State.Matches
    grind
  intro w pid waits
  have before : s.WaitsFor w pid := by
    unfold State.WaitsFor at *
    grind
  obtain ⟨some, none⟩ := inv w pid before
  obtain ⟨child, has, alive⟩ := children w pid before some
  refine ⟨⟨child, (matched w pid child).mpr has, alive⟩, ?_⟩
  intro z has zombie
  exact none z ((matched w pid z).mp has) ((quiet z).2.2.2.1 zombie)

/-- A step that ends no child. -/
theorem Attended.quiet (quiet : ∀ u, Quiet s r u ∧
    ((s.tasks u).alive = true → (r.tasks u).alive = true)) : Attended r :=
  inv.carry (fun u => (quiet u).1)
    fun _ _ _ ⟨child, has, alive⟩ => ⟨child, has, (quiet child).2 alive⟩

/-- A step that ends one task. -/
theorem Attended.ending (spared : s.Spared t) (quiet : ∀ u, Quiet s r u ∧
    (u ≠ t → (s.tasks u).alive = true → (r.tasks u).alive = true)) : Attended r := by
  apply inv.carry (fun u => (quiet u).1)
  rintro w pid waits ⟨child, has, alive⟩
  by_cases ended : child = t
  · subst ended
    obtain ⟨other, distinct, hasOther, aliveOther⟩ := spared alive w pid waits.2.2 waits has
    exact ⟨other, hasOther, (quiet other).2 distinct aliveOther⟩
  · exact ⟨child, has, (quiet child).2 ended alive⟩

theorem Attended.park (outside : s.waiting t = none) : Attended (s.park t).2 := by
  apply inv.quiet
  intro u
  unfold Quiet
  rw [State.park_tasks, State.park_frame.waiting]
  unfold Task.parked Task.alive
  grind

theorem Attended.unpark : Attended (s.unpark t) := by
  apply inv.quiet
  intro u
  unfold Quiet
  rw [State.unpark_tasks, State.unpark_frame.waiting]
  unfold Task.unparked Task.readied Task.alive
  grind

theorem Attended.wake : Attended (s.wake t) := by
  apply inv.quiet
  intro u
  unfold Quiet
  rw [State.wake_tasks, State.wake_frame.waiting]
  unfold Task.woken Task.readied Task.alive
  grind

theorem Attended.sleepCurrent (ticks : Nat) (outside : s.waiting (s.current cpu) = none) :
    Attended (s.sleepCurrent cpu ticks) := by
  apply inv.quiet
  intro u
  unfold Quiet
  rw [State.sleepCurrent_tasks, (State.sleepCurrent_frame ticks).waiting]
  grind

theorem Attended.tick : Attended (s.tick cpu) := by
  apply inv.quiet
  intro u
  unfold Quiet
  rw [State.tick_tasks, State.tick_frame.waiting]
  unfold Task.ticked Task.readied Task.alive
  grind

theorem Attended.detach (dead : (s.tasks t).state = .dead) : Attended (s.detach t) := by
  have tasks : ∀ u, (s.detach t).tasks u =
    if u = t then { s.tasks t with state := .reaping } else s.tasks u := fun u => rfl
  apply inv.quiet
  intro u
  unfold Quiet
  rw [tasks, State.detach_frame.waiting]
  grind

theorem Attended.schedule (considerate : Considerate s (.schedule cpu)) :
    Attended (s.schedule cpu) := by
  obtain ⟨next, _, _, waiting, _, tasks⟩ := s.schedule_spec cpu
  have out := s.switchOut_tasks cpu
  have quiet : ∀ u, Quiet s (s.schedule cpu) u := by
    intro u
    unfold Quiet
    grind
  by_cases ended : 4 ≤ (s.tasks (s.current cpu)).id ∧ (s.tasks (s.current cpu)).killPending = true
  · apply inv.ending (considerate ended.1 ended.2)
    refine fun u => ⟨quiet u, ?_⟩
    grind
  · apply inv.quiet
    refine fun u => ⟨quiet u, ?_⟩
    grind

theorem Attended.kill (id : Nat) (considerate : Considerate s (.kill cpu id)) :
    Attended (s.kill cpu id) := by
  have quiet : ∀ u, Quiet s (s.kill cpu id) u := by
    intro u
    unfold Quiet
    rw [State.kill_tasks, (State.kill_frame id).waiting]
    grind
  by_cases ended : ∃ t, s.findId (some id) = some t ∧ t ≠ s.current cpu ∧ 4 ≤ (s.tasks t).id ∧
      ¬ ((s.tasks t).state = .running ∧ (s.tasks t).currentCpu.isSome = true)
  · obtain ⟨t, found, other, large, off⟩ := ended
    apply inv.ending (considerate t found other large off)
    refine fun u => ⟨quiet u, ?_⟩
    rw [State.kill_tasks]
    grind
  · apply inv.quiet
    refine fun u => ⟨quiet u, ?_⟩
    rw [State.kill_tasks]
    grind

/-- A task blocks in a wait that a child can still end. -/
theorem Attended.block (pid : Int)
    (tasks : ∀ u, r.tasks u = if u = t then { s.tasks t with state := .blocked } else s.tasks u)
    (waiting : ∀ u, r.waiting u = if u = t then some pid else s.waiting u)
    (living : ∃ child, s.Matches t pid child ∧ (s.tasks child).alive = true)
    (none : ∀ child, s.Matches t pid child → (s.tasks child).state ≠ .zombie) : Attended r := by
  have matched : ∀ w asked child, r.Matches w asked child ↔ s.Matches w asked child := by
    unfold State.Matches
    grind
  have alive : ∀ u, (s.tasks u).alive = true → (r.tasks u).alive = true := by
    grind
  have zombie : ∀ u, (r.tasks u).state = .zombie → (s.tasks u).state = .zombie := by grind
  intro w asked waits
  have attended : (∃ child, s.Matches w asked child ∧ (s.tasks child).alive = true) ∧
      ∀ child, s.Matches w asked child → (s.tasks child).state ≠ .zombie := by
    by_cases caller : w = t
    · have asks : asked = pid := by
        have new := waits.2.2
        rw [waiting, if_pos caller] at new
        exact (Option.some.inj new).symm
      rw [caller, asks]
      exact ⟨living, none⟩
    · apply inv w asked
      unfold State.WaitsFor at *
      grind
  obtain ⟨⟨child, has, live⟩, others⟩ := attended
  simp only [matched]
  exact ⟨⟨child, has, alive child live⟩, fun z has ended => others z has (zombie z ended)⟩

theorem Attended.wait4 (pid : Int) (considerate : Considerate s (.wait4 cpu pid)) :
    Attended (s.wait4 cpu pid) := by
  rcases s.wait4_cases cpu pid with ⟨child, _, zombie, same⟩ | ⟨none, some, same⟩ | same
  · rw [same]
    apply inv.quiet
    intro u
    unfold Quiet Task.alive
    simp only [State.setWaiting_tasks, State.setState_tasks, State.setWaiting_waiting,
      State.setState_waiting]
    grind
  · rw [same]
    obtain ⟨child, has, live⟩ := considerate some
    exact inv.block pid (fun u => rfl) (fun u => rfl)
      ⟨child, has, live.resolve_right (none child has)⟩ none
  · rw [same]
    apply inv.quiet
    intro u
    unfold Quiet
    simp only [State.setWaiting_tasks, State.setWaiting_waiting]
    grind

theorem Attended.clear (reaping : (s.tasks t).state = .reaping) : Attended (s.clear t) := by
  have tasks : ∀ u, (s.clear t).tasks u = if u = t then Task.cleared else s.tasks u := fun u => rfl
  intro w pid waits
  have waiter : w ≠ t ∧ s.WaitsFor w pid := by
    unfold State.WaitsFor at *
    rw [tasks, State.clear_frame.waiting] at waits
    grind
  obtain ⟨⟨child, has, alive⟩, none⟩ := inv w pid waiter.2
  unfold State.Matches at *
  grind

theorem Attended.create (user : Bool) : Attended (s.create user) := by
  have unused := fun u => @State.freeSlot_unused s u
  have tasks := s.create_tasks
  have waiting := s.create_waiting user
  intro w pid waits
  have waiter : s.freeSlot ≠ some w ∧ s.WaitsFor w pid := by
    unfold State.WaitsFor at *
    grind
  obtain ⟨⟨child, has, alive⟩, none⟩ := inv w pid waiter.2
  unfold State.Matches at *
  simp only [tasks]
  grind

/-- Only the parent of one task changes. -/
theorem Attended.reassign (parent : Option Nat) (waiting : r.waiting = s.waiting)
    (tasks : ∀ u, r.tasks u = if u = t then { s.tasks t with parentId := parent } else s.tasks u)
    (spared : (s.tasks t).parentId = none ∨ s.Spared t)
    (unawaited : (s.tasks t).state = .zombie → ∀ w, ∀ pid ∈ s.waiting w, s.WaitsFor w pid →
      some (s.tasks w).id = parent → ¬ (pid ≤ 0 ∨ ((s.tasks t).id : Int) = pid)) : Attended r := by
  have ids : ∀ u, (r.tasks u).named = (s.tasks u).named ∧ (r.tasks u).id = (s.tasks u).id ∧
      (r.tasks u).state = (s.tasks u).state := by grind
  have others : ∀ w pid u, u ≠ t → (r.Matches w pid u ↔ s.Matches w pid u) := by
    unfold State.Matches
    grind
  intro w pid waits
  have before : s.WaitsFor w pid := by
    unfold State.WaitsFor at *
    grind
  obtain ⟨⟨child, has, alive⟩, none⟩ := inv w pid before
  obtain ⟨other, distinct, hasOther, aliveOther⟩ : ∃ other, other ≠ t ∧ s.Matches w pid other ∧
      (s.tasks other).alive = true := by
    by_cases moved : child = t
    · subst moved
      rcases spared with orphan | spared
      · have parent := has.2.1
        rw [orphan] at parent
        cases parent
      · exact spared alive w pid before.2.2 before has
    · exact ⟨child, moved, has, alive⟩
  refine ⟨⟨other, (others w pid other distinct).mpr hasOther, ?_⟩, ?_⟩
  · unfold Task.alive at *
    rwa [(ids other).2.2]
  · intro z hasZ zombie
    rw [(ids z).2.2] at zombie
    by_cases moved : z = t
    · subst moved
      obtain ⟨_, parent', asked⟩ := hasZ
      rw [tasks, if_pos rfl] at parent' asked
      rw [(ids w).2.1] at parent'
      exact unawaited zombie w pid before.2.2 before parent'.symm asked
    · exact none z ((others w pid z moved).mp hasZ) zombie

end

/-- What the exit of the current task leaves of every other one. -/
theorem State.exit_others (s : State) (cpu : Cpu) (u : Slot) :
    ((s.exit cpu).tasks u).named = (s.tasks u).named ∧ ((s.exit cpu).tasks u).id = (s.tasks u).id ∧
      ((s.exit cpu).tasks u).parentId = (if (s.tasks u).named = true ∧
        (s.tasks u).parentId = some (s.tasks (s.current cpu)).id ∧ u ≠ s.current cpu then s.initTaskId
        else (s.tasks u).parentId) ∧
      (u ≠ s.current cpu → ((s.exit cpu).tasks u).state = (s.tasks u).state ∨
        (s.tasks u).state = .blocked ∧ ((s.exit cpu).tasks u).state = .ready) := by
  rw [State.exit_tasks, State.reparent_tasks]
  grind

/-- The parent of the exiting task is woken, and is the only one who waits for it. -/
theorem Attended.exit (inv : Attended s) (known : Identified s)
    (considerate : Considerate s (.exit cpu)) : Attended (s.exit cpu) := by
  have others := s.exit_others cpu
  intro w pid waits
  have self : w ≠ s.current cpu := by
    intro same
    have blocked := waits.2.1
    rw [State.exit_tasks, if_pos same] at blocked
    rcases s.finalState_cases w with dead | zombie
    · simp [dead] at blocked
    · simp [zombie] at blocked
  have before : s.WaitsFor w pid := by
    unfold State.WaitsFor at *
    rw [State.exit_frame.waiting] at waits
    grind
  have large : 4 ≤ (s.tasks w).id := known.waiters w before.1 (by rw [before.2.2]; rfl)
  have stranger : (s.tasks (s.current cpu)).parentId ≠ some (s.tasks w).id := by
    intro parent
    have blocked := waits.2.1
    rw [State.exit_tasks, if_neg self, parent, known.findId before.1, if_pos ⟨rfl, before.2.1⟩,
      State.reparent_tasks] at blocked
    grind
  have elsewhere : (s.tasks w).id ≠ (s.tasks (s.current cpu)).id := by
    intro same
    cases named : (s.tasks (s.current cpu)).named with
    | false => rw [same, known.unused _ named] at large; omega
    | true => exact self (known.unique _ _ before.1 named same)
  obtain ⟨⟨child, has, alive⟩, none⟩ := inv w pid before
  unfold State.Matches at *
  refine ⟨⟨child, ?_, ?_⟩, ?_⟩
  · grind
  · grind
  · -- A zombie among the children is an old one or comes from the exiting task.
    intro z hasZ zombie
    have notSelf : z ≠ s.current cpu := by grind
    have old : (s.tasks z).state = .zombie := by grind
    by_cases inherited : (s.tasks z).parentId = some (s.tasks (s.current cpu)).id
    · have free := considerate z notSelf (by grind) old inherited w pid before.2.2 before
      grind
    · grind

theorem Attended.step {label : Label} (inv : Attended s) (known : Identified s)
    (considerate : Considerate s label) (taken : step s label = some r) : Attended r := by
  obtain ⟨outside, taken⟩ := Option.ite_none_left_eq_some.mp taken
  cases label with
  | schedule cpu => cases taken; exact inv.schedule considerate
  | park cpu => cases taken; exact inv.park (by simpa [Label.caller] using outside)
  | unpark t => cases taken; exact inv.unpark
  | wake t => cases taken; exact inv.wake
  | sleep cpu ticks =>
    cases taken
    exact inv.sleepCurrent ticks (by simpa [Label.caller] using outside)
  | wait4 cpu pid =>
    obtain ⟨_, rfl⟩ := Transition.of_guard taken
    exact inv.wait4 pid considerate
  | tick cpu => cases taken; exact inv.tick
  | exit cpu => cases taken; exact inv.exit known considerate
  | kill cpu id => cases taken; exact inv.kill id considerate
  | detach t =>
    obtain ⟨⟨_, dead, _⟩, rfl⟩ := Transition.of_guard taken
    exact inv.detach dead
  | clear t =>
    obtain ⟨reaping, rfl⟩ := Transition.of_guard taken
    exact inv.clear reaping
  | create user => cases taken; exact inv.create user
  | registerInit t =>
    obtain ⟨_, rfl⟩ := Transition.of_guard taken
    unfold State.registerInit
    dsimp only
    split
    · exact inv
    · exact inv.reassign none rfl (fun u => rfl) (Or.inr considerate)
        fun _ w pid _ _ parent => nomatch parent
  | adopt t =>
    obtain ⟨_, rfl⟩ := Transition.of_guard taken
    unfold State.adopt
    dsimp only
    split
    · exact inv
    · exact inv.reassign s.initTaskId rfl (fun u => rfl) (Or.inr considerate.1) considerate.2
  | assignParent cpu t =>
    obtain ⟨⟨_, orphan, state⟩, rfl⟩ := Transition.of_guard taken
    refine inv.reassign _ rfl (fun u => rfl) (Or.inl orphan) fun zombie => ?_
    rw [zombie] at state
    simp at state

/-- What holds in every reached state. -/
structure Waited (s : State) : Prop where
  identified : Identified s
  attended : Attended s

theorem Waited.step {label : Label} (inv : Waited s) (considerate : Considerate s label)
    (taken : step s label = some r) : Waited r :=
  ⟨inv.identified.perform (Option.ite_none_left_eq_some.mp taken).2,
    inv.attended.step inv.identified considerate taken⟩

theorem init_waited : Waited init := by
  refine ⟨init_identified, ?_⟩
  intro w pid waits
  cases waits.2.2

end Waits

/-- A blocked wait has a child that can still exit and none that has, when no step takes the last
such child away. -/
theorem run_attended (s : State) (w : Slot) (pid : Int)
    (reached : Transition.Reachable (· = init) step Considerate s) (waits : s.WaitsFor w pid) :
    (∃ child, s.Matches w pid child ∧ (s.tasks child).state ≠ .zombie ∧
        (s.tasks child).state ≠ .dead ∧ (s.tasks child).state ≠ .reaping) ∧
      ∀ child, s.Matches w pid child → (s.tasks child).state ≠ .zombie := by
  have inv : Waited s := reached.invariant (fun s initial => initial ▸ init_waited)
    (fun s r label inv considerate taken => inv.step considerate taken)
  obtain ⟨⟨child, has, alive⟩, none⟩ := inv.attended w pid waits
  refine ⟨⟨child, has, none child has, ?_⟩, none⟩
  unfold Task.alive at alive
  simp only [decide_eq_true_eq] at alive
  exact ⟨alive.1, alive.2.2⟩

/-- Task 4 starts task 5 as its child and waits for any child. -/
def parentWaits : List Label :=
  [.create false, .schedule 0, .create true, .assignParent 0 5, .wake 5, .wait4 0 (-1), .schedule 0]

theorem run_attended_parent : ∃ s, Transition.run step init parentWaits = some s ∧
    s.WaitsFor 4 (-1) ∧ (∃ child, s.Matches 4 (-1) child ∧ (s.tasks child).state ≠ .zombie ∧
        (s.tasks child).state ≠ .dead ∧ (s.tasks child).state ≠ .reaping) ∧
      ∀ child, s.Matches 4 (-1) child → (s.tasks child).state ≠ .zombie := by
  have guarded : Transition.Guarded step Considerate init parentWaits := by decide +kernel
  refine Transition.ends_imp (Q := fun s => s.WaitsFor 4 (-1)) (by decide +kernel) ?_
  intro s ran waits
  exact ⟨waits, run_attended s 4 (-1) (.of_run _ (.start rfl) guarded ran) waits⟩

/-- Another task kills the child before it runs, and the reaper clears it. -/
def childKilled : List Label :=
  [.create false, .schedule 0, .create true, .assignParent 0 5, .wake 5, .wait4 0 (-1),
    .create false, .schedule 2, .kill 2 5, .detach 5, .clear 5]

/-- The parent is still `BLOCKED` in `sched_wait4(-1)`, without any child. -/
theorem run_attended_kill : ∃ s, Transition.run step init childKilled = some s ∧
    s.WaitsFor 4 (-1) ∧ ∀ child, ¬ s.Matches 4 (-1) child := by
  decide +kernel

end OsArmv8a.Sched
