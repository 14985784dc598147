import OsArmv8a.SchedStep
import OsArmv8a.Lib.Transition

/-! Which CPU executes which task over whole runs of the scheduler. -/

set_option autoImplicit false

namespace OsArmv8a.Sched

/-- A task that is current on a CPU says so itself, so it is current on no other and is not reaped. -/
structure Coherent (s : State) : Prop where
  idle : ∀ cpu, (s.tasks (idleOf cpu)).named = true ∧ (s.tasks (idleOf cpu)).id < 4 ∧
    (s.tasks (idleOf cpu)).currentCpu = some cpu ∧ (s.tasks (idleOf cpu)).state ≠ .ready
  ids : ∀ t, (s.tasks t).named = true → (s.tasks t).id < 4 → ∃ cpu, t = idleOf cpu
  unnamed : ∀ t, (s.tasks t).named = false → (s.tasks t).state = .running
  reaping : ∀ t, (s.tasks t).state = .reaping → (s.tasks t).currentCpu = none
  current : ∀ cpu, (s.tasks (s.current cpu)).named = true ∧
    (s.tasks (s.current cpu)).currentCpu = some cpu
  fresh : 4 ≤ s.nextTaskId

/-- A change of a task that leaves its name, its id and its CPU alone. -/
structure Task.Kept (before after : Task) : Prop where
  named : after.named = before.named
  id : after.id = before.id
  currentCpu : after.currentCpu = before.currentCpu
  reaping : after.state = .reaping → before.state = .reaping
  ready : after.state = .ready → before.state = .ready ∨ 4 ≤ before.id
  unnamed : before.named = true ∨ after.state = before.state

section Coherence

variable {s r : State} {t : Slot} {cpu : Cpu}

/-- Every step but those that move a task between CPUs or slots. -/
theorem Coherent.kept (inv : Coherent s) (current : r.current = s.current)
    (kept : ∀ u, (s.tasks u).Kept (r.tasks u)) (next : s.nextTaskId ≤ r.nextTaskId) : Coherent r := by
  obtain ⟨idle, ids, unnamed, reaping, currents, fresh⟩ := inv
  refine ⟨?_, ?_, ?_, ?_, ?_, fresh.trans next⟩
  · intro c
    obtain ⟨named, small, cpu, unready⟩ := idle c
    rw [(kept _).named, (kept _).id, (kept _).currentCpu]
    refine ⟨named, small, cpu, fun ready => ?_⟩
    rcases (kept _).ready ready with old | large
    · exact unready old
    · omega
  · intro u named small
    rw [(kept u).named] at named
    rw [(kept u).id] at small
    exact ids u named small
  · intro u none
    rw [(kept u).named] at none
    rcases (kept u).unnamed with named | same
    · rw [named] at none
      cases none
    · rw [same]
      exact unnamed u none
  · intro u state
    rw [(kept u).currentCpu]
    exact reaping u ((kept u).reaping state)
  · intro c
    rw [current, (kept _).named, (kept _).currentCpu]
    exact currents c

theorem Task.Kept.refl (task : Task) : task.Kept task :=
  ⟨rfl, rfl, rfl, fun state => state, fun state => Or.inl state, Or.inr rfl⟩

section

variable (inv : Coherent s)

include inv

theorem Coherent.setTask {task : Task} (kept : (s.tasks t).Kept task) :
    Coherent (s.setTask t task) := by
  refine inv.kept (State.setTask_current s t task) ?_ le_rfl
  intro u
  by_cases same : u = t
  · subst same
    rw [State.setTask_tasks, if_pos rfl]
    exact kept
  · rw [State.setTask_tasks, if_neg same]
    exact Task.Kept.refl _

theorem Coherent.setState {state : TaskState} (named : (s.tasks t).named = true)
    (live : state ≠ .reaping) (ready : state ≠ .ready ∨ 4 ≤ (s.tasks t).id) :
    Coherent (s.setState t state) :=
  inv.setTask ⟨rfl, rfl, rfl, fun same => absurd same live,
    fun same => Or.inr (ready.resolve_left fun other => other same), Or.inl named⟩

theorem Coherent.setRq (rq : RunQueues) : Coherent (s.setRq rq) :=
  inv.kept rfl (fun _ => Task.Kept.refl _) le_rfl

theorem Coherent.setWaiting (pid : Option Int) : Coherent (s.setWaiting t pid) :=
  inv.kept rfl (fun _ => Task.Kept.refl _) le_rfl

theorem Coherent.makeReady (named : (s.tasks t).named = true) : Coherent (s.makeReady t) := by
  unfold State.makeReady
  split
  · exact inv
  · exact (inv.setState named (by decide) (by omega)).setRq _

theorem Coherent.named_of_state (other : (s.tasks t).state ≠ .running) :
    (s.tasks t).named = true := by
  by_contra unnamed
  exact other (inv.unnamed t (Bool.eq_false_of_not_eq_true unnamed))

theorem Coherent.named_of_blocked (blocked : (s.tasks t).state = .blocked) :
    (s.tasks t).named = true :=
  inv.named_of_state (by simp [blocked])

theorem Coherent.park (named : (s.tasks t).named = true) : Coherent (s.park t).2 := by
  unfold State.park
  dsimp only
  split
  · exact inv
  · split
    · split
      · exact inv.setTask ⟨rfl, rfl, rfl, fun same => same, fun same => Or.inl same, Or.inr rfl⟩
      · exact inv.setState named (by decide) (Or.inl (by decide))
    · exact inv

theorem Coherent.unpark : Coherent (s.unpark t) := by
  unfold State.unpark
  dsimp only
  split
  · rename_i blocked
    exact inv.makeReady (inv.named_of_blocked blocked.1)
  · split
    · exact inv.setTask ⟨rfl, rfl, rfl, fun same => same, fun same => Or.inl same, Or.inr rfl⟩
    · exact inv

theorem Coherent.wake : Coherent (s.wake t) := by
  unfold State.wake
  dsimp only
  split
  · rename_i blocked
    exact inv.makeReady (inv.named_of_blocked blocked.1)
  · exact inv

theorem Coherent.sleepCurrent (ticks : Nat) : Coherent (s.sleepCurrent cpu ticks) := by
  have named := (inv.current cpu).1
  unfold State.sleepCurrent
  dsimp only
  split
  · exact inv
  · have slept : Coherent (s.setTask (s.current cpu)
        { s.tasks (s.current cpu) with sleepTicks := ticks }) :=
      inv.setTask ⟨rfl, rfl, rfl, fun same => same, fun same => Or.inl same, Or.inr rfl⟩
    split
    · exact slept.makeReady (by simpa using named)
    · exact (slept.setRq _).setState (by simpa using named) (by decide) (Or.inl (by decide))

theorem Coherent.tickTask : Coherent (s.tickTask t) := by
  unfold State.tickTask
  dsimp only
  split
  · rename_i sleeping
    have slept :
    Coherent (s.setTask t { s.tasks t with sleepTicks := (s.tasks t).sleepTicks - 1 }) :=
      inv.setTask ⟨rfl, rfl, rfl, fun same => same, fun same => Or.inl same, Or.inr rfl⟩
    split
    · exact slept.makeReady (by simpa using sleeping.1)
    · exact slept
  · exact inv

theorem Coherent.tick : Coherent (s.tick cpu) := by
  unfold State.tick
  split
  · generalize List.finRange 32 = slots
    induction slots generalizing s with
    | nil => exact inv
    | cons t rest ih => exact ih inv.tickTask
  · exact inv

theorem Coherent.wait4 (pid : Int) : Coherent (s.wait4 cpu pid) := by
  unfold State.wait4
  dsimp only
  split
  · rename_i child found
    have named : s.Matches (s.current cpu) pid child ∧ (s.tasks child).state = .zombie := by
      simpa using List.find?_some found
    exact (inv.setState named.1.1 (by decide) (Or.inl (by decide))).setWaiting none
  · split
    · exact (inv.setState (inv.current cpu).1 (by decide) (Or.inl (by decide))).setWaiting (some pid)
    · exact inv.setWaiting none

theorem Coherent.reparent : Coherent (s.reparent t) := by
  refine inv.kept (show (s.reparent t).current = s.current from rfl) ?_ le_rfl
  intro u
  unfold State.reparent
  dsimp only
  split
  · exact ⟨rfl, rfl, rfl, fun same => same, fun same => Or.inl same, Or.inr rfl⟩
  · exact Task.Kept.refl _

theorem Coherent.exit : Coherent (s.exit cpu) := by
  have moved : Coherent (s.reparent (s.current cpu)) := inv.reparent
  have named : ((s.reparent (s.current cpu)).tasks (s.current cpu)).named = true := by
    rw [State.reparent_task]
    exact (inv.current cpu).1
  have ended : Coherent ((s.reparent (s.current cpu)).setState (s.current cpu)
      ((s.reparent (s.current cpu)).finalState (s.current cpu))) := by
    unfold State.finalState
    split
    · exact moved.setState named (by decide) (Or.inl (by decide))
    · exact moved.setState named (by decide) (Or.inl (by decide))
  unfold State.exit
  dsimp only
  split
  · exact ended
  · split
    · rename_i blocked
      exact ended.makeReady (ended.named_of_blocked blocked)
    · exact ended

theorem Coherent.kill (id : Nat) : Coherent (s.kill cpu id) := by
  unfold State.kill
  split
  · exact inv
  · rename_i t found
    have named : (s.tasks t).named = true ∧ some (s.tasks t).id = some id := by
      simpa using List.find?_some found
    dsimp only
    split
    · exact inv
    · split
      · exact inv.setTask ⟨rfl, rfl, rfl, fun same => same, fun same => Or.inl same, Or.inr rfl⟩
      · exact inv.setTask ⟨rfl, rfl, rfl, fun same => (nomatch same), fun same => (nomatch same), Or.inl named.1⟩

theorem Coherent.registerInit : Coherent (s.registerInit t) := by
  unfold State.registerInit
  dsimp only
  split
  · exact inv
  · have moved : Coherent (s.setTask t { s.tasks t with parentId := none }) :=
      inv.setTask ⟨rfl, rfl, rfl, fun same => same, fun same => Or.inl same, Or.inr rfl⟩
    exact moved.kept rfl (fun _ => Task.Kept.refl _) le_rfl

theorem Coherent.adopt : Coherent (s.adopt t) := by
  unfold State.adopt
  dsimp only
  split
  · exact inv
  · exact inv.setTask ⟨rfl, rfl, rfl, fun same => same, fun same => Or.inl same, Or.inr rfl⟩

theorem Coherent.assignParent : Coherent (s.assignParent cpu t) :=
  inv.setTask ⟨rfl, rfl, rfl, fun same => same, fun same => Or.inl same, Or.inr rfl⟩

/-- A task without a CPU is current nowhere. -/
theorem Coherent.not_current (off : (s.tasks t).currentCpu = none) : s.current cpu ≠ t := by
  intro same
  have on := (inv.current cpu).2
  rw [same, off] at on
  cases on

theorem Coherent.detach (named : (s.tasks t).named = true) (off : (s.tasks t).currentCpu = none) :
    Coherent (s.detach t) := by
  have task : ∀ u, (s.detach t).tasks u =
      if u = t then { s.tasks t with state := .reaping } else s.tasks u := fun u => rfl
  obtain ⟨idle, ids, unnamed, reaping, currents, fresh⟩ := inv
  refine ⟨?_, ?_, ?_, ?_, ?_, fresh⟩
  · grind
  · grind
  · grind
  · grind
  · intro c
    show ((s.detach t).tasks (s.current c)).named = true ∧
      ((s.detach t).tasks (s.current c)).currentCpu = some c
    grind

/-- A slot that is being reaped belongs to no CPU. -/
theorem Coherent.clear (state : (s.tasks t).state = .reaping) : Coherent (s.clear t) := by
  have task : ∀ u, (s.clear t).tasks u = if u = t then Task.cleared else s.tasks u := fun u => rfl
  obtain ⟨idle, ids, unnamed, reaping, currents, fresh⟩ := inv
  refine ⟨?_, ?_, ?_, ?_, ?_, fresh⟩
  · grind
  · grind
  · grind
  · grind
  · intro c
    show ((s.clear t).tasks (s.current c)).named = true ∧
      ((s.clear t).tasks (s.current c)).currentCpu = some c
    grind

/-- The slot of a new task, before it is queued. -/
theorem Coherent.occupy {task : Task} (unused : (s.tasks t).named = false)
    (named : task.named = true) (id : task.id = s.nextTaskId) (off : task.currentCpu = none)
    (current : r.current = s.current) (next : r.nextTaskId = s.nextTaskId + 1)
    (tasks : ∀ u, r.tasks u = if u = t then task else s.tasks u) : Coherent r := by
  obtain ⟨idle, ids, unnamed, reaping, currents, fresh⟩ := inv
  refine ⟨?_, ?_, ?_, ?_, ?_, by omega⟩
  · grind
  · grind
  · grind
  · grind
  · intro c
    rw [current]
    grind

theorem Coherent.create (user : Bool) : Coherent (s.create user) := by
  unfold State.create
  split
  · exact inv
  · rename_i t found
    have unused : 4 ≤ t.val ∧ (s.tasks t).named = false := by simpa using List.find?_some found
    split
    · exact inv.occupy unused.2 rfl rfl rfl rfl rfl fun u => rfl
    · apply Coherent.makeReady
      · exact inv.occupy unused.2 rfl rfl rfl rfl rfl fun u => rfl
      · simp

end

theorem Task.switchedOut_fields (task : Task) : task.switchedOut.named = task.named ∧
    task.switchedOut.id = task.id ∧ task.switchedOut.currentCpu = none ∧
    (task.switchedOut.state = .reaping → task.state = .reaping) := by
  unfold Task.switchedOut Task.consumeKill
  split
  · simp
  · refine ⟨rfl, rfl, rfl, ?_⟩
    split
    · exact fun same => nomatch same
    · exact fun same => same

/-- The incoming task must not be current elsewhere: this is what the rest of the scheduler does not
ensure. -/
theorem Coherent.schedule (inv : Coherent s)
    (free : ∀ t, s.rq.Queued t → (s.tasks t).state = .ready → ∀ other, other ≠ cpu →
      s.current other ≠ t) : Coherent (s.schedule cpu) := by
  obtain ⟨next, chosen, current, _, counters, tasks⟩ := s.schedule_spec cpu
  have frame := (Prod.mk.inj counters).1
  have out := s.switchOut_tasks cpu
  obtain ⟨keptName, keptId, off, keptReaping⟩ := (s.tasks (s.current cpu)).switchedOut_fields
  have queued := fun u => @State.switchOut_queued s cpu u
  obtain ⟨idle, ids, unnamed, reaping, currents, fresh⟩ := inv
  have idleHere := idle cpu
  have stays : ∀ c, (s.switchOut cpu).tasks (idleOf c) = s.tasks (idleOf c) := by
    intro c
    rw [out, if_neg]
    rintro ⟨same, large⟩
    rw [← same] at large
    exact large (idle c).2.1
  have taken : ∀ c, idleOf c = next → c = cpu := by grind
  refine ⟨?_, ?_, ?_, ?_, ?_, ?_⟩
  · intro c
    rw [tasks, stays]
    by_cases picked : idleOf c = next
    · rw [if_pos picked, ← picked, stays, taken c picked]
      exact ⟨idleHere.1, idleHere.2.1, rfl, nofun⟩
    · rw [if_neg picked]
      exact idle c
  · grind
  · grind
  · grind
  · intro other
    by_cases same : other = cpu
    · grind
    · grind
  · rwa [frame]

theorem init_coherent : Coherent init := by
  refine ⟨?_, ?_, ?_, ?_, ?_, ?_⟩
  · decide
  · decide
  · decide
  · decide
  · decide
  · decide

/-- Every step but `schedule` keeps the CPUs coherent. -/
theorem Coherent.perform {label : Label} (inv : Coherent s)
    (picks : ∀ cpu, label = .schedule cpu → ∀ t, s.rq.Queued t → (s.tasks t).state = .ready →
      ∀ other, other ≠ cpu → s.current other ≠ t)
    (taken : perform s label = some r) : Coherent r := by
  cases label with
  | schedule cpu => cases taken; exact inv.schedule (picks cpu rfl)
  | park cpu => cases taken; exact inv.park (inv.current cpu).1
  | unpark t => cases taken; exact inv.unpark
  | wake t => cases taken; exact inv.wake
  | sleep cpu ticks => cases taken; exact inv.sleepCurrent ticks
  | wait4 cpu pid =>
    obtain ⟨_, rfl⟩ := Transition.of_guard taken
    exact inv.wait4 pid
  | tick cpu => cases taken; exact inv.tick
  | exit cpu => cases taken; exact inv.exit
  | kill cpu id => cases taken; exact inv.kill id
  | detach t =>
    obtain ⟨⟨_, dead, off⟩, rfl⟩ := Transition.of_guard taken
    exact inv.detach (inv.named_of_state (by simp [dead])) off
  | clear t =>
    obtain ⟨reaping, rfl⟩ := Transition.of_guard taken
    exact inv.clear reaping
  | create user => cases taken; exact inv.create user
  | registerInit t =>
    obtain ⟨_, rfl⟩ := Transition.of_guard taken
    exact inv.registerInit
  | adopt t =>
    obtain ⟨_, rfl⟩ := Transition.of_guard taken
    exact inv.adopt
  | assignParent cpu t =>
    obtain ⟨_, rfl⟩ := Transition.of_guard taken
    exact inv.assignParent

end Coherence

/-- A task is made `READY` only after the `schedule` step that took it off its CPU. -/
def SwitchedOut (s : State) (label : Label) : Prop :=
  ∀ t, Wakes s label t → ∀ cpu, s.current cpu ≠ t

instance (s : State) (label : Label) : Decidable (SwitchedOut s label) :=
  inferInstanceAs (Decidable (∀ t, Wakes s label t → ∀ cpu, s.current cpu ≠ t))

section Ready

variable {s r : State}

/-- `READY` tasks are current nowhere, so `schedule` picks none that another CPU executes. -/
structure Settled (s : State) : Prop where
  coherent : Coherent s
  ready : ∀ t, (s.tasks t).state = .ready → ∀ cpu, s.current cpu ≠ t

theorem Settled.schedule {cpu : Cpu} (inv : Settled s) : Settled (s.schedule cpu) := by
  have coherent : Coherent (s.schedule cpu) :=
    inv.coherent.schedule fun t _ ready other _ => inv.ready t ready other
  refine ⟨coherent, ?_⟩
  intro t ready other same
  obtain ⟨next, _, current, _, _, tasks⟩ := s.schedule_spec cpu
  have off : t ≠ next := by
    intro picked
    rw [tasks, if_pos picked] at ready
    cases ready
  rw [tasks, if_neg off, State.switchOut_tasks] at ready
  simp only [current] at same
  by_cases here : other = cpu
  · rw [if_pos here] at same
    exact off same.symm
  · rw [if_neg here] at same
    split at ready
    · -- The outgoing task is current on its own CPU only.
      rename_i outgoing
      have mine := (inv.coherent.current cpu).2
      have other' := (inv.coherent.current other).2
      rw [same, outgoing.1, mine] at other'
      exact here (Option.some.inj other').symm
    · exact inv.ready t ready other same

theorem Settled.step {label : Label} (inv : Settled s) (settled : SwitchedOut s label)
    (taken : step s label = some r) : Settled r := by
  obtain ⟨_, taken⟩ := Option.ite_none_left_eq_some.mp taken
  by_cases switch : ∃ cpu, label = .schedule cpu
  · obtain ⟨cpu, rfl⟩ := switch
    cases taken
    exact inv.schedule
  · have stay : ∀ cpu, label ≠ .schedule cpu := fun cpu same => switch ⟨cpu, same⟩
    refine ⟨inv.coherent.perform (fun cpu same => absurd same (stay cpu)) taken, ?_⟩
    intro t now cpu
    rw [(perform_rest taken).current stay]
    rcases ready_of_perform stay taken now with old | woken | unused
    · exact inv.ready t old cpu
    · exact settled t woken cpu
    · intro same
      have named := (inv.coherent.current cpu).1
      rw [same, unused] at named
      cases named

end Ready

/-- A task is created, parks, is switched out, woken, and goes to another CPU. -/
def migration : List Label :=
  [.create false, .schedule 0, .park 0, .schedule 0, .unpark 4, .schedule 1]

/-- The wake-up comes between the park and the switch. -/
def earlyWake : List Label := [.create false, .schedule 0, .park 0, .unpark 4, .schedule 1]

section Ids

variable {s r : State} {u : Slot}

/-- A task that has an old id has kept it. -/
theorem run_kept (labels : List Label) : ∀ {s : State}, Transition.run step s labels = some r →
    (r.tasks u).named = true → (r.tasks u).id < s.nextTaskId →
    (s.tasks u).named = true ∧ (s.tasks u).id = (r.tasks u).id := by
  induction labels with
  | nil =>
    intro s ran named _
    cases ran
    exact ⟨named, rfl⟩
  | cons label rest ih =>
    intro s ran named old
    obtain ⟨q, taken, later⟩ := Option.bind_eq_some_iff.mp ran
    have performed := (Option.ite_none_left_eq_some.mp taken).2
    have counter := (perform_rest performed).counter
    obtain ⟨namedQ, idQ⟩ := ih later named (by omega)
    rcases perform_names performed u with ⟨name, id⟩ | ⟨-, cleared⟩ | ⟨-, -, id, -⟩
    · exact ⟨name ▸ namedQ, id ▸ idQ⟩
    · rw [cleared] at namedQ
      cases namedQ
    · omega

theorem reachable_identified
    (reached : Transition.Reachable (· = init) step Transition.always s) : Identified s :=
  reached.invariant (fun _ initial => initial ▸ init_identified)
    (fun _ _ _ inv _ taken => inv.perform (Option.ite_none_left_eq_some.mp taken).2)

end Ids

/-- Task 4 exits and is reaped, and the next task gets its slot but not its id. -/
def slotReuse : List Label :=
  [.schedule 0, .exit 0, .schedule 0, .detach 4, .clear 4, .create false]

end OsArmv8a.Sched
