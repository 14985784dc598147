import OsArmv8a.Sched

/-! What each critical section of the scheduler does to every task. -/

set_option autoImplicit false

namespace OsArmv8a.Sched

section Fields

variable (s : State) (t u : Slot)

@[simp] theorem State.setTask_tasks (task : Task) :
    (s.setTask t task).tasks u = if u = t then task else s.tasks u := rfl

@[simp] theorem State.setTask_current (task : Task) : (s.setTask t task).current = s.current := rfl

@[simp] theorem State.setTask_waiting (task : Task) : (s.setTask t task).waiting = s.waiting := rfl

@[simp] theorem State.setTask_rq (task : Task) : (s.setTask t task).rq = s.rq := rfl

@[simp] theorem State.setRq_tasks (rq : RunQueues) : (s.setRq rq).tasks = s.tasks := rfl

@[simp] theorem State.setRq_current (rq : RunQueues) : (s.setRq rq).current = s.current := rfl

@[simp] theorem State.setRq_waiting (rq : RunQueues) : (s.setRq rq).waiting = s.waiting := rfl

@[simp] theorem State.setRq_rq (rq : RunQueues) : (s.setRq rq).rq = rq := rfl

@[simp] theorem State.setWaiting_tasks (pid : Option Int) : (s.setWaiting t pid).tasks = s.tasks := rfl

@[simp] theorem State.setWaiting_current (pid : Option Int) :
    (s.setWaiting t pid).current = s.current := rfl

@[simp] theorem State.setWaiting_waiting (pid : Option Int) :
    (s.setWaiting t pid).waiting u = if u = t then pid else s.waiting u := rfl

@[simp] theorem State.setState_tasks (state : TaskState) :
    (s.setState t state).tasks u = if u = t then { s.tasks t with state := state } else s.tasks u := rfl

@[simp] theorem State.setState_current (state : TaskState) :
    (s.setState t state).current = s.current := rfl

@[simp] theorem State.setState_waiting (state : TaskState) :
    (s.setState t state).waiting = s.waiting := rfl

@[simp] theorem State.setCurrent_tasks (cpu : Cpu) : (s.setCurrent cpu t).tasks = s.tasks := rfl

@[simp] theorem State.setCurrent_current (cpu other : Cpu) :
    (s.setCurrent cpu t).current other = if other = cpu then t else s.current other := rfl

theorem State.makeReady_tasks : (s.makeReady t).tasks u =
    if u = t ∧ ¬ (s.tasks t).id < 4 then { s.tasks t with state := .ready } else s.tasks u := by
  unfold State.makeReady
  by_cases idle : (s.tasks t).id < 4
  · simp [idle]
  · by_cases same : u = t <;> simp [idle, same]

@[simp] theorem State.makeReady_current : (s.makeReady t).current = s.current := by
  unfold State.makeReady
  split <;> rfl

@[simp] theorem State.makeReady_waiting : (s.makeReady t).waiting = s.waiting := by
  unfold State.makeReady
  split <;> rfl

end Fields

section Picking

variable {ready : Slot → Bool} {cpu : Cpu} {rq rest : RunQueues} {t : Slot}

/-- The slots on any run queue. -/
def RunQueues.Queued (rq : RunQueues) (t : Slot) : Prop := ∃ cpu, t ∈ rq.queue cpu

theorem RunQueues.dequeue_spec (rq : RunQueues) (cpu : Cpu) :
    (∀ t ∈ (rq.dequeue cpu).1, rq.Queued t) ∧ ∀ t, (rq.dequeue cpu).2.Queued t → rq.Queued t := by
  unfold RunQueues.dequeue
  split
  · exact ⟨fun t none => (nomatch none), fun t queued => queued⟩
  · rename_i t others queue
    refine ⟨?_, ?_⟩
    · intro u first
      cases first
      exact ⟨cpu, by simp [queue]⟩
    · rintro u ⟨c, member⟩
      refine ⟨c, ?_⟩
      have inside : u ∈ if c = cpu then others else rq.queue c := member
      split at inside
      · rename_i same
        rw [same, queue]
        exact List.mem_cons_of_mem t inside
      · exact inside

theorem RunQueues.popReady_spec (ready : Slot → Bool) (cpu : Cpu) (fuel : Nat) (rq : RunQueues) :
    (∀ t ∈ (popReady ready cpu fuel rq).1, ready t = true ∧ rq.Queued t) ∧
      ∀ t, (popReady ready cpu fuel rq).2.Queued t → rq.Queued t := by
  induction fuel generalizing rq with
  | zero => exact ⟨fun t none => (nomatch none), fun t queued => queued⟩
  | succ fuel ih =>
    obtain ⟨first, rest⟩ := RunQueues.dequeue_spec rq cpu
    unfold popReady
    cases taken : rq.dequeue cpu with
    | mk popped other =>
      rw [taken] at first rest
      cases popped with
      | none => exact ⟨fun t none => (nomatch none), rest⟩
      | some t =>
        by_cases chosen : ready t = true
        · simp only [chosen, if_true]
          refine ⟨?_, rest⟩
          intro u same
          cases same
          exact ⟨chosen, first t rfl⟩
        · simp only [chosen]
          obtain ⟨picked, kept⟩ := ih other
          exact ⟨fun u member => ⟨(picked u member).1, rest u (picked u member).2⟩,
            fun u queued => rest u (kept u queued)⟩

/-- The picked task was `READY` on some queue. -/
theorem RunQueues.pickNext_spec (ready : Slot → Bool) (rq : RunQueues) (cpu : Cpu) :
    ∀ t ∈ (pickNext ready rq cpu).1, ready t = true ∧ rq.Queued t := by
  obtain ⟨picked, kept⟩ := popReady_spec ready cpu ((rq.queue cpu).length + 1) rq
  unfold pickNext
  cases own : popReady ready cpu ((rq.queue cpu).length + 1) rq with
  | mk popped other =>
    rw [own] at picked kept
    cases popped with
    | some t => exact picked
    | none =>
      dsimp only
      split
      · exact fun t none => nomatch none
      · obtain ⟨stolen, _⟩ := popReady_spec ready (other.busiest cpu)
          ((other.queue (other.busiest cpu)).length + 1) other
        split
        · rename_i t last theft
          rw [theft] at stolen
          intro u same
          obtain ⟨chosen, queued⟩ := stolen u same
          exact ⟨chosen, kept u queued⟩
        · exact fun t none => nomatch none

end Picking

/-- An outgoing task: killed, back in the queue, or as it was. -/
@[grind] def Task.switchedOut (task : Task) : Task :=
  { task.consumeKill with
    state := if task.consumeKill.state = .running then .ready else task.consumeKill.state
    currentCpu := none }

theorem Task.consumeKill_id (task : Task) : task.consumeKill.id = task.id := by
  unfold Task.consumeKill
  split <;> rfl

theorem State.switchOut_tasks (s : State) (cpu : Cpu) (u : Slot) :
    (s.switchOut cpu).tasks u = if u = s.current cpu ∧ ¬ (s.tasks (s.current cpu)).id < 4 then
      (s.tasks (s.current cpu)).switchedOut else s.tasks u := by
  unfold State.switchOut Task.switchedOut
  dsimp only
  rw [← Task.consumeKill_id (s.tasks (s.current cpu))]
  generalize (s.tasks (s.current cpu)).consumeKill = prev
  by_cases idle : prev.id < 4
  · simp [idle]
  · by_cases running : prev.state = .running <;> by_cases same : u = s.current cpu <;>
      simp [idle, running, same]

theorem State.switchOut_frame (s : State) (cpu : Cpu) :
    (s.switchOut cpu).current = s.current ∧ (s.switchOut cpu).waiting = s.waiting ∧
      ((s.switchOut cpu).nextTaskId, (s.switchOut cpu).initTaskId) = (s.nextTaskId, s.initTaskId) := by
  unfold State.switchOut
  dsimp only
  generalize (s.tasks (s.current cpu)).consumeKill = prev
  by_cases idle : prev.id < 4
  · simp [idle]
  · by_cases running : prev.state = .running <;>
      simp [idle, running, State.setRq, State.setTask]

theorem RunQueues.enqueue_queued {rq : RunQueues} {id : Nat} {t u : Slot} {cpu : Cpu}
    (queued : (rq.enqueue id t cpu).Queued u) : rq.Queued u ∨ u = t := by
  unfold RunQueues.enqueue at queued
  split at queued
  · exact Or.inl queued
  · obtain ⟨c, member⟩ := queued
    have inside : u ∈ if c = cpu then rq.queue cpu ++ [t] else rq.queue c := member
    split at inside
    · rcases List.mem_append.mp inside with old | new
      · exact Or.inl ⟨cpu, old⟩
      · exact Or.inr (List.mem_singleton.mp new)
    · exact Or.inl ⟨c, inside⟩

theorem State.switchOut_queued {s : State} {cpu : Cpu} {u : Slot}
    (queued : (s.switchOut cpu).rq.Queued u) : s.rq.Queued u ∨ u = s.current cpu := by
  unfold State.switchOut at queued
  dsimp only at queued
  generalize (s.tasks (s.current cpu)).consumeKill = prev at queued
  by_cases idle : prev.id < 4
  · simp only [idle, if_true] at queued
    exact Or.inl queued
  · by_cases running : prev.state = .running
    · simp only [idle, running, if_true, if_false] at queued
      exact RunQueues.enqueue_queued queued
    · simp only [idle, running, if_false] at queued
      exact Or.inl queued

/-- The idle task of a CPU. -/
def idleOf (cpu : Cpu) : Slot := Fin.castLE (show 3 < 32 by decide) cpu

/-- What `schedule` changes: the outgoing task leaves its CPU, the incoming one, which is a queued
`READY` task or the idle task, takes it. -/
theorem State.schedule_spec (s : State) (cpu : Cpu) :
    ∃ next, (next = idleOf cpu ∨
        ((s.switchOut cpu).tasks next).state = .ready ∧ (s.switchOut cpu).rq.Queued next) ∧
      (s.schedule cpu).current = (fun other => if other = cpu then next else s.current other) ∧
      (s.schedule cpu).waiting = s.waiting ∧
      ((s.schedule cpu).nextTaskId, (s.schedule cpu).initTaskId) = (s.nextTaskId, s.initTaskId) ∧
      ∀ u, (s.schedule cpu).tasks u = if u = next then
          { (s.switchOut cpu).tasks next with state := .running, currentCpu := some cpu }
        else (s.switchOut cpu).tasks u := by
  have spec := RunQueues.pickNext_spec (fun t => ((s.switchOut cpu).tasks t).state = .ready)
    (s.switchOut cpu).rq cpu
  obtain ⟨current, waiting, frame⟩ := s.switchOut_frame cpu
  unfold State.schedule
  cases picked : RunQueues.pickNext (fun t => ((s.switchOut cpu).tasks t).state = .ready)
      (s.switchOut cpu).rq cpu with
  | mk chosen rq =>
    rw [picked] at spec
    dsimp only
    rw [picked]
    refine ⟨chosen.getD (Fin.castLE (by decide) cpu), ?_, ?_, ?_, frame, fun u => rfl⟩
    · cases chosen with
      | none => exact Or.inl rfl
      | some t =>
        obtain ⟨ready, queued⟩ := spec t rfl
        exact Or.inr ⟨of_decide_eq_true ready, queued⟩
    · rw [← current]
      rfl
    · exact waiting

theorem State.reparent_task (s : State) (t : Slot) : (s.reparent t).tasks t = s.tasks t := by
  simp [State.reparent]

/-- `sched_make_ready_locked` on the task itself. -/
@[grind] def Task.readied (task : Task) : Task :=
  if task.id < 4 then task else { task with state := .ready }

/-- `sched_park_task` on the task itself. -/
@[grind] def Task.parked (task : Task) : Task :=
  if task.id < 4 then task
  else if task.alive = true ∧ task.killPending = false then
    if task.wakePending = true then { task with wakePending := false } else { task with state := .blocked }
  else task

/-- `sched_unpark_task` on the task itself. -/
@[grind] def Task.unparked (task : Task) : Task :=
  if task.state = .blocked ∧ task.killPending = false then task.readied
  else if task.alive = true ∧ task.killPending = false then { task with wakePending := true }
  else task

/-- `sched_wake_task` on the task itself. -/
@[grind] def Task.woken (task : Task) : Task :=
  if task.state = .blocked ∧ task.killPending = false then task.readied else task

/-- `sched_sleep_current` on the task itself. -/
@[grind] def Task.slept (task : Task) (ticks : Nat) : Task :=
  if task.id < 4 ∨ task.alive = false ∨ task.killPending = true then task
  else { task with sleepTicks := ticks, state := if ticks = 0 then .ready else .blocked }

/-- A round of `sched_tick` on the task itself. -/
@[grind] def Task.ticked (task : Task) : Task :=
  if task.named = true ∧ task.state = .blocked ∧ 0 < task.sleepTicks then
    if task.sleepTicks = 1 then { task with sleepTicks := 0 }.readied
    else { task with sleepTicks := task.sleepTicks - 1 }
  else task

/-- `sched_kill_task` on the task it finds, another one than the caller's. -/
@[grind] def Task.killed (task : Task) : Task :=
  if task.id < 4 ∨ task.alive = false then task
  else if task.state = .running ∧ task.currentCpu.isSome = true then { task with killPending := true }
  else { task with state := .dead, sleepTicks := 0, wakePending := false }

/-- A task once `sched_lock` is released by the call that has created it. -/
@[grind] def Task.created (slot : Task) (id : Nat) (user : Bool) : Task :=
  let task := { slot with
    named := true, id := id, currentCpu := none, parentId := none,
    state := if user = true then .blocked else slot.state }
  if user = true then task else task.readied

section Effects

variable (s : State) (t u : Slot) (cpu : Cpu)

theorem State.makeReady_readied :
    (s.makeReady t).tasks u = if u = t then (s.tasks t).readied else s.tasks u := by
  rw [State.makeReady_tasks]
  grind

theorem State.park_tasks :
    (s.park t).2.tasks u = if u = t then (s.tasks t).parked else s.tasks u := by
  unfold State.park Task.parked
  grind [State.setTask_tasks, State.setState_tasks]

theorem State.park_blocked {s r : State} {t : Slot} (parked : s.park t = (true, r)) :
    (r.tasks t).state = .blocked := by
  unfold State.park at parked
  dsimp only at parked
  split at parked
  · cases parked
  · split at parked
    · split at parked
      · cases parked
      · cases parked
        simp
    · cases parked

theorem State.unpark_tasks :
    (s.unpark t).tasks u = if u = t then (s.tasks t).unparked else s.tasks u := by
  unfold State.unpark Task.unparked
  grind [State.setTask_tasks, State.makeReady_readied]

theorem State.wake_tasks :
    (s.wake t).tasks u = if u = t then (s.tasks t).woken else s.tasks u := by
  unfold State.wake Task.woken
  grind [State.makeReady_readied]

theorem State.sleepCurrent_tasks (ticks : Nat) : (s.sleepCurrent cpu ticks).tasks u =
    if u = s.current cpu then (s.tasks (s.current cpu)).slept ticks else s.tasks u := by
  unfold State.sleepCurrent Task.slept
  dsimp only
  split
  · grind
  · rename_i free
    simp only [not_or] at free
    by_cases same : u = s.current cpu <;> by_cases zero : ticks = 0 <;>
      simp [same, zero, free, State.makeReady_tasks]

theorem State.tickTask_tasks :
    (s.tickTask t).tasks u = if u = t then (s.tasks t).ticked else s.tasks u := by
  unfold State.tickTask Task.ticked
  grind [State.setTask_tasks, State.makeReady_readied]

/-- The loop meets every slot once. -/
theorem State.ticks_tasks (slots : List Slot) (distinct : slots.Nodup) :
    (slots.foldl tickTask s).tasks u = if u ∈ slots then (s.tasks u).ticked else s.tasks u := by
  induction slots generalizing s with
  | nil => simp
  | cons t rest ih =>
    obtain ⟨fresh, distinct⟩ := List.nodup_cons.mp distinct
    rw [List.foldl_cons, ih (s.tickTask t) distinct, State.tickTask_tasks]
    grind

theorem State.tick_tasks :
    (s.tick cpu).tasks u = if cpu = 0 then (s.tasks u).ticked else s.tasks u := by
  unfold State.tick
  split
  · rw [State.ticks_tasks _ _ _ (List.nodup_finRange 32), if_pos (List.mem_finRange u)]
  · rfl

theorem State.kill_tasks (id : Nat) : (s.kill cpu id).tasks u =
    if s.findId (some id) = some u ∧ u ≠ s.current cpu then (s.tasks u).killed else s.tasks u := by
  unfold State.kill Task.killed
  split
  · rename_i none
    simp [none]
  · grind [State.setTask_tasks]

theorem State.create_tasks (user : Bool) : (s.create user).tasks u =
    if s.freeSlot = some u then (s.tasks u).created s.nextTaskId user else s.tasks u := by
  unfold State.create Task.created
  split
  · rename_i none
    simp [none]
  · rename_i t found
    rw [found]
    cases user <;> by_cases same : u = t <;>
      simp [same, State.makeReady_readied, eq_comm (a := t)]

theorem State.reparent_tasks : (s.reparent t).tasks u =
    if (s.tasks u).named = true ∧ (s.tasks u).parentId = some (s.tasks t).id ∧ u ≠ t then
      { s.tasks u with parentId := s.initTaskId }
    else s.tasks u := rfl

theorem State.reparent_findId (id : Option Nat) : (s.reparent t).findId id = s.findId id := by
  unfold State.findId
  congr 1
  funext u
  rw [State.reparent_tasks]
  split <;> rfl

theorem State.reparent_finalState : (s.reparent t).finalState t = s.finalState t := by
  unfold State.finalState
  rw [State.reparent_findId, State.reparent_task]
  rfl

theorem State.finalState_cases : s.finalState t = .dead ∨ s.finalState t = .zombie := by
  unfold State.finalState
  split
  · exact Or.inl rfl
  · exact Or.inr rfl

theorem State.findId_spec {s : State} {id : Option Nat} {t : Slot} (found : s.findId id = some t) :
    (s.tasks t).named = true ∧ some (s.tasks t).id = id := by
  simpa using List.find?_some found

/-- A zombie's parent was found. -/
theorem State.finalState_zombie {s : State} {t : Slot} (zombie : s.finalState t = .zombie) :
    ∃ parent, s.findId (s.tasks t).parentId = some parent := by
  unfold State.finalState at zombie
  split at zombie
  · cases zombie
  · rename_i waited
    exact Option.ne_none_iff_exists'.mp fun none => waited (Or.inl none)

/-- The exiting task ends, its children move, and its parent wakes up. -/
theorem State.exit_tasks : (s.exit cpu).tasks u =
    if u = s.current cpu then { s.tasks u with state := s.finalState u }
    else if s.findId (s.tasks (s.current cpu)).parentId = some u ∧ (s.tasks u).state = .blocked then
      ((s.reparent (s.current cpu)).tasks u).readied
    else (s.reparent (s.current cpu)).tasks u := by
  unfold State.exit
  dsimp only
  rw [State.reparent_findId, State.reparent_finalState, State.reparent_task]
  have kept : ∀ v, ((s.reparent (s.current cpu)).tasks v).state = (s.tasks v).state := by
    intro v
    rw [State.reparent_tasks]
    split <;> rfl
  have ended := s.finalState_cases (s.current cpu)
  have self := s.reparent_task (s.current cpu)
  split
  · grind [State.setState_tasks]
  · grind [State.setState_tasks, State.makeReady_readied]

/-- The three ways a round of `sched_wait4` ends. -/
theorem State.wait4_cases (pid : Int) :
    (∃ child, s.Matches (s.current cpu) pid child ∧ (s.tasks child).state = .zombie ∧
        s.wait4 cpu pid = (s.setState child .dead).setWaiting (s.current cpu) none) ∨
      ((∀ child, s.Matches (s.current cpu) pid child → (s.tasks child).state ≠ .zombie) ∧
        (∃ child, s.Matches (s.current cpu) pid child) ∧
        s.wait4 cpu pid = (s.setState (s.current cpu) .blocked).setWaiting (s.current cpu) (some pid)) ∨
      s.wait4 cpu pid = s.setWaiting (s.current cpu) none := by
  unfold State.wait4
  dsimp only
  split
  · rename_i child found
    have zombie : s.Matches (s.current cpu) pid child ∧ (s.tasks child).state = .zombie := by
      simpa using List.find?_some found
    exact Or.inl ⟨child, zombie.1, zombie.2, rfl⟩
  · rename_i missed
    have none : ∀ child, s.Matches (s.current cpu) pid child → (s.tasks child).state ≠ .zombie := by
      simpa using missed
    split
    · rename_i some
      exact Or.inr (Or.inl ⟨none, some, rfl⟩)
    · exact Or.inr (Or.inr rfl)

end Effects

/-- A step that leaves everything but tasks and run queues alone. -/
structure State.Frame (s r : State) : Prop where
  current : r.current = s.current
  waiting : r.waiting = s.waiting
  nextTaskId : r.nextTaskId = s.nextTaskId
  initTaskId : r.initTaskId = s.initTaskId

section Frames

variable {s r q : State} {t : Slot} {cpu : Cpu}

theorem State.Frame.rfl : s.Frame s := ⟨Eq.refl _, Eq.refl _, Eq.refl _, Eq.refl _⟩

theorem State.Frame.trans (first : s.Frame r) (second : r.Frame q) : s.Frame q :=
  ⟨second.current.trans first.current, second.waiting.trans first.waiting,
    second.nextTaskId.trans first.nextTaskId, second.initTaskId.trans first.initTaskId⟩

theorem State.setTask_frame (task : Task) : s.Frame (s.setTask t task) :=
  ⟨Eq.refl _, Eq.refl _, Eq.refl _, Eq.refl _⟩

theorem State.setState_frame (state : TaskState) : s.Frame (s.setState t state) :=
  State.setTask_frame _

theorem State.setRq_frame (rq : RunQueues) : s.Frame (s.setRq rq) :=
  ⟨Eq.refl _, Eq.refl _, Eq.refl _, Eq.refl _⟩

theorem State.makeReady_frame : s.Frame (s.makeReady t) := by
  unfold State.makeReady
  split
  · exact .rfl
  · exact (State.setState_frame _).trans (State.setRq_frame _)

theorem State.park_frame : s.Frame (s.park t).2 := by
  unfold State.park
  dsimp only
  repeat' split
  all_goals first | exact .rfl | exact State.setTask_frame _

theorem State.unpark_frame : s.Frame (s.unpark t) := by
  unfold State.unpark
  dsimp only
  repeat' split
  all_goals first | exact .rfl | exact State.setTask_frame _ | exact State.makeReady_frame

theorem State.wake_frame : s.Frame (s.wake t) := by
  unfold State.wake
  dsimp only
  split
  · exact State.makeReady_frame
  · exact .rfl

theorem State.sleepCurrent_frame (ticks : Nat) : s.Frame (s.sleepCurrent cpu ticks) := by
  unfold State.sleepCurrent
  dsimp only
  split
  · exact .rfl
  · split
    · exact (State.setTask_frame _).trans State.makeReady_frame
    · exact ((State.setTask_frame _).trans (State.setRq_frame _)).trans (State.setState_frame _)

theorem State.tickTask_frame : s.Frame (s.tickTask t) := by
  unfold State.tickTask
  dsimp only
  split
  · split
    · exact (State.setTask_frame _).trans State.makeReady_frame
    · exact State.setTask_frame _
  · exact .rfl

theorem State.tick_frame : s.Frame (s.tick cpu) := by
  unfold State.tick
  split
  · generalize List.finRange 32 = slots
    induction slots generalizing s with
    | nil => exact .rfl
    | cons t rest ih => exact State.tickTask_frame.trans ih
  · exact .rfl

theorem State.reparent_frame : s.Frame (s.reparent t) :=
  ⟨Eq.refl _, Eq.refl _, Eq.refl _, Eq.refl _⟩

theorem State.exit_frame : s.Frame (s.exit cpu) := by
  have ended : s.Frame ((s.reparent (s.current cpu)).setState (s.current cpu)
      ((s.reparent (s.current cpu)).finalState (s.current cpu))) :=
    State.reparent_frame.trans (State.setState_frame _)
  unfold State.exit
  dsimp only
  split
  · exact ended
  · split
    · exact ended.trans State.makeReady_frame
    · exact ended

theorem State.kill_frame (id : Nat) : s.Frame (s.kill cpu id) := by
  unfold State.kill
  dsimp only
  repeat' split
  all_goals first | exact .rfl | exact State.setTask_frame _

theorem State.detach_frame : s.Frame (s.detach t) :=
  (State.setRq_frame _).trans (State.setState_frame _)

theorem State.clear_frame : s.Frame (s.clear t) :=
  (State.setRq_frame _).trans (State.setTask_frame _)

theorem State.adopt_frame : s.Frame (s.adopt t) := by
  unfold State.adopt
  dsimp only
  split
  · exact .rfl
  · exact State.setTask_frame _

theorem State.create_current (s : State) (user : Bool) : (s.create user).current = s.current := by
  unfold State.create
  split
  · rfl
  · cases user
    · exact State.makeReady_current _ _
    · rfl

theorem State.create_waiting (s : State) (user : Bool) (u : Slot) : (s.create user).waiting u =
    if s.freeSlot = some u then none else s.waiting u := by
  unfold State.create
  split
  · rename_i none
    simp [none]
  · rename_i t found
    rw [found]
    cases user <;> by_cases same : u = t <;> simp [same, State.setWaiting, eq_comm (a := t)]

theorem State.registerInit_waiting : (s.registerInit t).waiting = s.waiting := by
  unfold State.registerInit
  dsimp only
  split <;> rfl

theorem State.freeSlot_unused {t : Slot} (found : s.freeSlot = some t) :
    4 ≤ t.val ∧ (s.tasks t).named = false := by
  simpa using List.find?_some found

end Frames

end OsArmv8a.Sched
