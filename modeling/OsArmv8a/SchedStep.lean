import OsArmv8a.SchedSpec
import OsArmv8a.Lib.Transition

/-! Everything a step of the scheduler can do to one task, and what follows for whole runs. -/

set_option autoImplicit false

namespace OsArmv8a.Sched

/-- What a step makes of the task in a slot. -/
def Change (s : State) (label : Label) (u : Slot) (after : Task) : Prop :=
  match label with
  | .schedule cpu => ∃ out,
      (out = s.tasks u ∨
        u = s.current cpu ∧ 4 ≤ (s.tasks u).id ∧ out = (s.tasks u).switchedOut) ∧
      (after = out ∨ (u = idleOf cpu ∨ out.state = .ready) ∧
        after = { out with state := .running, currentCpu := some cpu })
  | .park cpu => after = if u = s.current cpu then (s.tasks u).parked else s.tasks u
  | .unpark t => after = if u = t then (s.tasks u).unparked else s.tasks u
  | .wake t => after = if u = t then (s.tasks u).woken else s.tasks u
  | .sleep cpu ticks => after = if u = s.current cpu then (s.tasks u).slept ticks else s.tasks u
  | .wait4 cpu _ => after = s.tasks u ∨
      (s.tasks u).state = .zombie ∧ after = { s.tasks u with state := .dead } ∨
      u = s.current cpu ∧ after = { s.tasks u with state := .blocked }
  | .tick cpu => after = if cpu = 0 then (s.tasks u).ticked else s.tasks u
  | .exit cpu => if u = s.current cpu then
        ∃ state, (state = .dead ∨ state = .zombie) ∧ after = { s.tasks u with state := state }
      else ∃ parent, after = { s.tasks u with parentId := parent } ∨
        s.findId (s.tasks (s.current cpu)).parentId = some u ∧ (s.tasks u).state = .blocked ∧
          after = { s.tasks u with parentId := parent }.readied
  | .kill cpu id => after = if s.findId (some id) = some u ∧ u ≠ s.current cpu then
      (s.tasks u).killed else s.tasks u
  | .detach t => if u = t then (s.tasks u).state = .dead ∧ (s.tasks u).currentCpu = none ∧
        after = { s.tasks u with state := .reaping }
      else after = s.tasks u
  | .clear t => if u = t then (s.tasks u).state = .reaping ∧ after = Task.cleared
      else after = s.tasks u
  | .create user => after = if s.freeSlot = some u then (s.tasks u).created s.nextTaskId user
      else s.tasks u
  | .registerInit _ | .adopt _ | .assignParent _ _ =>
    ∃ parent, after = { s.tasks u with parentId := parent }

/-- The tasks a step makes `READY`, a new task and the outgoing one of `schedule` apart. -/
def Wakes (s : State) (label : Label) (t : Slot) : Prop :=
  match label with
  | .unpark u | .wake u => t = u ∧ (s.tasks t).state = .blocked ∧ (s.tasks t).killPending = false
  | .sleep cpu ticks => t = s.current cpu ∧ ticks = 0 ∧ 4 ≤ (s.tasks t).id ∧
      (s.tasks t).alive = true ∧ (s.tasks t).killPending = false
  | .tick cpu => cpu = 0 ∧ (s.tasks t).state = .blocked ∧ (s.tasks t).sleepTicks = 1
  | .exit cpu => s.findId (s.tasks (s.current cpu)).parentId = some t ∧ (s.tasks t).state = .blocked
  | _ => False

instance (s : State) (label : Label) (t : Slot) : Decidable (Wakes s label t) := by
  unfold Wakes
  rcases label with ⟨⟩ <;> infer_instance

/-- A kill is pending only for a task that some CPU executes. -/
structure Killable (s : State) : Prop where
  off : ∀ t, (s.tasks t).currentCpu = none → (s.tasks t).killPending = false
  reaping : ∀ t, (s.tasks t).state = .reaping → (s.tasks t).killPending = false
  unused : ∀ t, (s.tasks t).named = false → (s.tasks t).killPending = false

section Steps

variable {s r : State} {t : Slot} {cpu : Cpu} {label : Label}

theorem State.schedule_change (u : Slot) : Change s (.schedule cpu) u ((s.schedule cpu).tasks u) := by
  obtain ⟨next, chosen, _, _, _, tasks⟩ := s.schedule_spec cpu
  have out := s.switchOut_tasks cpu
  refine ⟨(s.switchOut cpu).tasks u, ?_, ?_⟩
  · grind
  · grind

theorem State.setTask_parent (t u : Slot) (parent : Option Nat) : ∃ assigned,
    (s.setTask t { s.tasks t with parentId := parent }).tasks u =
      { s.tasks u with parentId := assigned } := by
  by_cases same : u = t
  · exact ⟨parent, by simp [same]⟩
  · exact ⟨(s.tasks u).parentId, by simp [same]⟩

theorem State.reparent_parent (s : State) (t u : Slot) : ∃ assigned,
    (s.reparent t).tasks u = { s.tasks u with parentId := assigned } := by
  rw [State.reparent_tasks]
  split
  · exact ⟨_, rfl⟩
  · exact ⟨_, rfl⟩

theorem perform_change (taken : perform s label = some r) (u : Slot) :
    Change s label u (r.tasks u) := by
  cases label with
  | schedule cpu => cases taken; exact State.schedule_change u
  | park cpu => cases taken; have tasks := s.park_tasks (s.current cpu) u; grind [Change]
  | unpark t => cases taken; have tasks := s.unpark_tasks t u; grind [Change]
  | wake t => cases taken; have tasks := s.wake_tasks t u; grind [Change]
  | sleep cpu ticks => cases taken; have tasks := s.sleepCurrent_tasks u cpu ticks; grind [Change]
  | wait4 cpu pid =>
    obtain ⟨_, rfl⟩ := Transition.of_guard taken
    simp only [Change]
    rcases s.wait4_cases cpu pid with ⟨child, _, zombie, same⟩ | ⟨_, _, same⟩ | same
    all_goals
      rw [same]
      simp only [State.setWaiting_tasks, State.setState_tasks]
      grind
  | tick cpu => cases taken; exact s.tick_tasks u cpu
  | exit cpu =>
    cases taken
    have ended := s.finalState_cases u
    simp only [Change]
    rw [State.exit_tasks]
    split
    · exact ⟨s.finalState u, ended, rfl⟩
    · obtain ⟨parent, moved⟩ := s.reparent_parent (s.current cpu) u
      rw [moved]
      refine ⟨parent, ?_⟩
      split
      · rename_i waits
        exact Or.inr ⟨waits.1, waits.2, rfl⟩
      · exact Or.inl rfl
  | kill cpu id => cases taken; exact s.kill_tasks u cpu id
  | detach t =>
    obtain ⟨guard, rfl⟩ := Transition.of_guard taken
    have tasks : (s.detach t).tasks u =
      if u = t then { s.tasks t with state := .reaping } else s.tasks u := rfl
    grind [Change]
  | clear t =>
    obtain ⟨reaping, rfl⟩ := Transition.of_guard taken
    have tasks : (s.clear t).tasks u = if u = t then Task.cleared else s.tasks u := rfl
    grind [Change]
  | create user => cases taken; exact s.create_tasks u user
  | registerInit t =>
    obtain ⟨_, rfl⟩ := Transition.of_guard taken
    simp only [State.registerInit, Change]
    split
    · exact ⟨_, rfl⟩
    · exact State.setTask_parent t u none
  | adopt t =>
    obtain ⟨_, rfl⟩ := Transition.of_guard taken
    simp only [State.adopt, Change]
    split
    · exact ⟨_, rfl⟩
    · exact State.setTask_parent t u s.initTaskId
  | assignParent cpu t =>
    obtain ⟨_, rfl⟩ := Transition.of_guard taken
    exact State.setTask_parent t u _

/-- What a step makes of everything but tasks and run queues. -/
structure Rest (s : State) (label : Label) (r : State) : Prop where
  current : (∀ cpu, label ≠ .schedule cpu) → r.current = s.current
  counter : r.nextTaskId = s.nextTaskId ∧ (∀ user, label = .create user → s.freeSlot = none) ∨
    r.nextTaskId = s.nextTaskId + 1
  waiting : ∀ u, r.waiting u = s.waiting u ∨ r.waiting u = none ∨
    ∃ cpu pid, label = .wait4 cpu pid ∧ u = s.current cpu ∧ 4 ≤ (s.tasks u).id

theorem State.Frame.rest (frame : s.Frame r) (other : ∀ user, label ≠ .create user) : Rest s label r :=
  ⟨fun _ => frame.current, Or.inl ⟨frame.nextTaskId, fun user same => absurd same (other user)⟩,
    fun u => Or.inl (congrFun frame.waiting u)⟩

theorem State.schedule_rest : Rest s (.schedule cpu) (s.schedule cpu) := by
  obtain ⟨_, _, _, waiting, counters, _⟩ := s.schedule_spec cpu
  exact ⟨fun stay => absurd rfl (stay cpu), Or.inl ⟨(Prod.mk.inj counters).1, nofun⟩,
    fun u => Or.inl (congrFun waiting u)⟩

theorem State.wait4_rest {pid : Int} (large : 4 ≤ (s.tasks (s.current cpu)).id) :
    Rest s (.wait4 cpu pid) (s.wait4 cpu pid) := by
  have others : ∀ u, u ≠ s.current cpu → (s.wait4 cpu pid).waiting u = s.waiting u := by
    intro u other
    rcases s.wait4_cases cpu pid with ⟨child, _, _, same⟩ | ⟨_, _, same⟩ | same
    all_goals
      rw [same]
      exact if_neg other
  refine ⟨fun _ => ?_, Or.inl ⟨?_, nofun⟩, fun u => ?_⟩
  · rcases s.wait4_cases cpu pid with ⟨child, _, _, same⟩ | ⟨_, _, same⟩ | same
    all_goals
      rw [same]
      rfl
  · rcases s.wait4_cases cpu pid with ⟨child, _, _, same⟩ | ⟨_, _, same⟩ | same
    all_goals
      rw [same]
      rfl
  · by_cases caller : u = s.current cpu
    · exact Or.inr (Or.inr ⟨cpu, pid, rfl, caller, caller ▸ large⟩)
    · exact Or.inl (others u caller)

theorem State.create_rest (user : Bool) : Rest s (.create user) (s.create user) := by
  refine ⟨fun _ => State.create_current s user, ?_, fun u => ?_⟩
  · unfold State.create
    split
    · rename_i full
      exact Or.inl ⟨rfl, fun _ _ => full⟩
    · right
      cases user
      · exact State.makeReady_frame.nextTaskId
      · rfl
  · rw [State.create_waiting]
    split
    · exact Or.inr (Or.inl rfl)
    · exact Or.inl rfl

theorem perform_rest (taken : perform s label = some r) : Rest s label r := by
  cases label with
  | schedule cpu => cases taken; exact State.schedule_rest
  | park cpu => cases taken; exact State.park_frame.rest nofun
  | unpark t => cases taken; exact State.unpark_frame.rest nofun
  | wake t => cases taken; exact State.wake_frame.rest nofun
  | sleep cpu ticks => cases taken; exact (State.sleepCurrent_frame ticks).rest nofun
  | wait4 cpu pid =>
    obtain ⟨guard, rfl⟩ := Transition.of_guard taken
    exact State.wait4_rest guard.1
  | tick cpu => cases taken; exact State.tick_frame.rest nofun
  | exit cpu => cases taken; exact State.exit_frame.rest nofun
  | kill cpu id => cases taken; exact (State.kill_frame id).rest nofun
  | detach t =>
    obtain ⟨_, rfl⟩ := Transition.of_guard taken
    exact State.detach_frame.rest nofun
  | clear t =>
    obtain ⟨_, rfl⟩ := Transition.of_guard taken
    exact State.clear_frame.rest nofun
  | create user => cases taken; exact State.create_rest user
  | registerInit t =>
    obtain ⟨_, rfl⟩ := Transition.of_guard taken
    unfold State.registerInit
    dsimp only
    split
    · exact State.Frame.rfl.rest nofun
    · exact ⟨fun _ => rfl, Or.inl ⟨rfl, nofun⟩, fun u => Or.inl rfl⟩
  | adopt t =>
    obtain ⟨_, rfl⟩ := Transition.of_guard taken
    exact State.adopt_frame.rest nofun
  | assignParent cpu t =>
    obtain ⟨_, rfl⟩ := Transition.of_guard taken
    exact (State.setTask_frame _).rest nofun

/-- Tasks keep their name and id until they are cleared, and those of a new task are fresh. -/
theorem perform_names (taken : perform s label = some r) (u : Slot) :
    (r.tasks u).named = (s.tasks u).named ∧ (r.tasks u).id = (s.tasks u).id ∨
      label = .clear u ∧ r.tasks u = Task.cleared ∨ s.freeSlot = some u ∧
        (r.tasks u).named = true ∧ (r.tasks u).id = s.nextTaskId ∧ r.nextTaskId = s.nextTaskId + 1 := by
  have change := perform_change taken u
  have counter := (perform_rest taken).counter
  unfold Change at change
  cases label <;> simp only at change
  all_goals grind

/-- Ids name one task each, unused slots have id 0, and idle tasks do not wait. -/
structure Identified (s : State) : Prop where
  unique : ∀ t u, (s.tasks t).named = true → (s.tasks u).named = true →
    (s.tasks t).id = (s.tasks u).id → t = u
  unused : ∀ t, (s.tasks t).named = false → (s.tasks t).id = 0
  below : ∀ t, (s.tasks t).named = true → (s.tasks t).id < s.nextTaskId
  waiters : ∀ t, (s.tasks t).named = true → (s.waiting t).isSome = true → 4 ≤ (s.tasks t).id
  fresh : 4 ≤ s.nextTaskId
  idle : ∀ cpu, (s.tasks (idleOf cpu)).id < 4

theorem Identified.perform (inv : Identified s) (taken : perform s label = some r) :
    Identified r := by
  have kept := perform_names taken
  have counter := (perform_rest taken).counter
  have waiting := (perform_rest taken).waiting
  have free := fun u => @State.freeSlot_unused s u
  obtain ⟨unique, unused, below, waiters, fresh, idle⟩ := inv
  refine ⟨?_, ?_, ?_, ?_, by omega, ?_⟩
  · intro t u namedT namedU same
    grind
  · grind
  · grind
  · intro t named waits
    grind
  · intro cpu
    have small : (idleOf cpu).val < 4 := cpu.isLt
    grind

theorem Identified.findId (known : Identified s) (named : (s.tasks t).named = true) :
    s.findId (some (s.tasks t).id) = some t := by
  cases found : s.findId (some (s.tasks t).id) with
  | none =>
    have missed := List.find?_eq_none.mp found t (List.mem_finRange t)
    simp [named] at missed
  | some u =>
    obtain ⟨there, id⟩ := State.findId_spec found
    rw [known.unique u t there named (Option.some.inj id)]

theorem Identified.not_idle (known : Identified s) (large : 4 ≤ (s.tasks t).id) (cpu : Cpu) :
    t ≠ idleOf cpu := by
  rintro rfl
  have small := known.idle cpu
  omega

theorem Identified.not_free (known : Identified s) (large : 4 ≤ (s.tasks t).id) :
    s.freeSlot ≠ some t := by
  intro found
  have unused := known.unused t (State.freeSlot_unused found).2
  omega

theorem init_identified : Identified init :=
  ⟨by decide +kernel, by decide, by decide, by decide, by decide, by decide⟩

variable {u : Slot}

theorem ready_of_perform (stay : ∀ cpu, label ≠ .schedule cpu) (taken : perform s label = some r)
    (ready : (r.tasks u).state = .ready) :
    (s.tasks u).state = .ready ∨ Wakes s label u ∨ (s.tasks u).named = false := by
  have change := perform_change taken u
  have free := fun found => (@State.freeSlot_unused s u found).2
  unfold Change at change
  unfold Wakes
  cases label <;> simp only at change
  all_goals grind

theorem Killable.perform (inv : Killable s) (taken : perform s label = some r) : Killable r := by
  have pending : ∀ u, (r.tasks u).killPending = true →
      (r.tasks u).currentCpu ≠ none ∧ (r.tasks u).state ≠ .reaping ∧ (r.tasks u).named = true := by
    intro u
    have change := perform_change taken u
    have off := inv.off u
    have reaping := inv.reaping u
    have unused := inv.unused u
    have free := fun found => (@State.freeSlot_unused s u found).2
    have named := fun id found => (@State.findId_spec s id u found).1
    unfold Change at change
    cases label <;> simp only at change
    all_goals grind
  refine ⟨?_, ?_, ?_⟩
  · grind
  · grind
  · grind

/-- Idle tasks and unused slots are never reaped. -/
structure Seated (s : State) : Prop where
  cpu : ∀ t, (s.tasks t).id < 4 → (s.tasks t).currentCpu ≠ none
  kept : ∀ t, (s.tasks t).id < 4 → (s.tasks t).state ≠ .reaping

theorem Seated.perform (inv : Seated s) (known : Identified s) (taken : perform s label = some r) :
    Seated r := by
  have each : ∀ u, (r.tasks u).id < 4 →
      (r.tasks u).currentCpu ≠ none ∧ (r.tasks u).state ≠ .reaping := by
    intro u
    have change := perform_change taken u
    have cpu := inv.cpu u
    have kept := inv.kept u
    have fresh := known.fresh
    unfold Change at change
    cases label <;> simp only at change
    all_goals grind
  exact ⟨fun t small => (each t small).1, fun t small => (each t small).2⟩

theorem init_seated : Seated init := ⟨by decide, by decide⟩

/-- Blocked, killed or being reaped: the task executes nothing. -/
@[grind] def Task.Held (task : Task) : Prop :=
  task.state = .blocked ∨ task.state = .dead ∨ task.state = .reaping

/-- The CPU whose current task makes a call that blocks or ends it. -/
def Label.ender : Label → Option Cpu
  | .sleep cpu _ | .wait4 cpu _ | .exit cpu => some cpu
  | _ => none

/-- What a step leaves of a task that is neither idle nor cleared: its id, that it is held unless the
step wakes it, and that it is being reaped from the step that detaches it on. -/
theorem user_of_perform (known : Identified s) (killable : Killable s) (large : 4 ≤ (s.tasks u).id)
    (taken : perform s label = some r) (stays : label ≠ .clear u)
    (acts : ∀ cpu, label.ender = some cpu → u = s.current cpu → ¬ (s.tasks u).Held) :
    (r.tasks u).id = (s.tasks u).id ∧
      ((s.tasks u).Held → (r.tasks u).Held ∨ Wakes s label u) ∧
      ((r.tasks u).state = .reaping ↔ (s.tasks u).state = .reaping ∨ label = .detach u) := by
  have change := perform_change taken u
  have notIdle := known.not_idle large
  have used := known.not_free large
  have reaping := killable.reaping u
  unfold Change at change
  unfold Wakes
  unfold Label.ender at acts
  cases label <;> simp only at change
  all_goals grind

/-- The steps that leave wake tokens and pending kills alone. -/
def Label.Calm : Label → Prop
  | .park _ | .unpark _ | .kill _ _ => False
  | _ => True

theorem calm_of_perform (calm : label.Calm) (taken : perform s label = some r) (u : Slot)
    (unkilled : (s.tasks u).killPending = false) :
    (r.tasks u).killPending = false ∧
      ((s.tasks u).wakePending = false → (r.tasks u).wakePending = false) := by
  have change := perform_change taken u
  unfold Change at change
  unfold Label.Calm at calm
  cases label <;> simp only at change
  all_goals grind

/-- A task that is inside a call goes on executing or waiting, with its wake token. -/
theorem paused_of_perform (known : Identified s) (large : 4 ≤ (s.tasks u).id) (calm : label.Calm)
    (taken : perform s label = some r) (unkilled : (s.tasks u).killPending = false)
    (inside : ∀ cpu, label.ender = some cpu → u ≠ s.current cpu) :
    ((s.tasks u).state = .running ∨ (s.tasks u).state = .ready →
        ((r.tasks u).state = .running ∨ (r.tasks u).state = .ready) ∧
          (r.tasks u).wakePending = (s.tasks u).wakePending) ∧
      ((s.tasks u).state = .blocked → ¬ Wakes s label u →
        (r.tasks u).state = .blocked ∧ (r.tasks u).wakePending = (s.tasks u).wakePending) := by
  have change := perform_change taken u
  have notIdle := known.not_idle large
  have used := known.not_free large
  unfold Change at change
  unfold Label.Calm at calm
  unfold Wakes
  unfold Label.ender at inside
  cases label <;> simp only at change
  all_goals grind

/-- The CPU whose current task the step takes off the CPU, or may. -/
def Label.leaver : Label → Option Cpu
  | .schedule cpu | .park cpu | .sleep cpu _ | .wait4 cpu _ | .exit cpu => some cpu
  | _ => none

/-- A task that executes goes on executing unless its own CPU switches or its own call ends it: a kill
from elsewhere is only noted. -/
theorem running_of_perform (known : Identified s) (large : 4 ≤ (s.tasks u).id)
    (taken : perform s label = some r) (stays : ∀ cpu, label.leaver = some cpu → u ≠ s.current cpu)
    (running : (s.tasks u).state = .running) (placed : (s.tasks u).currentCpu ≠ none) :
    (r.tasks u).id = (s.tasks u).id ∧ (r.tasks u).state = .running ∧ (r.tasks u).currentCpu ≠ none := by
  have change := perform_change taken u
  have used := known.not_free large
  have some : (s.tasks u).currentCpu.isSome = true := Option.isSome_iff_ne_none.mpr placed
  unfold Change at change
  unfold Label.leaver at stays
  cases label <;> simp only at change
  all_goals grind

/-- A task is being reaped from its detachment until its slot is cleared. -/
theorem reaping_of_perform (taken : perform s label = some r)
    (now : (r.tasks u).state = .reaping) :
    (s.tasks u).state = .reaping ∧ label ≠ .clear u ∨ label = .detach u := by
  have change := perform_change taken u
  unfold Change at change
  cases label <;> simp only at change
  all_goals grind

theorem reaping_stays (known : Identified s) (large : 4 ≤ (s.tasks u).id)
    (taken : perform s label = some r) (off : ∀ cpu, s.current cpu ≠ u) (stays : label ≠ .clear u)
    (reaping : (s.tasks u).state = .reaping) : (r.tasks u).state = .reaping := by
  have change := perform_change taken u
  have notIdle := known.not_idle large
  have used := known.not_free large
  unfold Change at change
  cases label <;> simp only at change
  all_goals grind

/-- Whoever is blocked has left its CPU, as long as no call blocks the current task. -/
theorem rested_of_perform (awake : ∀ cpu, label = .park cpu ∨ label.ender = some cpu →
      label = .exit cpu) (rested : (s.tasks u).state = .blocked → (s.tasks u).currentCpu = none)
    (taken : perform s label = some r) (blocked : (r.tasks u).state = .blocked) :
    (r.tasks u).currentCpu = none := by
  have change := perform_change taken u
  unfold Change at change
  unfold Label.ender at awake
  cases label <;> simp only at change
  all_goals grind

theorem init_killable : Killable init := ⟨by decide, by decide, by decide⟩

end Steps

end OsArmv8a.Sched
