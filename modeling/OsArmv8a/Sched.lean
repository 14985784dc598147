import OsArmv8a.Lib.SlotTable

/-! The scheduler of `sched.c`: task slots, per-CPU run queues and one definition for each
`sched_lock` critical section. -/

set_option autoImplicit false

namespace OsArmv8a.Sched

/-- One of the `SCHED_MAX_CPUS` CPUs. -/
abbrev Cpu := Fin 4

/-- An index into `tasks`. -/
abbrev Slot := Fin 32

inductive TaskState where
  | running | ready | blocked | dead | zombie | reaping
  deriving DecidableEq, Repr

/-- The fields of `struct task` the scheduler decides by, those of the run queues apart. `named`
says that `name` is not null, `none` stands for `TASK_NO_CPU` and for `SCHED_NO_PARENT`. -/
structure Task where
  named : Bool
  id : Nat
  state : TaskState
  sleepTicks : Nat
  killPending : Bool
  wakePending : Bool
  currentCpu : Option Cpu
  parentId : Option Nat
  deriving DecidableEq

namespace Task

/-- Not one of `DEAD`, `ZOMBIE` and `REAPING`. -/
@[grind] def alive (task : Task) : Bool :=
  task.state ≠ .dead ∧ task.state ≠ .zombie ∧ task.state ≠ .reaping

/-- A remote kill takes effect when the task enters `schedule`. -/
@[grind] def consumeKill (task : Task) : Task :=
  if 4 ≤ task.id ∧ task.killPending = true then { task with killPending := false, state := .dead }
  else task

/-- `sched_clear_task`: all bytes zero. -/
@[grind] def cleared : Task :=
  { named := false, id := 0, state := .running, sleepTicks := 0, killPending := false,
    wakePending := false, currentCpu := some 0, parentId := some 0 }

end Task

/-- The run queues from head to tail, with `on_rq` and `rq_cpu` of every task. -/
structure RunQueues where
  queue : Cpu → List Slot
  onRq : Slot → Bool
  rqCpu : Slot → Option Cpu
  nextEnqueueCpu : Cpu

namespace RunQueues

def setQueue (rq : RunQueues) (cpu : Cpu) (slots : List Slot) : RunQueues :=
  { rq with queue := fun other => if other = cpu then slots else rq.queue other }

def setOnRq (rq : RunQueues) (t : Slot) (on : Bool) : RunQueues :=
  { rq with onRq := fun other => if other = t then on else rq.onRq other }

def setRqCpu (rq : RunQueues) (t : Slot) (cpu : Option Cpu) : RunQueues :=
  { rq with rqCpu := fun other => if other = t then cpu else rq.rqCpu other }

/-- `sched_rq_enqueue_locked`. -/
def enqueue (rq : RunQueues) (id : Nat) (t : Slot) (cpu : Cpu) : RunQueues :=
  if id < 4 ∨ rq.onRq t = true then rq
  else ((rq.setRqCpu t (some cpu)).setOnRq t true).setQueue cpu (rq.queue cpu ++ [t])

/-- `sched_rq_dequeue_locked`. -/
def dequeue (rq : RunQueues) (cpu : Cpu) : Option Slot × RunQueues :=
  match rq.queue cpu with
  | [] => (none, rq)
  | t :: rest => (some t, (rq.setQueue cpu rest).setOnRq t false)

/-- `sched_rq_remove_locked`. -/
def remove (rq : RunQueues) (t : Slot) : RunQueues :=
  if rq.onRq t = false then rq
  else
    match rq.rqCpu t with
    | none => rq
    | some cpu => (rq.setQueue cpu ((rq.queue cpu).erase t)).setOnRq t false

/-- `sched_least_loaded_cpu_locked`. -/
def leastLoaded (rq : RunQueues) : Cpu × RunQueues :=
  let best := [1, 2, 3].foldl (fun best offset =>
    let cpu := rq.nextEnqueueCpu + offset
    if (rq.queue cpu).length < (rq.queue best).length then cpu else best) rq.nextEnqueueCpu
  (best, { rq with nextEnqueueCpu := best + 1 })

/-- The loop that drops queue entries until one is `READY`; every round takes one entry, so `fuel`
above the length of the queue is enough. -/
def popReady (ready : Slot → Bool) (cpu : Cpu) : Nat → RunQueues → Option Slot × RunQueues
  | 0, rq => (none, rq)
  | fuel + 1, rq =>
    match rq.dequeue cpu with
    | (none, rq) => (none, rq)
    | (some t, rq) => if ready t = true then (some t, rq) else popReady ready cpu fuel rq

/-- The queue `sched_pick_next_locked` steals from. -/
def busiest (rq : RunQueues) (cpu : Cpu) : Cpu :=
  [0, 1, 2, 3].foldl (fun busiest other =>
    if (rq.queue busiest).length < (rq.queue other).length then other else busiest) cpu

/-- `sched_pick_next_locked`: the local queue first, then the busiest other one. -/
def pickNext (ready : Slot → Bool) (rq : RunQueues) (cpu : Cpu) : Option Slot × RunQueues :=
  match popReady ready cpu ((rq.queue cpu).length + 1) rq with
  | (some t, rq) => (some t, rq)
  | (none, rq) =>
    if rq.busiest cpu = cpu ∨ rq.queue (rq.busiest cpu) = [] then (none, rq)
    else
      match popReady ready (rq.busiest cpu) ((rq.queue (rq.busiest cpu)).length + 1) rq with
      | (some t, rq) => (some t, rq.setRqCpu t (some cpu))
      | (none, rq) => (none, rq)

end RunQueues

/-- The scheduler's data. `waiting` is the argument of the `sched_wait4` call a task is inside. -/
structure State where
  tasks : Slot → Task
  current : Cpu → Slot
  rq : RunQueues
  nextTaskId : Nat
  initTaskId : Option Nat
  waiting : Slot → Option Int

namespace State

def setTask (s : State) (t : Slot) (task : Task) : State :=
  { s with tasks := fun other => if other = t then task else s.tasks other }

def setRq (s : State) (rq : RunQueues) : State := { s with rq := rq }

def setCurrent (s : State) (cpu : Cpu) (t : Slot) : State :=
  { s with current := fun other => if other = cpu then t else s.current other }

def setWaiting (s : State) (t : Slot) (pid : Option Int) : State :=
  { s with waiting := fun other => if other = t then pid else s.waiting other }

def setState (s : State) (t : Slot) (state : TaskState) : State :=
  s.setTask t { s.tasks t with state := state }

/-- `sched_make_ready_locked`. -/
def makeReady (s : State) (t : Slot) : State :=
  if (s.tasks t).id < 4 then s
  else
    let (cpu, rq) := s.rq.leastLoaded
    (s.setState t .ready).setRq (rq.enqueue (s.tasks t).id t cpu)

/-- The first used slot whose task has the id. -/
def findId (s : State) (id : Option Nat) : Option Slot :=
  (List.finRange 32).find? fun t => (s.tasks t).named ∧ some (s.tasks t).id = id

/-- What `schedule` does with the outgoing task. -/
def switchOut (s : State) (cpu : Cpu) : State :=
  let t := s.current cpu
  let prev := (s.tasks t).consumeKill
  if prev.id < 4 then s
  else if prev.state = .running then
    (s.setTask t { prev with state := .ready, currentCpu := none }).setRq (s.rq.enqueue prev.id t cpu)
  else s.setTask t { prev with currentCpu := none }

/-- The second critical section of `schedule`; the first ones are those of `sched_reap_dead`. -/
def schedule (s : State) (cpu : Cpu) : State :=
  let s := s.switchOut cpu
  let (picked, rq) := s.rq.pickNext (fun t => (s.tasks t).state = .ready) cpu
  let next := picked.getD (Fin.castLE (by decide) cpu)
  ((s.setRq rq).setTask next
    { s.tasks next with state := .running, currentCpu := some cpu }).setCurrent cpu next

/-- `sched_park_task`; the result says that the task was blocked. -/
def park (s : State) (t : Slot) : Bool × State :=
  let task := s.tasks t
  if task.id < 4 then (false, s)
  else if task.alive = true ∧ task.killPending = false then
    if task.wakePending = true then (false, s.setTask t { task with wakePending := false })
    else (true, s.setState t .blocked)
  else (false, s)

/-- `sched_unpark_task`. -/
def unpark (s : State) (t : Slot) : State :=
  let task := s.tasks t
  if task.state = .blocked ∧ task.killPending = false then s.makeReady t
  else if task.alive = true ∧ task.killPending = false then
    s.setTask t { task with wakePending := true }
  else s

/-- `sched_wake_task`. -/
def wake (s : State) (t : Slot) : State :=
  let task := s.tasks t
  if task.state = .blocked ∧ task.killPending = false then s.makeReady t else s

/-- `sched_sleep_current`. -/
def sleepCurrent (s : State) (cpu : Cpu) (ticks : Nat) : State :=
  let t := s.current cpu
  let task := s.tasks t
  if task.id < 4 ∨ task.alive = false ∨ task.killPending = true then s
  else
    let s := s.setTask t { task with sleepTicks := ticks }
    if ticks = 0 then s.makeReady t else (s.setRq (s.rq.remove t)).setState t .blocked

/-- One round of the loop of `sched_tick`. -/
def tickTask (s : State) (t : Slot) : State :=
  let task := s.tasks t
  if task.named = true ∧ task.state = .blocked ∧ 0 < task.sleepTicks then
    let s := s.setTask t { task with sleepTicks := task.sleepTicks - 1 }
    if task.sleepTicks = 1 then s.makeReady t else s
  else s

/-- `sched_tick`: CPU 0 keeps the sleep clock. -/
def tick (s : State) (cpu : Cpu) : State :=
  if cpu = 0 then (List.finRange 32).foldl tickTask s else s

/-- A task the call `sched_wait4(pid)` of `parent` counts as a child. -/
def Matches (s : State) (parent : Slot) (pid : Int) (t : Slot) : Prop :=
  (s.tasks t).named = true ∧ (s.tasks t).parentId = some (s.tasks parent).id ∧
    (pid ≤ 0 ∨ ((s.tasks t).id : Int) = pid)

instance (s : State) (parent : Slot) (pid : Int) (t : Slot) : Decidable (s.Matches parent pid t) :=
  inferInstanceAs (Decidable (_ ∧ _))

/-- One round of `sched_wait4`: it collects the first zombie, returns -1 without a child, or blocks
the caller, which then calls `schedule` and tries again. -/
def wait4 (s : State) (cpu : Cpu) (pid : Int) : State :=
  let t := s.current cpu
  match (List.finRange 32).find? fun child =>
      s.Matches t pid child ∧ (s.tasks child).state = .zombie with
  | some child => (s.setState child .dead).setWaiting t none
  | none =>
    if ∃ child, s.Matches t pid child then (s.setState t .blocked).setWaiting t (some pid)
    else s.setWaiting t none

/-- The children of an exiting task go to init. -/
def reparent (s : State) (t : Slot) : State :=
  { s with tasks := fun child =>
      if (s.tasks child).named = true ∧ (s.tasks child).parentId = some (s.tasks t).id ∧ child ≠ t then
        { s.tasks child with parentId := s.initTaskId }
      else s.tasks child }

/-- Parentless tasks and init itself cannot be waited for. -/
def finalState (s : State) (t : Slot) : TaskState :=
  if s.findId (s.tasks t).parentId = none ∨ some (s.tasks t).id = s.initTaskId then .dead else .zombie

/-- The critical section of `task_exit`. -/
def exit (s : State) (cpu : Cpu) : State :=
  let t := s.current cpu
  let s := s.reparent t
  let ended := s.setState t (s.finalState t)
  match s.findId (s.tasks t).parentId with
  | none => ended
  | some parent => if (ended.tasks parent).state = .blocked then ended.makeReady parent else ended

/-- `sched_kill_task`, called on a CPU. -/
def kill (s : State) (cpu : Cpu) (id : Nat) : State :=
  match s.findId (some id) with
  | none => s
  | some t =>
    let task := s.tasks t
    if t = s.current cpu ∨ task.id < 4 ∨ task.alive = false then s
    else if task.state = .running ∧ task.currentCpu.isSome = true then
      s.setTask t { task with killPending := true }
    else s.setTask t { task with state := .dead, sleepTicks := 0, wakePending := false }

/-- The first critical section of `sched_reap_dead`, when it finds this task. -/
def detach (s : State) (t : Slot) : State := (s.setRq (s.rq.remove t)).setState t .reaping

/-- Its second critical section. -/
def clear (s : State) (t : Slot) : State :=
  (s.setRq ((s.rq.setOnRq t false).setRqCpu t (some 0))).setTask t Task.cleared

/-- `sched_allocate_task_slot`. -/
def freeSlot (s : State) : Option Slot :=
  (List.finRange 32).find? fun t => 4 ≤ t.val ∧ (s.tasks t).named = false

/-- `task_create`, and `task_create_user` when `user`; fields of the slot that neither writes keep
their old values. -/
def create (s : State) (user : Bool) : State :=
  match s.freeSlot with
  | none => s
  | some t =>
    let task := { s.tasks t with
      named := true, id := s.nextTaskId, currentCpu := none, parentId := none,
      state := if user = true then .blocked else (s.tasks t).state }
    let s := { (s.setTask t task) with nextTaskId := s.nextTaskId + 1 }
    let s := (s.setRq ((s.rq.setOnRq t false).setRqCpu t none)).setWaiting t none
    if user = true then s else s.makeReady t

/-- `sched_register_init_task`. -/
def registerInit (s : State) (t : Slot) : State :=
  let task := s.tasks t
  if task.id < 4 ∨ s.initTaskId ≠ none then s
  else { (s.setTask t { task with parentId := none }) with initTaskId := some task.id }

/-- `sched_adopt_task`. -/
def adopt (s : State) (t : Slot) : State :=
  let task := s.tasks t
  if task.id < 4 ∨ s.initTaskId = none ∨ s.initTaskId = some task.id then s
  else s.setTask t { task with parentId := s.initTaskId }

/-- `process_clone` and `process_thread_create` write `parent_id` of the task they have created. -/
def assignParent (s : State) (cpu : Cpu) (t : Slot) : State :=
  s.setTask t { s.tasks t with parentId := some (s.tasks (s.current cpu)).id }

end State

inductive Label where
  | schedule (cpu : Cpu)
  | park (cpu : Cpu)
  | unpark (t : Slot)
  | wake (t : Slot)
  | sleep (cpu : Cpu) (ticks : Nat)
  | wait4 (cpu : Cpu) (pid : Int)
  | tick (cpu : Cpu)
  | exit (cpu : Cpu)
  | kill (cpu : Cpu) (id : Nat)
  | detach (t : Slot)
  | clear (t : Slot)
  | create (user : Bool)
  | registerInit (t : Slot)
  | adopt (t : Slot)
  | assignParent (cpu : Cpu) (t : Slot)
  deriving DecidableEq

/-- The CPU whose current task makes the call, for calls a task inside `sched_wait4` cannot make. -/
def Label.caller : Label → Option Cpu
  | .park cpu | .sleep cpu _ | .exit cpu | .assignParent cpu _ => some cpu
  | _ => none

/-- A critical section taken by some CPU. Which dead task the reaper meets first depends on the task
list; the label names it. -/
def perform (s : State) : Label → Option State
  | .schedule cpu => some (s.schedule cpu)
  | .park cpu => some (s.park (s.current cpu)).2
  | .unpark t => some (s.unpark t)
  | .wake t => some (s.wake t)
  | .sleep cpu ticks => some (s.sleepCurrent cpu ticks)
  | .wait4 cpu pid =>
    if 4 ≤ (s.tasks (s.current cpu)).id ∧
        (s.waiting (s.current cpu) = none ∨ s.waiting (s.current cpu) = some pid) then
      some (s.wait4 cpu pid)
    else none
  | .tick cpu => some (s.tick cpu)
  | .exit cpu => some (s.exit cpu)
  | .kill cpu id => some (s.kill cpu id)
  | .detach t =>
    if t ≠ 0 ∧ (s.tasks t).state = .dead ∧ (s.tasks t).currentCpu = none then some (s.detach t)
    else none
  | .clear t => if (s.tasks t).state = .reaping then some (s.clear t) else none
  | .create user => some (s.create user)
  | .registerInit t => if (s.tasks t).named = true then some (s.registerInit t) else none
  | .adopt t => if (s.tasks t).named = true then some (s.adopt t) else none
  | .assignParent cpu t =>
    if (s.tasks t).named = true ∧ (s.tasks t).parentId = none ∧
        ((s.tasks t).state = .blocked ∨ (s.tasks t).state = .dead) then
      some (s.assignParent cpu t)
    else none

def step (s : State) (label : Label) : Option State :=
  if label.caller.any (fun cpu => (s.waiting (s.current cpu)).isSome) = true then none
  else perform s label

/-- `sched_init`, with each CPU on its idle task. -/
def init : State :=
  { tasks := fun t =>
      if t.val < 4 then
        { Task.cleared with named := true, id := t.val, currentCpu := some (Fin.ofNat 4 t.val) }
      else Task.cleared
    current := fun cpu => Fin.castLE (by decide) cpu
    rq :=
      { queue := fun _ => [], onRq := fun _ => false,
        rqCpu := fun t => some (if t.val < 4 then Fin.ofNat 4 t.val else 0), nextEnqueueCpu := 0 }
    nextTaskId := 4
    initTaskId := none
    waiting := fun _ => none }

end OsArmv8a.Sched
