import OsArmv8a.Sched
import OsArmv8a.Lib.Queues

/-! Mutexes, semaphores, condition variables and IPC channels over the scheduler: `mutex.c`,
`semaphore.c`, `condvar.c`, `ipc.c` and `wait_queue.c`. One definition for each critical section; the
objects are allocated. -/

set_option autoImplicit false

namespace OsArmv8a.Sync

open Intrusive

abbrev Cpu := Sched.Cpu
abbrev Slot := Sched.Slot

/-- The objects with a wait queue. -/
inductive Obj where
  | channel (k : Fin 8)
  | mutex (m : Fin 64)
  | semaphore (x : Fin 64)
  | condvar (d : Fin 64)
  deriving DecidableEq

/-- The order in which the reaper scans the objects. -/
def Obj.index : Obj → Nat
  | .channel k => k.val
  | .mutex m => 8 + m.val
  | .semaphore x => 72 + x.val
  | .condvar d => 136 + d.val

def Obj.nth (i : Nat) : Option Obj :=
  if i < 8 then some (.channel (Fin.ofNat 8 i))
  else if i < 72 then some (.mutex (Fin.ofNat 64 (i - 8)))
  else if i < 136 then some (.semaphore (Fin.ofNat 64 (i - 72)))
  else if i < 200 then some (.condvar (Fin.ofNat 64 (i - 136)))
  else none

/-- A blocking call. A wait for a condition names the mutex it takes again, a receive its capacity. -/
inductive Wait where
  | channel (k : Fin 8) (capacity : Nat)
  | mutex (m : Fin 64)
  | semaphore (x : Fin 64)
  | condvar (d : Fin 64) (m : Fin 64)
  deriving DecidableEq

def Wait.obj : Wait → Obj
  | .channel k _ => .channel k
  | .mutex m => .mutex m
  | .semaphore x => .semaphore x
  | .condvar d _ => .condvar d

/-- Where a task is: outside these calls, in one before and after it has parked, or on the way to the
second half of a wait for a condition or the next round of a receive. -/
inductive Pc where
  | idle
  | queued (w : Wait)
  | parked (w : Wait)
  | again (w : Wait)
  deriving DecidableEq

structure Mutex where
  locked : Bool
  owner : Option Slot

/-- The counter, with a record of the posts, of the calls that returned 1, and of the permits given
to dequeued waiters that have not returned. -/
structure Semaphore where
  value : Nat
  posts : Nat
  returned : Nat
  handed : Int

/-- `wakes` are the tasks a producer has dequeued and is still to unpark. `members`, `holding` and
`granted` record who joined and has not left each queue, to whom a lock call has returned, and which
waiters a post has dequeued. -/
structure State where
  sched : Sched.State
  queues : Queues Obj Slot
  mutexes : Fin 64 → Mutex
  semaphores : Fin 64 → Semaphore
  channels : Fin 8 → Option (List UInt8)
  pc : Slot → Pc
  wakes : List Slot
  scan : Slot → Nat
  members : Obj → List Slot
  holding : Slot → Fin 64 → Bool
  granted : Slot → Bool

namespace State

def setPc (s : State) (t : Slot) (pc : Pc) : State :=
  { s with pc := fun u => if u = t then pc else s.pc u }

def setMutex (s : State) (m : Fin 64) (mutex : Mutex) : State :=
  { s with mutexes := fun n => if n = m then mutex else s.mutexes n }

def setSemaphore (s : State) (x : Fin 64) (semaphore : Semaphore) : State :=
  { s with semaphores := fun y => if y = x then semaphore else s.semaphores y }

def setChannel (s : State) (k : Fin 8) (message : Option (List UInt8)) : State :=
  { s with channels := fun j => if j = k then message else s.channels j }

def setHolding (s : State) (t : Slot) (m : Fin 64) (holds : Bool) : State :=
  { s with holding := fun u n => if u = t ∧ n = m then holds else s.holding u n }

def setGranted (s : State) (t : Slot) (granted : Bool) : State :=
  { s with granted := fun u => if u = t then granted else s.granted u }

/-- `wait_queue_enqueue` of the caller, which goes on to park when it has joined. A list that does not
end within the 32 slots is a cycle, which the loop of `wait_queue_contains` would not leave. -/
def enqueue (s : State) (t : Slot) (w : Wait) : Option (Bool × State) :=
  (s.queues.enqueue 32 w.obj t).map fun (joined, queues) =>
    if joined = true then
      (true, ({ s with
        queues := queues, members := Queues.put s.members w.obj (s.members w.obj ++ [t]) }.setPc t
          (.queued w)).setGranted t false)
    else (false, s)

/-- `wait_queue_dequeue`; the caller unparks the task once it has dropped the lock of the object. -/
def dequeue (s : State) (o : Obj) : Option Slot × State :=
  match s.queues.dequeue o with
  | (none, _) => (none, s)
  | (some t, queues) =>
    (some t, { s with
      queues := queues, members := Queues.put s.members o ((s.members o).erase t)
      wakes := s.wakes ++ [t] })

/-- `wait_queue_remove`. -/
def remove (s : State) (t : Slot) (o : Obj) : Option State :=
  (s.queues.remove 32 o t).map fun (_, queues) =>
    { s with queues := queues, members := Queues.put s.members o ((s.members o).erase t) }

/-- The end of a blocking call after `sched_park_task` and `schedule`. -/
def returns (s : State) (t : Slot) : Wait → State
  | .mutex m => (s.setPc t .idle).setHolding t m true
  | .semaphore x =>
    let semaphore := s.semaphores x
    ((s.setPc t .idle).setGranted t false).setSemaphore x
      { semaphore with
        returned := semaphore.returned + 1
        handed := if s.granted t = true then semaphore.handed - 1 else semaphore.handed }
  | w => s.setPc t (.again w)

/-- `mutex_lock` up to its call of `sched_park_task`. -/
def lock (s : State) (t : Slot) (m : Fin 64) : Option State :=
  if (s.mutexes m).locked = false then
    some ((s.setMutex m { locked := true, owner := some t }).returns t (.mutex m))
  else
    (s.enqueue t (.mutex m)).map fun (joined, s) =>
      if joined = true then s else s.returns t (.mutex m)

/-- `mutex_trylock`. -/
def trylock (s : State) (t : Slot) (m : Fin 64) : State :=
  if (s.mutexes m).locked = false then
    (s.setMutex m { locked := true, owner := some t }).returns t (.mutex m)
  else s

/-- The critical section of `mutex_unlock`. -/
def release (s : State) (m : Fin 64) : State :=
  match s.dequeue (.mutex m) with
  | (none, s) => s.setMutex m { locked := false, owner := none }
  | (some next, s) => s.setMutex m { s.mutexes m with owner := some next }

def unlock (s : State) (t : Slot) (m : Fin 64) : State := (s.release m).setHolding t m false

/-- `semaphore_wait` up to its call of `sched_park_task`. -/
def wait (s : State) (t : Slot) (x : Fin 64) : Option State :=
  let semaphore := s.semaphores x
  if 0 < semaphore.value then
    some (s.setSemaphore x
      { semaphore with value := semaphore.value - 1, returned := semaphore.returned + 1 })
  else (s.enqueue t (.semaphore x)).map fun (_, s) => s

/-- `semaphore_trywait`. -/
def trywait (s : State) (x : Fin 64) : State :=
  let semaphore := s.semaphores x
  if semaphore.value = 0 then s
  else s.setSemaphore x
    { semaphore with value := semaphore.value - 1, returned := semaphore.returned + 1 }

/-- The critical section of `semaphore_post`; the counter is an `unsigned long`. -/
def post (s : State) (x : Fin 64) : State :=
  match s.dequeue (.semaphore x) with
  | (none, s) =>
    let semaphore := s.semaphores x
    s.setSemaphore x
      { semaphore with value := (semaphore.value + 1) % 2 ^ 64, posts := semaphore.posts + 1 }
  | (some t, s) =>
    let semaphore := s.semaphores x
    (s.setGranted t true).setSemaphore x
      { semaphore with posts := semaphore.posts + 1, handed := semaphore.handed + 1 }

/-- `condvar_wait` up to its call of `sched_park_task`: the waiter is published and the mutex released
under the lock of the condition. `none` is a handle that `mutex_pool_unlock` refuses. -/
def condWait (s : State) (t : Slot) (d : Fin 64) (m : Option (Fin 64)) : Option State :=
  match m with
  | some m =>
    (s.enqueue t (.condvar d m)).map fun (joined, s) => if joined = true then s.unlock t m else s
  | none =>
    (s.enqueue t (.condvar d 0)).bind fun (joined, s) =>
      if joined = true then (s.remove t (.condvar d)).map (·.setPc t .idle) else some s

/-- `condvar_signal`, and each round of `condvar_broadcast`. -/
def signal (s : State) (d : Fin 64) : State := (s.dequeue (.condvar d)).2

/-- `ipc_send`. -/
def send (s : State) (k : Fin 8) (data : List UInt8) : State :=
  if data.length = 0 ∨ 64 < data.length ∨ (s.channels k).isSome = true then s
  else ((s.setChannel k (some data)).dequeue (.channel k)).2

/-- `ipc_receive` up to its call of `sched_park_task`; a task that is on the queue already parks
again. -/
def receive (s : State) (t : Slot) (k : Fin 8) (capacity : Nat) : Option State :=
  if capacity = 0 ∨ 64 < capacity then some (s.setPc t .idle)
  else
    match s.channels k with
    | some message =>
      if capacity < message.length then some (s.setPc t .idle)
      else some ((s.setChannel k none).setPc t .idle)
    | none => (s.enqueue t (.channel k capacity)).map fun (_, s) => s.setPc t (.queued (.channel k capacity))

/-- The call of `sched_park_task`; a task that is not blocked goes on at once. -/
def park (s : State) (t : Slot) (w : Wait) : State :=
  match s.sched.park t with
  | (true, sched) => { s with sched := sched }.setPc t (.parked w)
  | (false, sched) => { s with sched := sched }.returns t w

/-- The rest of `condvar_wait`, and the next round of `sys_ipc_recv`. -/
def retry (s : State) (t : Slot) : Wait → Option State
  | .condvar _ m => s.lock t m
  | .channel k capacity => s.receive t k capacity
  | _ => none

/-- A producer executes `sched_unpark_task`. -/
def unpark (s : State) (t : Slot) : State :=
  { s with sched := s.sched.unpark t, wakes := s.wakes.erase t }

/-- The reaper takes a task off one object: `ipc_detach_task`, `mutex_detach_task`,
`semaphore_detach_task` and `condvar_detach_task`. -/
def clean (s : State) (t : Slot) (o : Obj) : Option State :=
  (s.remove t o).map fun left =>
    let after := { left with scan := fun u => if u = t then left.scan t + 1 else left.scan u }
    match o with
    | .mutex m => if (after.mutexes m).owner = some t then after.release m else after
    | _ => after

end State

inductive Label where
  | lock (cpu : Cpu) (m : Fin 64)
  | trylock (cpu : Cpu) (m : Fin 64)
  | unlock (cpu : Cpu) (m : Fin 64)
  | wait (cpu : Cpu) (x : Fin 64)
  | trywait (cpu : Cpu) (x : Fin 64)
  | post (cpu : Cpu) (x : Fin 64)
  | condWait (cpu : Cpu) (d : Fin 64) (m : Option (Fin 64))
  | signal (cpu : Cpu) (d : Fin 64)
  | send (cpu : Cpu) (k : Fin 8) (data : List UInt8)
  | receive (cpu : Cpu) (k : Fin 8) (capacity : Nat)
  | retry (cpu : Cpu)
  | park (cpu : Cpu)
  | resume (cpu : Cpu)
  | unpark (t : Slot)
  | clean (t : Slot)
  | sched (event : Sched.Label)
  deriving DecidableEq

namespace State

/-- The current task of a CPU. -/
def current (s : State) (cpu : Cpu) : Slot := s.sched.current cpu

/-- It executes its own code: it has neither blocked nor ended. -/
def Executes (s : State) (t : Slot) : Prop :=
  (s.sched.tasks t).state = .running ∨ (s.sched.tasks t).state = .ready

/-- Idle tasks make no call that blocks or takes a mutex. -/
def Calls (s : State) (t : Slot) : Prop :=
  s.Executes t ∧ s.pc t = .idle ∧ 4 ≤ (s.sched.tasks t).id

instance (s : State) (t : Slot) : Decidable (s.Executes t) := inferInstanceAs (Decidable (_ ∨ _))

instance (s : State) (t : Slot) : Decidable (s.Calls t) := inferInstanceAs (Decidable (_ ∧ _))

/-- A task inside a blocking call makes no call of the scheduler but those of that call, and a slot is
cleared after the scan of all objects. -/
def Allows (s : State) : Sched.Label → Prop
  | .park _ | .unpark _ => False
  | .sleep cpu _ | .wait4 cpu _ | .exit cpu | .assignParent cpu _ =>
    s.Executes (s.current cpu) ∧ s.pc (s.current cpu) = .idle
  | .clear t => Obj.nth (s.scan t) = none
  | _ => True

instance (s : State) (event : Sched.Label) : Decidable (s.Allows event) := by
  unfold Allows
  rcases event with ⟨⟩ <;> infer_instance

/-- What a step of the scheduler means for the calls of the task. -/
def follow (s : State) (sched : Sched.State) : Sched.Label → State
  | .detach t => { s with sched := sched, scan := fun u => if u = t then 0 else s.scan u }
  | .clear t =>
    ({ s with
      sched := sched
      holding := fun u m => if u = t then false else s.holding u m }.setPc t .idle).setGranted t false
  | _ => { s with sched := sched }

end State

def step (s : State) : Label → Option State
  | .lock cpu m => if s.Calls (s.current cpu) then s.lock (s.current cpu) m else none
  | .trylock cpu m => if s.Calls (s.current cpu) then some (s.trylock (s.current cpu) m) else none
  | .unlock cpu m =>
    if s.Executes (s.current cpu) ∧ s.pc (s.current cpu) = .idle then
      some (s.unlock (s.current cpu) m)
    else none
  | .wait cpu x => if s.Calls (s.current cpu) then s.wait (s.current cpu) x else none
  | .trywait cpu x =>
    if s.Executes (s.current cpu) ∧ s.pc (s.current cpu) = .idle then some (s.trywait x) else none
  | .post cpu x =>
    if s.Executes (s.current cpu) ∧ s.pc (s.current cpu) = .idle then some (s.post x) else none
  | .condWait cpu d m => if s.Calls (s.current cpu) then s.condWait (s.current cpu) d m else none
  | .signal cpu d =>
    if s.Executes (s.current cpu) ∧ s.pc (s.current cpu) = .idle then some (s.signal d) else none
  | .send cpu k data =>
    if s.Executes (s.current cpu) ∧ s.pc (s.current cpu) = .idle then some (s.send k data) else none
  | .receive cpu k capacity =>
    if s.Calls (s.current cpu) then s.receive (s.current cpu) k capacity else none
  | .retry cpu =>
    match s.pc (s.current cpu) with
    | .again w => if s.Executes (s.current cpu) then s.retry (s.current cpu) w else none
    | _ => none
  | .park cpu =>
    match s.pc (s.current cpu) with
    | .queued w => if s.Executes (s.current cpu) then some (s.park (s.current cpu) w) else none
    | _ => none
  | .resume cpu =>
    match s.pc (s.current cpu) with
    | .parked w =>
      if (s.sched.tasks (s.current cpu)).state = .running then some (s.returns (s.current cpu) w)
      else none
    | _ => none
  | .unpark t => if t ∈ s.wakes then some (s.unpark t) else none
  | .clean t =>
    match Obj.nth (s.scan t) with
    | some o => if (s.sched.tasks t).state = .reaping then s.clean t o else none
    | none => none
  | .sched event =>
    if s.Allows event then (Sched.step s.sched event).map fun sched => s.follow sched event else none

/-- All objects are free, and the semaphores have their initial values. -/
def init (values : Fin 64 → Nat) : State :=
  { sched := Sched.init
    queues := { next := fun _ => none, head := fun _ => none, tail := fun _ => none }
    mutexes := fun _ => { locked := false, owner := none }
    semaphores := fun x => { value := values x, posts := 0, returned := 0, handed := 0 }
    channels := fun _ => none
    pc := fun _ => .idle
    wakes := []
    scan := fun _ => 0
    members := fun _ => []
    holding := fun _ _ => false
    granted := fun _ => false }

end OsArmv8a.Sync
