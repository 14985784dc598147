import OsArmv8a.Sched

/-! The pools of mutexes, semaphores and condition variables in `mutex.c`, `semaphore.c` and
`condvar.c`: handles, operation pins, destruction and the reaper's scan. The three pools are one model
with the kind as a parameter. One definition for each critical section; a wait queue is the list of
its tasks from head to tail. -/

set_option autoImplicit false

namespace OsArmv8a.Pool

abbrev Cpu := Sched.Cpu
abbrev Slot := Sched.Slot
abbrev Index := Fin 64

inductive Kind where
  | mutex
  | semaphore
  | condvar
  deriving DecidableEq

/-- The operations on pooled objects. A wait for a condition says whether `mutex_pool_unlock` accepts
the mutex it is given. -/
inductive Op where
  | lock
  | trylock
  | unlock
  | wait
  | trywait
  | post
  | condWait (accepted : Bool)
  | signal
  | broadcast
  deriving DecidableEq

def Op.kind : Op → Kind
  | .lock | .trylock | .unlock => .mutex
  | .wait | .trywait | .post => .semaphore
  | .condWait _ | .signal | .broadcast => .condvar

/-- Where a task is between pin and unpin. What `condvar_wait` does to take its mutex again is part of
leaving. -/
inductive Stage where
  | pinned (op : Op)
  | waiting
  | parked
  | leaving
  deriving DecidableEq

/-- Where a task is in a `pool_free` that has set `destroying`. -/
inductive FreeStage where
  | checking
  | failing
  | closing
  deriving DecidableEq

inductive Call where
  | out
  | op (i : Index) (stage : Stage)
  | free (i : Index) (generation : Nat) (stage : FreeStage)
  deriving DecidableEq

/-- The slot a call is about, and whether it holds a pin there or destroys it. -/
inductive Place where
  | out
  | inside (i : Index)
  | freeing (i : Index) (generation : Nat)
  deriving DecidableEq

def Call.place : Call → Place
  | .out => .out
  | .op i _ => .inside i
  | .free i generation _ => .freeing i generation

/-- Where the scan of a killed task is in the round for one slot. -/
inductive Phase where
  | next
  | pinned
  | removed (detached : Bool)
  deriving DecidableEq

structure Scan where
  index : Nat
  phase : Phase
  deriving DecidableEq

/-- A slot of the pool with its object. `locked` and `owner` are those of a mutex, `value` is that of a
semaphore. -/
structure Entry where
  used : Bool
  generation : Nat
  activeOps : Nat
  destroying : Bool
  locked : Bool
  owner : Option Slot
  value : Nat
  waiters : List Slot

/-- `wakes` are the tasks that have been dequeued and are still to be unparked. -/
structure State where
  sched : Sched.State
  entries : Index → Entry
  calls : Slot → Call
  scans : Slot → Scan
  wakes : List Slot

/-- `MUTEX_HANDLE_GENERATION_MAX` and those of the other pools. -/
def generationMax : Nat := 0x01ffffff

/-- `mutex_make_handle`. -/
def makeHandle (i : Index) (generation : Nat) : Int := generation * 64 + i.val

/-- `mutex_handle_index` and `mutex_handle_generation`, with the checks their callers begin with. -/
def decode (handle : Int) : Option (Index × Nat) :=
  if handle < 0 then none
  else
    let generation := (handle / 64).toNat
    if generation = 0 then none else some (Fin.ofNat 64 (handle % 64).toNat, generation)

namespace Entry

/-- A slot that a handle of this generation names and that nobody destroys. -/
def Accepts (entry : Entry) (generation : Nat) : Prop :=
  entry.used = true ∧ entry.generation = generation ∧ entry.destroying = false

instance (entry : Entry) (generation : Nat) : Decidable (entry.Accepts generation) :=
  inferInstanceAs (Decidable (_ ∧ _))

/-- The counter is an `unsigned int`. -/
def enter (entry : Entry) : Entry := { entry with activeOps := (entry.activeOps + 1) % 2 ^ 32 }

/-- `if (active_ops > 0U) active_ops--`. -/
def leave (entry : Entry) : Entry :=
  if 0 < entry.activeOps then { entry with activeOps := entry.activeOps - 1 } else entry

/-- The decrement without a check in `mutex_detach_task`. -/
def drop (entry : Entry) : Entry := { entry with activeOps := (entry.activeOps + (2 ^ 32 - 1)) % 2 ^ 32 }

/-- `mutex_init`, `semaphore_init` and `condvar_init`. -/
def fresh (generation value : Nat) : Entry :=
  { used := true, generation := generation, activeOps := 0, destroying := false
    locked := false, owner := none, value := value, waiters := [] }

/-- What the object's own lock shows `pool_free` to be in use. -/
def Busy (kind : Kind) (entry : Entry) : Prop :=
  match kind with
  | .mutex => entry.locked = true ∨ entry.owner ≠ none ∨ entry.waiters ≠ []
  | .semaphore | .condvar => entry.waiters ≠ []

instance (kind : Kind) (entry : Entry) : Decidable (entry.Busy kind) := by
  unfold Busy
  cases kind <;> infer_instance

end Entry

/-- The generation `pool_alloc` gives to a slot. -/
def nextGeneration (generation : Nat) : Nat :=
  let next := (generation + 1) % 2 ^ 32
  if next = 0 ∨ generationMax < next then 1 else next

namespace State

def setEntry (s : State) (i : Index) (entry : Entry) : State :=
  { s with entries := fun j => if j = i then entry else s.entries j }

def setCall (s : State) (t : Slot) (call : Call) : State :=
  { s with calls := fun u => if u = t then call else s.calls u }

def setScan (s : State) (t : Slot) (scan : Scan) : State :=
  { s with scans := fun u => if u = t then scan else s.scans u }

/-- `wait_queue_enqueue`. -/
def enqueue (s : State) (t : Slot) (i : Index) : Bool × State :=
  let entry := s.entries i
  if t ∈ entry.waiters then (false, s)
  else (true, s.setEntry i { entry with waiters := entry.waiters ++ [t] })

/-- `wait_queue_dequeue`; the caller unparks the task once it has dropped the lock of the object. -/
def dequeue (s : State) (i : Index) : Option Slot × State :=
  let entry := s.entries i
  match entry.waiters with
  | [] => (none, s)
  | t :: rest => (some t, { s.setEntry i { entry with waiters := rest } with wakes := s.wakes ++ [t] })

/-- `wait_queue_remove`. -/
def remove (s : State) (t : Slot) (i : Index) : State :=
  let entry := s.entries i
  s.setEntry i { entry with waiters := entry.waiters.erase t }

/-- The caller goes on to park when it has joined the queue. -/
def join (s : State) (t : Slot) (i : Index) : State :=
  match s.enqueue t i with
  | (true, s) => s.setCall t (.op i .waiting)
  | (false, s) => s.setCall t (.op i .leaving)

/-- The critical section of `mutex_unlock`, and what `mutex_detach_task` does for an owner. -/
def release (s : State) (i : Index) : State :=
  match s.dequeue i with
  | (none, s) => s.setEntry i { s.entries i with locked := false, owner := none }
  | (some next, s) => s.setEntry i { s.entries i with owner := some next }

/-- The critical section of `semaphore_post`. -/
def post (s : State) (i : Index) : State :=
  match s.dequeue i with
  | (none, s) => s.setEntry i { s.entries i with value := ((s.entries i).value + 1) % 2 ^ 64 }
  | (some _, s) => s

/-- The first critical section of an operation under the lock of its object. -/
def act (s : State) (t : Slot) (i : Index) (op : Op) : State :=
  let entry := s.entries i
  let left := fun s : State => s.setCall t (.op i .leaving)
  match op with
  | .lock =>
    if entry.locked = false then
      left (s.setEntry i { entry with locked := true, owner := some t })
    else s.join t i
  | .trylock =>
    if entry.locked = false then
      left (s.setEntry i { entry with locked := true, owner := some t })
    else left s
  | .unlock => left (s.release i)
  | .wait =>
    if 0 < entry.value then left (s.setEntry i { entry with value := entry.value - 1 }) else s.join t i
  | .trywait =>
    if entry.value = 0 then left s else left (s.setEntry i { entry with value := entry.value - 1 })
  | .post => left (s.post i)
  | .condWait accepted =>
    match s.enqueue t i with
    | (false, s) => left s
    | (true, s) => if accepted = true then s.setCall t (.op i .waiting) else left (s.remove t i)
  | .signal => left (s.dequeue i).2
  | .broadcast =>
    match s.dequeue i with
    | (none, s) => left s
    | (some _, s) => s

/-- `mutex_pool_pin`; an invalid handle ends the call. -/
def pin (s : State) (t : Slot) (handle : Int) (op : Op) : State :=
  match decode handle with
  | none => s
  | some (i, generation) =>
    if (s.entries i).Accepts generation then
      (s.setEntry i (s.entries i).enter).setCall t (.op i (.pinned op))
    else s

/-- `mutex_pool_unpin`. -/
def unpin (s : State) (t : Slot) (i : Index) : State :=
  (s.setEntry i (s.entries i).leave).setCall t .out

/-- `mutex_pool_alloc`. -/
def alloc (s : State) (value : Nat) : State :=
  match (List.finRange 64).find? (fun i => (s.entries i).used = false) with
  | none => s
  | some i => s.setEntry i (.fresh (nextGeneration (s.entries i).generation) value)

/-- The first critical section of `mutex_pool_free`. -/
def free (s : State) (t : Slot) (handle : Int) : State :=
  match decode handle with
  | none => s
  | some (i, generation) =>
    if (s.entries i).Accepts generation ∧ (s.entries i).activeOps = 0 then
      (s.setEntry i { s.entries i with destroying := true }).setCall t (.free i generation .checking)
    else s

/-- The second one, under the lock of the object. -/
def check (kind : Kind) (s : State) (t : Slot) (i : Index) (generation : Nat) : State :=
  s.setCall t (.free i generation (if (s.entries i).Busy kind then .failing else .closing))

/-- The last one. -/
def finish (s : State) (t : Slot) (i : Index) (generation : Nat) (stage : FreeStage) : State :=
  let entry := s.entries i
  let kept := stage = .failing ∨ entry.used = false ∨ entry.generation ≠ generation
  (s.setEntry i
    { entry with used := if kept then entry.used else false, destroying := false }).setCall t .out

/-- The call of `sched_park_task`. -/
def park (s : State) (t : Slot) (i : Index) : State :=
  match s.sched.park t with
  | (true, sched) => { s with sched := sched }.setCall t (.op i .parked)
  | (false, sched) => { s with sched := sched }.setCall t (.op i .leaving)

def unpark (s : State) (t : Slot) : State :=
  { s with sched := s.sched.unpark t, wakes := s.wakes.erase t }

/-- The critical sections of `mutex_detach_task`, `semaphore_detach_task` and `condvar_detach_task` for
one slot. With the pin of a task that was queued its call is over. -/
def detach (kind : Kind) (s : State) (t : Slot) (i : Index) : Phase → State
  | .next =>
    if (s.entries i).used = false then s.setScan t ⟨i.val + 1, .next⟩
    else (s.setEntry i (s.entries i).enter).setScan t ⟨i.val, .pinned⟩
  | .pinned =>
    let detached := decide (t ∈ (s.entries i).waiters)
    let left := s.remove t i
    let after := if kind = .mutex ∧ (left.entries i).owner = some t then left.release i else left
    after.setScan t ⟨i.val, .removed detached⟩
  | .removed detached =>
    let scanned := if kind = .mutex then (s.entries i).drop else (s.entries i).leave
    let entry := if detached = true then scanned.leave else scanned
    let after := (s.setEntry i entry).setScan t ⟨i.val + 1, .next⟩
    if detached = true ∧ (s.calls t).place = .inside i then after.setCall t .out else after

/-- The current task of a CPU. -/
def current (s : State) (cpu : Cpu) : Slot := s.sched.current cpu

/-- It executes its own code: it has neither blocked nor ended. -/
def Executes (s : State) (t : Slot) : Prop :=
  (s.sched.tasks t).state = .running ∨ (s.sched.tasks t).state = .ready

/-- Idle tasks use no pool. -/
def Enters (s : State) (t : Slot) : Prop :=
  s.Executes t ∧ s.calls t = .out ∧ 4 ≤ (s.sched.tasks t).id

instance (s : State) (t : Slot) : Decidable (s.Executes t) := inferInstanceAs (Decidable (_ ∨ _))

instance (s : State) (t : Slot) : Decidable (s.Enters t) := inferInstanceAs (Decidable (_ ∧ _))

/-- Outside the pool, and while they leave it, tasks may block in other parts of the kernel; a slot is
cleared after the scan of the whole pool. -/
def Allows (s : State) : Sched.Label → Prop
  | .park cpu => s.Executes (s.current cpu) ∧
      match s.calls (s.current cpu) with
      | .out | .op _ .leaving => True
      | _ => False
  | .sleep cpu _ | .wait4 cpu _ | .exit cpu | .assignParent cpu _ =>
    s.Executes (s.current cpu) ∧ s.calls (s.current cpu) = .out
  | .clear t => 64 ≤ (s.scans t).index
  | _ => True

instance (s : State) (event : Sched.Label) : Decidable (s.Allows event) := by
  unfold Allows
  cases event with
  | park cpu =>
    dsimp only
    split <;> infer_instance
  | _ => infer_instance

/-- What a step of the scheduler means for the calls of the task. -/
def follow (s : State) (sched : Sched.State) : Sched.Label → State
  | .detach t => { s with sched := sched }.setScan t ⟨0, .next⟩
  | .clear t => { s with sched := sched }.setCall t .out
  | _ => { s with sched := sched }

end State

inductive Label where
  | alloc (cpu : Cpu) (value : Nat)
  | pin (cpu : Cpu) (handle : Int) (op : Op)
  | act (cpu : Cpu)
  | park (cpu : Cpu)
  | resume (cpu : Cpu)
  | unpin (cpu : Cpu)
  | free (cpu : Cpu) (handle : Int)
  | check (cpu : Cpu)
  | finish (cpu : Cpu)
  | unpark (t : Slot)
  | scan (t : Slot)
  | sched (event : Sched.Label)
  deriving DecidableEq

def step (kind : Kind) (s : State) : Label → Option State
  | .alloc cpu value => if s.Executes (s.current cpu) then some (s.alloc value) else none
  | .pin cpu handle op =>
    if s.Enters (s.current cpu) ∧ op.kind = kind then some (s.pin (s.current cpu) handle op) else none
  | .act cpu =>
    match s.calls (s.current cpu) with
    | .op i (.pinned op) =>
      if s.Executes (s.current cpu) then some (s.act (s.current cpu) i op) else none
    | _ => none
  | .park cpu =>
    match s.calls (s.current cpu) with
    | .op i .waiting => if s.Executes (s.current cpu) then some (s.park (s.current cpu) i) else none
    | _ => none
  | .resume cpu =>
    match s.calls (s.current cpu) with
    | .op i .parked =>
      if (s.sched.tasks (s.current cpu)).state = .running then
        some (s.setCall (s.current cpu) (.op i .leaving))
      else none
    | _ => none
  | .unpin cpu =>
    match s.calls (s.current cpu) with
    | .op i .leaving => if s.Executes (s.current cpu) then some (s.unpin (s.current cpu) i) else none
    | _ => none
  | .free cpu handle => if s.Enters (s.current cpu) then some (s.free (s.current cpu) handle) else none
  | .check cpu =>
    match s.calls (s.current cpu) with
    | .free i generation .checking =>
      if s.Executes (s.current cpu) then some (s.check kind (s.current cpu) i generation) else none
    | _ => none
  | .finish cpu =>
    match s.calls (s.current cpu) with
    | .free _ _ .checking => none
    | .free i generation stage =>
      if s.Executes (s.current cpu) then some (s.finish (s.current cpu) i generation stage) else none
    | _ => none
  | .unpark t => if t ∈ s.wakes then some (s.unpark t) else none
  | .scan t =>
    if (s.sched.tasks t).state = .reaping then
      if inside : (s.scans t).index < 64 then
        some (s.detach kind t ⟨(s.scans t).index, inside⟩ (s.scans t).phase)
      else none
    else none
  | .sched event =>
    if s.Allows event then (Sched.step s.sched event).map fun sched => s.follow sched event else none

/-- No slot is used. -/
def init : State :=
  { sched := Sched.init
    entries := fun _ =>
      { used := false, generation := 0, activeOps := 0, destroying := false
        locked := false, owner := none, value := 0, waiters := [] }
    calls := fun _ => .out
    scans := fun _ => ⟨0, .next⟩
    wakes := [] }

end OsArmv8a.Pool
