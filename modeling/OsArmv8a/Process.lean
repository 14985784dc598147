import OsArmv8a.Sched

/-! Processes and the references to them: `process.c`, with `task_create_user` and the reaper of
`sched.c`. One definition for each critical section. -/

set_option autoImplicit false

namespace OsArmv8a.Proc

abbrev Cpu := Sched.Cpu
abbrev Slot := Sched.Slot

/-- The fields of `struct process` that its lifetime depends on; `mm` says that the pointer to the
address space is not null. A pointer to a process is the number of the allocation that made it. -/
structure Process where
  refCount : Nat
  execInProgress : Bool
  mm : Bool
  deriving DecidableEq

/-- Where a task is in the calls of `process.c`, with the local variables that count. System calls run
with interrupts masked. `exec` says that `process_execve` goes on after the call. -/
inductive Pc where
  | idle
  /-- `process_create_from_elf` has returned, or is about to fail; `task_create_user` is next. -/
  | created (p : Nat)
  | forked (p : Nat)
  /-- `process_clone` with `CLONE_THREAD`, or `process_thread_create`, has counted the new thread. -/
  | thread (p : Nat)
  | failed (p : Nat)
  | exec
  | loaded (p : Nat)
  /-- `process_destroy` before and after its critical section, with what it has taken out. -/
  | destroying (p : Nat) (exec : Bool)
  | ending (p : Nat) (mm : Bool) (exec : Bool)
  deriving DecidableEq

/-- The local variables of `sched_reap_dead` for a task that is being reaped. -/
inductive Reap where
  | idle
  | destroying (p : Nat)
  | ending (p : Nat) (mm : Bool)
  deriving DecidableEq

/-- `process` is the pointer of each task. `released` and `freed` record the calls of
`mmu_context_destroy` and of `kfree` for a process. -/
structure State where
  sched : Sched.State
  procs : Nat → Process
  next : Nat
  process : Slot → Option Nat
  pc : Slot → Pc
  reap : Slot → Reap
  released : Nat → Nat
  freed : Nat → Nat

namespace State

def setProc (s : State) (p : Nat) (process : Process) : State :=
  { s with procs := fun q => if q = p then process else s.procs q }

def setPc (s : State) (t : Slot) (pc : Pc) : State :=
  { s with pc := fun u => if u = t then pc else s.pc u }

def setReap (s : State) (t : Slot) (reap : Reap) : State :=
  { s with reap := fun u => if u = t then reap else s.reap u }

def setProcess (s : State) (t : Slot) (process : Option Nat) : State :=
  { s with process := fun u => if u = t then process else s.process u }

/-- The allocation of a process with its address space. -/
def create (s : State) : State :=
  { s with next := s.next + 1 }.setProc s.next { refCount := 1, execInProgress := false, mm := true }

/-- The critical section of `process_destroy`; the result says what the last reference takes out. -/
def destroy (s : State) (p : Nat) : Option Bool × State :=
  let process := s.procs p
  if 1 < process.refCount then (none, s.setProc p { process with refCount := process.refCount - 1 })
  else if process.refCount = 0 then (none, s)
  else (some process.mm, s.setProc p { process with refCount := 0, mm := false })

/-- The rest of `process_destroy`, and what a fork that finds no task slot does. -/
def finish (s : State) (p : Nat) (mm : Bool) : State :=
  { s with
    released := fun q => if q = p ∧ mm = true then s.released q + 1 else s.released q
    freed := fun q => if q = p then s.freed q + 1 else s.freed q }

/-- The first critical section of `process_clone` with `CLONE_THREAD` and of `process_thread_create`. -/
def thread (s : State) (t : Slot) (p : Nat) : State :=
  let process := s.procs p
  if process.refCount = 0 ∨ process.execInProgress = true then s
  else (s.setProc p { process with refCount := (process.refCount + 1) % 2 ^ 32 }).setPc t (.thread p)

/-- Their last one, when no task could be created. -/
def undo (s : State) (t : Slot) (p : Nat) : State :=
  let process := s.procs p
  (s.setProc p { process with refCount := (process.refCount + 2 ^ 32 - 1) % 2 ^ 32 }).setPc t .idle

/-- `task_create_user`; `stack` says that the pages for the kernel stack were found. -/
def taskCreateUser (s : State) (p : Nat) (stack : Bool) : Option State :=
  if (s.procs p).mm = false then none
  else
    match s.sched.freeSlot with
    | none => none
    | some t =>
      if stack = true then some ({ s with sched := s.sched.create true }.setProcess t (some p))
      else none

/-- The creator calls `task_create_user`, and gives back what it holds when that fails. -/
def spawn (s : State) (t : Slot) (p : Nat) (stack : Bool) (failed : State) : State :=
  match s.taskCreateUser p stack with
  | some s => s.setPc t .idle
  | none => failed

/-- The check at the start of `process_execve`. -/
def exec (s : State) (t : Slot) (p : Nat) : State :=
  let process := s.procs p
  if process.refCount ≠ 1 ∨ process.execInProgress = true then s
  else (s.setProc p { process with execInProgress := true }).setPc t .exec

def execFail (s : State) (t : Slot) (p : Nat) : State :=
  (s.setProc p { s.procs p with execInProgress := false }).setPc t .idle

/-- `process_execve` makes the new process that of the task, which has an address space. -/
def execSwap (s : State) (t : Slot) (p old : Nat) : State :=
  ((s.setProcess t (some p)).setProc old { s.procs old with mm := true }).setPc t (.destroying old false)

/-- Where a call that destroys a process returns to. -/
def back (exec : Bool) : Pc := if exec = true then .exec else .idle

def destroyCall (s : State) (t : Slot) (p : Nat) (exec : Bool) : State :=
  match s.destroy p with
  | (none, s) => s.setPc t (back exec)
  | (some mm, s) => s.setPc t (.ending p mm exec)

def destroyReap (s : State) (t : Slot) (p : Nat) : State :=
  match s.destroy p with
  | (none, s) => s.setReap t .idle
  | (some mm, s) => s.setReap t (.ending p mm)

end State

inductive Label where
  | load (cpu : Cpu)
  | fork (cpu : Cpu)
  | thread (cpu : Cpu)
  | spawn (cpu : Cpu) (stack : Bool)
  | undo (cpu : Cpu)
  | abandon (cpu : Cpu)
  | exec (cpu : Cpu)
  | execFail (cpu : Cpu)
  | execSwap (cpu : Cpu)
  | destroy (cpu : Cpu)
  | finish (cpu : Cpu)
  | reapDestroy (t : Slot)
  | reapFinish (t : Slot)
  | sched (event : Sched.Label)
  deriving DecidableEq

namespace State

def current (s : State) (cpu : Cpu) : Slot := s.sched.current cpu

/-- The task executes kernel code. -/
def Runs (s : State) (t : Slot) : Prop := (s.sched.tasks t).state = .running

instance (s : State) (t : Slot) : Decidable (s.Runs t) := inferInstanceAs (Decidable (_ = _))

/-- A task in a system call keeps its CPU, as interrupts are masked; the boot code and the shell run on
the idle tasks, which may be switched out. The calls of a task come one after the other, and the
reaper clears a slot last. -/
def Allows (s : State) : Sched.Label → Prop
  | .schedule cpu => s.pc (s.current cpu) = .idle ∨ (s.sched.tasks (s.current cpu)).id < 4
  | .park cpu | .sleep cpu _ | .wait4 cpu _ | .exit cpu | .assignParent cpu _ =>
    s.Runs (s.current cpu) ∧ s.pc (s.current cpu) = .idle
  | .clear t => s.reap t = .idle
  | .create user => user = false
  | _ => True

instance (s : State) (event : Sched.Label) : Decidable (s.Allows event) := by
  unfold Allows
  rcases event with ⟨⟩ <;> infer_instance

/-- What a step of the scheduler means for the pointers. -/
def follow (s : State) (sched : Sched.State) : Sched.Label → State
  | .detach t =>
    ({ s with sched := sched }.setReap t
      (match s.process t with
        | some p => .destroying p
        | none => .idle)).setProcess t none
  | .create _ =>
    match s.sched.freeSlot with
    | some t => { s with sched := sched }.setProcess t none
    | none => { s with sched := sched }
  | .clear t => { s with sched := sched }.setProcess t none
  | _ => { s with sched := sched }

end State

/-- The boot code and the shell load programs on idle tasks; the other calls are system calls. -/
def step (s : State) : Label → Option State
  | .load cpu =>
    let t := s.current cpu
    if s.Runs t then
      match s.pc t with
      | .idle => if (s.sched.tasks t).id < 4 then some (s.create.setPc t (.created s.next)) else none
      | .exec => some (s.create.setPc t (.loaded s.next))
      | _ => none
    else none
  | .fork cpu =>
    let t := s.current cpu
    if s.Runs t ∧ s.pc t = .idle ∧ (s.process t).isSome = true then
      some (s.create.setPc t (.forked s.next))
    else none
  | .thread cpu =>
    let t := s.current cpu
    match s.process t with
    | some p => if s.Runs t ∧ s.pc t = .idle then some (s.thread t p) else none
    | none => none
  | .spawn cpu stack =>
    let t := s.current cpu
    match s.pc t with
    | .created p => some (s.spawn t p stack (s.setPc t (.destroying p false)))
    | .forked p => some (s.spawn t p stack ((s.finish p true).setPc t .idle))
    | .thread p => some (s.spawn t p stack (s.setPc t (.failed p)))
    | _ => none
  | .undo cpu =>
    match s.pc (s.current cpu) with
    | .failed p => some (s.undo (s.current cpu) p)
    | _ => none
  | .abandon cpu =>
    match s.pc (s.current cpu) with
    | .created p => some (s.setPc (s.current cpu) (.destroying p false))
    | .loaded p => some (s.setPc (s.current cpu) (.destroying p true))
    | _ => none
  | .exec cpu =>
    let t := s.current cpu
    match s.process t with
    | some p => if s.Runs t ∧ s.pc t = .idle then some (s.exec t p) else none
    | none => none
  | .execFail cpu =>
    let t := s.current cpu
    match s.pc t, s.process t with
    | .exec, some p => some (s.execFail t p)
    | _, _ => none
  | .execSwap cpu =>
    let t := s.current cpu
    match s.pc t, s.process t with
    | .loaded p, some old => some (s.execSwap t p old)
    | _, _ => none
  | .destroy cpu =>
    match s.pc (s.current cpu) with
    | .destroying p exec => some (s.destroyCall (s.current cpu) p exec)
    | _ => none
  | .finish cpu =>
    match s.pc (s.current cpu) with
    | .ending p mm exec => some ((s.finish p mm).setPc (s.current cpu) (State.back exec))
    | _ => none
  | .reapDestroy t =>
    match s.reap t with
    | .destroying p => some (s.destroyReap t p)
    | _ => none
  | .reapFinish t =>
    match s.reap t with
    | .ending p mm => some ((s.finish p mm).setReap t .idle)
    | _ => none
  | .sched event =>
    if s.Allows event then (Sched.step s.sched event).map fun sched => s.follow sched event else none

def init : State :=
  { sched := Sched.init
    procs := fun _ => { refCount := 0, execInProgress := false, mm := false }
    next := 0
    process := fun _ => none
    pc := fun _ => .idle
    reap := fun _ => .idle
    released := fun _ => 0
    freed := fun _ => 0 }

end OsArmv8a.Proc
