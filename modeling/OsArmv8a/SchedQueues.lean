import OsArmv8a.Lib.Queues
import OsArmv8a.Lib.Transition
import OsArmv8a.Sched

/-! The run queues of `sched.c` as linked lists: the operations on links, end pointers and counters
refine those on lists of slots, and tasks are placed evenly. -/

set_option autoImplicit false

namespace OsArmv8a.Sched

open Intrusive (Queues)

/-- `run_queues`, the fields of the tasks that belong to them, and the `state` of each task. -/
structure Links where
  queues : Queues Cpu Slot
  nrRunning : Cpu → Nat
  onRq : Slot → Bool
  rqCpu : Slot → Option Cpu
  nextEnqueueCpu : Cpu
  state : Slot → TaskState

namespace Links

def setOnRq (l : Links) (t : Slot) (on : Bool) : Links :=
  { l with onRq := fun u => if u = t then on else l.onRq u }

def setRqCpu (l : Links) (t : Slot) (cpu : Option Cpu) : Links :=
  { l with rqCpu := fun u => if u = t then cpu else l.rqCpu u }

def setState (l : Links) (t : Slot) (state : TaskState) : Links :=
  { l with state := fun u => if u = t then state else l.state u }

def setQueue (l : Links) (queues : Queues Cpu Slot) (cpu : Cpu) (nrRunning : Nat) : Links :=
  { l with
    queues := queues
    nrRunning := fun c => if c = cpu then nrRunning else l.nrRunning c }

/-- `sched_rq_enqueue_locked`. -/
def enqueue (ids : Slot → Nat) (l : Links) (t : Slot) (cpu : Cpu) : Links :=
  if ids t < 4 ∨ l.onRq t = true then l
  else ((l.setRqCpu t (some cpu)).setOnRq t true).setQueue (l.queues.append cpu t) cpu
    (l.nrRunning cpu + 1)

/-- `sched_rq_dequeue_locked`. -/
def dequeue (l : Links) (cpu : Cpu) : Option Slot × Links :=
  match l.queues.dequeue cpu with
  | (none, _) => (none, l)
  | (some t, queues) => (some t, (l.setQueue queues cpu (l.nrRunning cpu - 1)).setOnRq t false)

/-- `sched_rq_remove_locked`; `none` when the loop follows more than 32 links. -/
def remove (l : Links) (t : Slot) : Option (Bool × Links) :=
  if l.onRq t = false then some (false, l)
  else
    match l.rqCpu t with
    | none => some (false, l)
    | some cpu =>
      (l.queues.remove 32 cpu t).map fun removed =>
        if removed.1 = true then
          (true, (l.setQueue removed.2 cpu (l.nrRunning cpu - 1)).setOnRq t false)
        else
          (false, { l.setOnRq t false with
            queues := { l.queues with next := fun u => if u = t then none else l.queues.next u } })

/-- `sched_least_loaded_cpu_locked`. -/
def leastLoaded (l : Links) : Cpu × Links :=
  let best := [1, 2, 3].foldl (fun best offset =>
    let cpu := l.nextEnqueueCpu + offset
    if l.nrRunning cpu < l.nrRunning best then cpu else best) l.nextEnqueueCpu
  (best, { l with nextEnqueueCpu := best + 1 })

/-- The loop that drops entries until one is `READY`; `none` when `fuel` rounds do not end it. -/
def popReady (cpu : Cpu) : Nat → Links → Option (Option Slot × Links)
  | 0, _ => none
  | fuel + 1, l =>
    match l.dequeue cpu with
    | (none, l) => some (none, l)
    | (some t, l) => if l.state t = .ready then some (some t, l) else popReady cpu fuel l

def busiest (l : Links) (cpu : Cpu) : Cpu :=
  [0, 1, 2, 3].foldl (fun busiest other =>
    if l.nrRunning busiest < l.nrRunning other then other else busiest) cpu

/-- `sched_pick_next_locked`. -/
def pickNext (l : Links) (cpu : Cpu) : Option (Option Slot × Links) :=
  (popReady cpu 33 l).bind fun
    | (some t, l) => some (some t, l)
    | (none, l) =>
      if l.busiest cpu = cpu ∨ l.nrRunning (l.busiest cpu) = 0 then some (none, l)
      else
        (popReady (l.busiest cpu) 33 l).map fun
          | (some t, l) => (some t, l.setRqCpu t (some cpu))
          | (none, l) => (none, l)

/-- `sched_make_ready_locked`. -/
def makeReady (ids : Slot → Nat) (l : Links) (t : Slot) : Links :=
  if ids t < 4 then l
  else
    let (cpu, l) := (l.setState t .ready).leastLoaded
    l.enqueue ids t cpu

end Links

inductive QueueOp where
  | enqueue (t : Slot) (cpu : Cpu)
  | dequeue (cpu : Cpu)
  | remove (t : Slot)
  | pickNext (cpu : Cpu)
  | makeReady (t : Slot)
  | setState (t : Slot) (state : TaskState)

/-- One operation, with the task it returns; a successful `remove` returns its argument here. -/
def Links.perform (ids : Slot → Nat) (l : Links) : QueueOp → Option (Option Slot × Links)
  | .enqueue t cpu => some (none, l.enqueue ids t cpu)
  | .dequeue cpu => some (l.dequeue cpu)
  | .remove t => (l.remove t).map fun removed => (if removed.1 = true then some t else none, removed.2)
  | .pickNext cpu => l.pickNext cpu
  | .makeReady t => some (none, l.makeReady ids t)
  | .setState t state => some (none, l.setState t state)

def Links.step (ids : Slot → Nat) (l : Links) (op : QueueOp) : Option Links :=
  (l.perform ids op).map Prod.snd

/-- The same operation on lists of slots. -/
def RunQueues.perform (ids : Slot → Nat) (state : Slot → TaskState) (rq : RunQueues) :
    QueueOp → Option Slot × RunQueues
  | .enqueue t cpu => (none, rq.enqueue (ids t) t cpu)
  | .dequeue cpu => rq.dequeue cpu
  | .remove t => (if rq.onRq t = true then some t else none, rq.remove t)
  | .pickNext cpu => rq.pickNext (fun t => state t = .ready) cpu
  | .makeReady t =>
    if ids t < 4 then (none, rq)
    else (none, rq.leastLoaded.2.enqueue (ids t) t rq.leastLoaded.1)
  | .setState _ _ => (none, rq)

/-- The links hold the lists, from head to tail; counters, flags and queue indices agree with them. -/
structure Links.Refines (ids : Slot → Nat) (l : Links) (rq : RunQueues) : Prop where
  rep : l.queues.Represents rq.queue
  count : l.nrRunning = fun cpu => (rq.queue cpu).length
  flags : l.onRq = rq.onRq
  homes : l.rqCpu = rq.rqCpu
  cursor : l.nextEnqueueCpu = rq.nextEnqueueCpu
  queued : ∀ t, l.onRq t = true ↔ ∃ cpu, t ∈ rq.queue cpu
  placed : ∀ cpu, ∀ t ∈ rq.queue cpu, l.rqCpu t = some cpu ∧ 4 ≤ ids t

variable {ids : Slot → Nat} {l : Links} {rq : RunQueues} {t : Slot} {cpu : Cpu}

namespace Links

theorem Refines.short (ref : Refines ids l rq) (cpu : Cpu) : (rq.queue cpu).length ≤ 32 := by
  simpa using (ref.rep.nodup cpu).length_le_card

theorem Refines.enqueue (ref : Refines ids l rq) (t : Slot) (cpu : Cpu) :
    Refines ids (l.enqueue ids t cpu) (rq.enqueue (ids t) t cpu) := by
  unfold Links.enqueue RunQueues.enqueue
  rw [ref.flags]
  split
  · exact ref
  rename_i allowed
  obtain ⟨user, off⟩ := not_or.mp allowed
  have free : ∀ c, t ∉ rq.queue c := fun c member => off (ref.flags ▸ (ref.queued t).mpr ⟨c, member⟩)
  refine ⟨ref.rep.append free, ?_, ?_, ?_, ref.cursor, ?_, ?_⟩
  · funext c
    by_cases same : c = cpu <;> simp [setQueue, RunQueues.setQueue, same, setOnRq, setRqCpu,
      RunQueues.setOnRq, RunQueues.setRqCpu, ref.count]
  · exact congrArg (fun (flags : Slot → Bool) u => if u = t then true else flags u) ref.flags
  · exact congrArg (fun (homes : Slot → Option Cpu) u => if u = t then some cpu else homes u) ref.homes
  · intro u
    by_cases same : u = t
    · subst same
      exact iff_of_true (if_pos rfl) ⟨cpu, by simp [RunQueues.setQueue]⟩
    · have before := ref.queued u
      simp only [setQueue, setOnRq, setRqCpu, if_neg same, before]
      refine exists_congr fun c => ?_
      by_cases here : c = cpu <;> simp [RunQueues.setQueue, RunQueues.setOnRq, RunQueues.setRqCpu, here,
        same]
  · intro c u member
    by_cases same : u = t
    · subst same
      by_cases here : c = cpu
      · exact ⟨by simp [setQueue, setOnRq, setRqCpu, here], by omega⟩
      · have there : u ∈ rq.queue c := by
          simpa [RunQueues.setQueue, RunQueues.setOnRq, RunQueues.setRqCpu, here] using member
        exact absurd there (free c)
    · have before : u ∈ rq.queue c := by
        by_cases here : c = cpu <;> simp_all [RunQueues.setQueue, RunQueues.setOnRq, RunQueues.setRqCpu]
      simpa [setQueue, setOnRq, setRqCpu, same] using ref.placed c u before

/-- A queued task is taken off its queue. -/
theorem Refines.take (ref : Refines ids l rq) {queues : Queues Cpu Slot} (member : t ∈ rq.queue cpu)
    (rep : queues.Represents (Queues.put rq.queue cpu ((rq.queue cpu).erase t))) :
    Refines ids ((l.setQueue queues cpu (l.nrRunning cpu - 1)).setOnRq t false)
      ((rq.setQueue cpu ((rq.queue cpu).erase t)).setOnRq t false) := by
  have inside : ∀ c u, u ∈ Queues.put rq.queue cpu ((rq.queue cpu).erase t) c ↔
      u ∈ rq.queue c ∧ u ≠ t := by
    intro c u
    unfold Queues.put
    split
    · rename_i here
      rw [here, (ref.rep.nodup cpu).mem_erase_iff, and_comm]
    · rename_i away
      refine ⟨fun other => ⟨other, ?_⟩, And.left⟩
      rintro rfl
      exact away (ref.rep.disjoint c cpu u other member)
  refine ⟨rep, ?_, ?_, ref.homes, ref.cursor, ?_, ?_⟩
  · funext c
    have length := List.length_erase_of_mem member
    by_cases same : c = cpu <;> simp [setQueue, RunQueues.setQueue, setOnRq, RunQueues.setOnRq, same,
      ref.count, length]
  · exact congrArg (fun (flags : Slot → Bool) u => if u = t then false else flags u) ref.flags
  · intro u
    have after := fun c => inside c u
    by_cases same : u = t
    · exact iff_of_false (by simp [setOnRq, same]) fun ⟨c, there⟩ => ((after c).mp there).2 same
    · simp only [setOnRq, setQueue, if_neg same]
      exact (ref.queued u).trans (exists_congr fun c => ((after c).trans (and_iff_left same)).symm)
  · intro c u there
    exact ref.placed c u ((inside c u).mp there).1

theorem Refines.dequeue (ref : Refines ids l rq) (cpu : Cpu) :
    (l.dequeue cpu).1 = (rq.dequeue cpu).1 ∧ Refines ids (l.dequeue cpu).2 (rq.dequeue cpu).2 ∧
      (l.dequeue cpu).2.state = l.state ∧
      ∀ t, (rq.dequeue cpu).1 = some t → (l.dequeue cpu).2.onRq t = false ∧
        ((rq.dequeue cpu).2.queue cpu).length < (rq.queue cpu).length := by
  unfold Links.dequeue RunQueues.dequeue
  cases list : rq.queue cpu with
  | nil =>
    rw [ref.rep.dequeue_nil list]
    exact ⟨rfl, ref, rfl, nofun⟩
  | cons t rest =>
    obtain ⟨first, rep⟩ := ref.rep.dequeue_cons list
    generalize l.queues.dequeue cpu = result at first rep
    obtain ⟨_, queues⟩ := result
    subst first
    have erased : queues.Represents (Queues.put rq.queue cpu ((rq.queue cpu).erase t)) := by
      simpa [list] using rep
    have taken := ref.take (list ▸ List.mem_cons_self) erased
    rw [list, List.erase_cons_head] at taken
    refine ⟨rfl, taken, rfl, ?_⟩
    rintro _ ⟨⟩
    exact ⟨if_pos rfl, by simp [RunQueues.setOnRq, RunQueues.setQueue]⟩

theorem Refines.remove (ref : Refines ids l rq) (t : Slot) : ∃ r, l.remove t =
    some (rq.onRq t, r) ∧ Refines ids r (rq.remove t) := by
  unfold Links.remove RunQueues.remove
  rw [ref.flags, ref.homes]
  split
  · rename_i off
    exact ⟨l, by rw [off], ref⟩
  rename_i on
  have on := Bool.not_eq_false _ ▸ on
  obtain ⟨cpu, member⟩ := (ref.queued t).mp (by rw [ref.flags]; exact on)
  have home := (ref.placed cpu t member).1
  rw [ref.homes] at home
  obtain ⟨queues, result, rep⟩ := ref.rep.remove_eq (t := t) (ref.short cpu)
  rw [home]
  dsimp only
  rw [result, on]
  exact ⟨_, by simp [member], ref.take member rep⟩

/-- The loop ends: every round takes an entry. -/
theorem Refines.popReady (cpu : Cpu) (fuel : Nat) : ∀ {l : Links} {rq : RunQueues} (enough : Nat),
    Refines ids l rq → (rq.queue cpu).length < fuel → (rq.queue cpu).length < enough →
    ∃ r, Links.popReady cpu fuel l =
        some ((rq.popReady (fun t => l.state t = .ready) cpu enough).1, r) ∧
      Refines ids r (rq.popReady (fun t => l.state t = .ready) cpu enough).2 ∧ r.state = l.state ∧
      ∀ t, (rq.popReady (fun t => l.state t = .ready) cpu enough).1 = some t → r.onRq t = false := by
  induction fuel with
  | zero => exact fun _ _ none => absurd none (Nat.not_lt_zero _)
  | succ fuel ih =>
    intro l rq enough ref short bound
    obtain ⟨enough, rfl⟩ := Nat.exists_eq_add_of_le' (Nat.one_le_of_lt bound)
    obtain ⟨same, after, kept, taken⟩ := ref.dequeue cpu
    unfold Links.popReady RunQueues.popReady
    generalize l.dequeue cpu = concrete at same after kept taken
    generalize rq.dequeue cpu = listed at same after taken
    obtain ⟨found, l'⟩ := concrete
    obtain ⟨_, rq'⟩ := listed
    dsimp only at same
    subst same
    cases found with
    | none => exact ⟨l', rfl, after, kept, nofun⟩
    | some t =>
      obtain ⟨off, fewer⟩ := taken t rfl
      dsimp only at off fewer kept after ⊢
      rw [kept]
      by_cases ready : l.state t = .ready
      · rw [if_pos ready, if_pos (decide_eq_true ready)]
        refine ⟨l', rfl, after, kept, ?_⟩
        rintro _ ⟨⟩
        exact off
      · rw [if_neg ready, if_neg (by simpa using ready), ← kept]
        exact ih enough after (by omega) (by omega)

theorem Refines.pickNext (ref : Refines ids l rq) (cpu : Cpu) : ∃ r, l.pickNext cpu =
    some ((rq.pickNext (fun t => l.state t = .ready) cpu).1, r) ∧
      Refines ids r (rq.pickNext (fun t => l.state t = .ready) cpu).2 := by
  obtain ⟨l', own, ref', kept, -⟩ := popReady cpu 33 ((rq.queue cpu).length + 1) ref
    (Nat.lt_succ_of_le (ref.short cpu)) (Nat.lt_succ_self _)
  unfold Links.pickNext RunQueues.pickNext
  rw [own]
  generalize rq.popReady (fun t => l.state t = .ready) cpu ((rq.queue cpu).length + 1) = popped at ref' ⊢
  obtain ⟨_ | t, rq'⟩ := popped
  · have busiest : l'.busiest cpu = rq'.busiest cpu := by
      unfold Links.busiest
      rw [ref'.count]
      rfl
    have empty : l'.nrRunning (rq'.busiest cpu) = 0 ↔ rq'.queue (rq'.busiest cpu) = [] := by
      rw [ref'.count]
      exact List.length_eq_zero_iff
    dsimp only [Option.bind_some] at ref' ⊢
    rw [busiest]
    by_cases idle : rq'.busiest cpu = cpu ∨ rq'.queue (rq'.busiest cpu) = []
    · rw [if_pos idle, if_pos (idle.imp_right empty.mpr)]
      exact ⟨l', rfl, ref'⟩
    rw [if_neg idle, if_neg (fun both => idle (both.imp_right empty.mp))]
    obtain ⟨r, stolen, after, -, off⟩ := popReady (rq'.busiest cpu) 33
      ((rq'.queue (rq'.busiest cpu)).length + 1) ref' (Nat.lt_succ_of_le (ref'.short _))
      (Nat.lt_succ_self _)
    rw [kept] at stolen after off
    rw [stolen]
    generalize rq'.popReady (fun t => l.state t = .ready) (rq'.busiest cpu)
      ((rq'.queue (rq'.busiest cpu)).length + 1) = theft at after off ⊢
    obtain ⟨_ | t, rq''⟩ := theft
    · exact ⟨r, rfl, after⟩
    · refine ⟨_, rfl, after.rep, after.count, after.flags,
        congrArg (fun (homes : Slot → Option Cpu) u => if u = t then some cpu else homes u) after.homes,
        after.cursor, after.queued, fun c u member => ?_⟩
      have other : u ≠ t := by
        rintro rfl
        exact Bool.false_ne_true ((off u rfl).symm.trans ((after.queued u).mpr ⟨c, member⟩))
      simpa [setRqCpu, other] using after.placed c u member
  · exact ⟨l', rfl, ref'⟩

theorem Refines.makeReady (ref : Refines ids l rq) (t : Slot) :
    Refines ids (l.makeReady ids t) (rq.perform ids l.state (.makeReady t)).2 := by
  by_cases idle : ids t < 4
  · rw [Links.makeReady, RunQueues.perform, if_pos idle, if_pos idle]
    exact ref
  rw [Links.makeReady, RunQueues.perform, if_neg idle, if_neg idle]
  have least : (l.setState t .ready).leastLoaded.1 = rq.leastLoaded.1 := by
    unfold Links.leastLoaded RunQueues.leastLoaded setState
    rw [ref.count, ref.cursor]
  have moved : Refines ids (l.setState t .ready).leastLoaded.2 rq.leastLoaded.2 :=
    ⟨ref.rep, ref.count, ref.flags, ref.homes, congrArg (· + 1) least, ref.queued, ref.placed⟩
  dsimp only
  rw [← least]
  exact moved.enqueue t _

/-- Every operation on the links does to the lists what it should, and ends. -/
theorem Refines.perform (ref : Refines ids l rq) (op : QueueOp) : ∃ r,
    l.perform ids op = some ((rq.perform ids l.state op).1, r) ∧
      Refines ids r (rq.perform ids l.state op).2 := by
  cases op with
  | enqueue t cpu => exact ⟨_, rfl, ref.enqueue t cpu⟩
  | dequeue cpu =>
    obtain ⟨same, after, -⟩ := ref.dequeue cpu
    exact ⟨_, congrArg some (Prod.ext same rfl), after⟩
  | remove t =>
    obtain ⟨r, result, after⟩ := ref.remove t
    exact ⟨r, by rw [Links.perform, result]; rfl, after⟩
  | pickNext cpu => exact ref.pickNext cpu
  | makeReady t =>
    refine ⟨_, ?_, ref.makeReady t⟩
    rw [Links.perform, RunQueues.perform]
    split <;> rfl
  | setState t state =>
    exact ⟨_, rfl, ref.rep, ref.count, ref.flags, ref.homes, ref.cursor, ref.queued, ref.placed⟩

/-- No task on any queue; everything that the queues do not fix is arbitrary. -/
def empty (next : Slot → Option Slot) (rqCpu : Slot → Option Cpu) (nextEnqueueCpu : Cpu)
    (state : Slot → TaskState) : Links where
  queues := { next := next, head := fun _ => none, tail := fun _ => none }
  nrRunning := fun _ => 0
  onRq := fun _ => false
  rqCpu := rqCpu
  nextEnqueueCpu := nextEnqueueCpu
  state := state

theorem run_refines (ops : List QueueOp) : ∀ {l : Links} {rq : RunQueues}, Refines ids l rq →
    ∃ r rq', Transition.run (step ids) l ops = some r ∧ Refines ids r rq' := by
  induction ops with
  | nil => exact fun ref => ⟨_, _, rfl, ref⟩
  | cons op ops ih =>
    intro l rq ref
    obtain ⟨r, done, after⟩ := ref.perform op
    have stepped : step ids l op = some r := by rw [step, done]; rfl
    rw [Transition.run, stepped]
    exact ih after

end Links

/-- After any operations, with task states changing in between, each queue is a list from head to
tail that the counters, flags and queue indices agree with, and each operation acts on it as on a
list. -/
theorem run_queues (ids : Slot → Nat) (next : Slot → Option Slot) (rqCpu : Slot → Option Cpu)
    (cursor : Cpu) (state : Slot → TaskState) (ops : List QueueOp) :
    ∃ l rq, Transition.run (Links.step ids) (Links.empty next rqCpu cursor state) ops = some l ∧
      l.Refines ids rq ∧ ∀ op, ∃ r, l.perform ids op = some ((rq.perform ids l.state op).1, r) ∧
        r.Refines ids (rq.perform ids l.state op).2 := by
  have initial : (Links.empty next rqCpu cursor state).Refines ids
      { queue := fun _ => [], onRq := fun _ => false, rqCpu := rqCpu, nextEnqueueCpu := cursor } :=
    ⟨⟨fun _ => rfl, fun _ => rfl, fun _ _ _ member => nomatch member⟩, rfl, rfl, rfl, rfl,
      fun t => iff_of_false Bool.false_ne_true fun ⟨_, member⟩ => (nomatch member),
      fun _ _ member => nomatch member⟩
  obtain ⟨l, rq, ran, ref⟩ := Links.run_refines ops initial
  exact ⟨l, rq, ran, ref, ref.perform⟩

/-- Keeping the first of the shortest. -/
theorem foldl_shortest (load : Cpu → Nat) (place : Cpu → Cpu) (offsets : List Cpu) : ∀ start,
    let best := offsets.foldl (fun best offset =>
      if load (place offset) < load best then place offset else best) start
    load best ≤ load start ∧ ∀ offset ∈ offsets, load best ≤ load (place offset) := by
  induction offsets with
  | nil => exact fun start => ⟨Nat.le_refl _, nofun⟩
  | cons offset offsets ih =>
    intro start
    simp only [List.foldl_cons, List.forall_mem_cons]
    split
    · rename_i less
      obtain ⟨first, rest⟩ := ih (place offset)
      exact ⟨by omega, first, rest⟩
    · obtain ⟨first, rest⟩ := ih start
      exact ⟨first, by omega, rest⟩

theorem leastLoaded_le (rq : RunQueues) (c : Cpu) :
    (rq.queue rq.leastLoaded.1).length ≤ (rq.queue c).length := by
  obtain ⟨first, rest⟩ := foldl_shortest (fun c => (rq.queue c).length)
    (fun offset => rq.nextEnqueueCpu + offset) [1, 2, 3] rq.nextEnqueueCpu
  have covered : ∀ cursor c : Cpu, c = cursor ∨ ∃ offset ∈ ([1, 2, 3] : List Cpu), cursor + offset = c := by
    decide
  rcases covered rq.nextEnqueueCpu c with rfl | ⟨offset, member, rfl⟩
  · exact first
  · exact rest offset member

/-- The queues' lengths differ by at most `d`. -/
def RunQueues.Level (rq : RunQueues) (d : Nat) : Prop :=
  ∀ a b, (rq.queue a).length ≤ (rq.queue b).length + d

/-- At most the shortest queue grows. -/
theorem makeReady_level {s : State} {d : Nat} (level : s.rq.Level d) (positive : 1 ≤ d) (t : Slot) :
    (s.makeReady t).rq.Level d := by
  unfold State.makeReady
  split
  · exact level
  show (s.rq.leastLoaded.2.enqueue _ t s.rq.leastLoaded.1).Level d
  unfold RunQueues.enqueue
  split
  · exact level
  intro a b
  have least := leastLoaded_le s.rq b
  have before := level a b
  show (if a = s.rq.leastLoaded.1 then s.rq.queue s.rq.leastLoaded.1 ++ [t] else s.rq.queue a).length ≤
    (if b = s.rq.leastLoaded.1 then s.rq.queue s.rq.leastLoaded.1 ++ [t] else s.rq.queue b).length + d
  split <;> split <;> simp_all <;> omega

/-- The search returns a CPU with a shortest queue, and a burst of tasks made ready keeps the lengths
as close as they were, or within one. -/
theorem makeReady_balanced (s : State) (d : Nat) (level : s.rq.Level d) (burst : List Slot) :
    (∀ (rq : RunQueues) (c : Cpu), (rq.queue rq.leastLoaded.1).length ≤ (rq.queue c).length) ∧
      (burst.foldl State.makeReady s).rq.Level (max d 1) := by
  refine ⟨leastLoaded_le, ?_⟩
  have wider : s.rq.Level (max d 1) := fun a b => Nat.le_trans (level a b) (by omega)
  clear level
  induction burst generalizing s with
  | nil => exact wider
  | cons t burst ih => exact ih _ (makeReady_level wider (Nat.le_max_right d 1) t)

theorem makeReady_balanced_two :
    (([4, 5].foldl State.makeReady ((init.create true).create true)).rq.queue 1 = [5]) ∧
      ([4, 5].foldl State.makeReady ((init.create true).create true)).rq.Level 1 :=
  have empty : ((init.create true).create true).rq.Level 0 := by unfold RunQueues.Level; decide +kernel
  ⟨by decide +kernel, (makeReady_balanced _ 0 empty [4, 5]).2⟩

end OsArmv8a.Sched
