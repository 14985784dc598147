import OsArmv8a.Sync
import OsArmv8a.SchedStep
import OsArmv8a.Lib.Transition

/-! The wait queues over whole runs: each task is on at most one of them. -/

set_option autoImplicit false

namespace OsArmv8a.Sync

open Intrusive

/-- The task is in a blocking call and still on the queue it has joined. -/
def State.Waits (s : State) (t : Slot) : Prop :=
  match s.pc t with
  | .queued w | .parked w => t ∈ s.members w.obj
  | _ => False

instance (s : State) (t : Slot) : Decidable (s.Waits t) := by
  unfold State.Waits
  cases s.pc t <;> infer_instance

/-- The task is on no queue's account: idle, or on the way to its next attempt. -/
def State.Outside (s : State) (t : Slot) : Prop := ∀ w, s.pc t ≠ .queued w ∧ s.pc t ≠ .parked w

/-- Nothing but a dequeue ends a wait: no step makes a task `READY` that is still on the queue it has
joined, and such a task blocks when it parks. -/
def Tidy (s : State) (label : Label) : Prop :=
  match label with
  | .sched event => ∀ t, Sched.Wakes s.sched event t → ¬ s.Waits t
  | .unpark t => Sched.Wakes s.sched (.unpark t) t → ¬ s.Waits t
  | .park cpu => s.Waits (s.current cpu) → (s.sched.park (s.current cpu)).1 = true
  | _ => True

instance (s : State) (label : Label) : Decidable (Tidy s label) := by
  unfold Tidy
  rcases label with ⟨⟩ <;> infer_instance

/-- The queues are as recorded, whoever is on one is inside the call that has put it there, and a task
that has parked there executes nothing. -/
structure Linked (s : State) : Prop where
  known : Sched.Identified s.sched
  killable : Sched.Killable s.sched
  rep : s.queues.Represents s.members
  joined : ∀ o t, t ∈ s.members o → ∃ w, w.obj = o ∧ (s.pc t = .queued w ∨ s.pc t = .parked w)
  users : ∀ t, s.pc t ≠ .idle → 4 ≤ (s.sched.tasks t).id
  held : ∀ o t w, t ∈ s.members o → s.pc t = .parked w → (s.sched.tasks t).Held
  scanned : ∀ o t, (s.sched.tasks t).state = .reaping → o.index < s.scan t → t ∉ s.members o

/-- The state after the caller has joined a queue. -/
def State.join (s : State) (t : Slot) (w : Wait) : State :=
  ({ s with
    queues := s.queues.append w.obj t
    members := Queues.put s.members w.obj (s.members w.obj ++ [t]) }.setPc t (.queued w)).setGranted t
      false

/-- The state after the first task of a queue has left it. -/
def State.leave (s : State) (o : Obj) (t : Slot) (rest : List Slot) : State :=
  { s with
    queues := (s.queues.dequeue o).2, members := Queues.put s.members o rest, wakes := s.wakes ++ [t] }

/-- The state after the reaper has taken a task off a queue, which is then `queues`. -/
def State.without (s : State) (t : Slot) (o : Obj) (queues : Intrusive.Queues Obj Slot) : State :=
  { s with
    queues := queues, members := Queues.put s.members o ((s.members o).erase t)
    scan := fun u => if u = t then s.scan t + 1 else s.scan u }

variable {s : State}

theorem State.Executes.not_held {t : Slot} (executes : s.Executes t) :
    ¬ (s.sched.tasks t).Held := by
  rcases executes with running | ready
  · simp [Sched.Task.Held, running]
  · simp [Sched.Task.Held, ready]

theorem State.Executes.live {t : Slot} (executes : s.Executes t) :
    (s.sched.tasks t).state ≠ .reaping := fun reaping => executes.not_held (Or.inr (Or.inr reaping))

theorem State.Allows.acts {event : Sched.Label} {cpu : Cpu} (allows : s.Allows event)
    (ends : event.ender = some cpu) : s.Executes (s.current cpu) := by
  cases event <;> cases ends
  · exact allows.1
  · exact allows.1
  · exact allows.1

section Queues

variable {s r : State} {t u : Slot} {o : Obj} {w : Wait}

theorem Linked.congr (inv : Linked s) (sched : r.sched = s.sched) (queues : r.queues = s.queues)
    (members : r.members = s.members) (pc : r.pc = s.pc) (scan : r.scan = s.scan) : Linked r := by
  obtain ⟨known, killable, rep, joined, users, held, scanned⟩ := inv
  constructor
  · rwa [sched]
  · rwa [sched]
  · rwa [queues, members]
  · rwa [members, pc]
  · rwa [pc, sched]
  · rwa [members, pc, sched]
  · rwa [members, sched, scan]

/-- Tasks outside the blocking calls are on no queue. -/
theorem Linked.free (inv : Linked s) (out : s.Outside t) (o : Obj) : t ∉ s.members o := by
  intro member
  obtain ⟨w, _, queued | parked⟩ := inv.joined o t member
  · exact (out w).1 queued
  · exact (out w).2 parked

theorem Linked.setPc (inv : Linked s) (pc : Pc) (free : ∀ o, t ∉ s.members o)
    (user : pc ≠ .idle → 4 ≤ (s.sched.tasks t).id) : Linked (s.setPc t pc) := by
  obtain ⟨known, killable, rep, joined, users, held, scanned⟩ := inv
  have pcs : ∀ u, (s.setPc t pc).pc u = if u = t then pc else s.pc u := fun u => rfl
  refine ⟨known, killable, rep, ?_, ?_, ?_, scanned⟩
  · intro o u member
    rw [pcs, if_neg (ne_of_mem_of_not_mem member (free o))]
    exact joined o u member
  · intro u busy
    rw [pcs] at busy
    split at busy
    · rename_i same
      exact same ▸ user busy
    · exact users u busy
  · intro o u w member parked
    rw [pcs, if_neg (ne_of_mem_of_not_mem member (free o))] at parked
    exact held o u w member parked

theorem Linked.room (inv : Linked s) (o : Obj) : (s.members o).length ≤ 32 := by
  simpa using List.Nodup.length_le_card (inv.rep.nodup o)

theorem Linked.enqueue_eq (inv : Linked s) (free : ∀ o, t ∉ s.members o) :
    s.enqueue t w = some (true, s.join t w) := by
  unfold State.enqueue
  rw [inv.rep.enqueue_eq (inv.room w.obj), if_neg (free w.obj)]
  rfl

theorem State.mem_join (s : State) (t : Slot) (w : Wait) (o : Obj) (u : Slot) :
    u ∈ (s.join t w).members o ↔ u ∈ s.members o ∨ u = t ∧ o = w.obj := by
  show u ∈ Queues.put s.members w.obj (s.members w.obj ++ [t]) o ↔ _
  unfold Queues.put
  split
  · rename_i same
    simp [same]
  · rename_i other
    simp [other]

theorem Linked.join (inv : Linked s) (free : ∀ o, t ∉ s.members o)
    (large : 4 ≤ (s.sched.tasks t).id) (live : (s.sched.tasks t).state ≠ .reaping) :
    Linked (s.join t w) := by
  have pcs : ∀ u, (s.join t w).pc u = if u = t then .queued w else s.pc u := fun u => rfl
  have members := s.mem_join t w
  obtain ⟨known, killable, rep, joined, users, held, scanned⟩ := inv
  refine ⟨known, killable, rep.append free, ?_, ?_, ?_, ?_⟩
  · intro o u member
    rw [pcs]
    rcases (members o u).mp member with old | ⟨rfl, rfl⟩
    · rw [if_neg (ne_of_mem_of_not_mem old (free o))]
      exact joined o u old
    · exact ⟨w, rfl, Or.inl (if_pos rfl)⟩
  · intro u busy
    rw [pcs] at busy
    split at busy
    · rename_i same
      exact same ▸ large
    · exact users u busy
  · intro o u v member parked
    rw [pcs] at parked
    rcases (members o u).mp member with old | ⟨rfl, rfl⟩
    · rw [if_neg (ne_of_mem_of_not_mem old (free o))] at parked
      exact held o u v old parked
    · rw [if_pos rfl] at parked
      cases parked
  · intro o u reaping before member
    rcases (members o u).mp member with old | ⟨rfl, rfl⟩
    · exact scanned o u reaping before old
    · exact live reaping

/-- Tasks only leave queues. -/
theorem Linked.shrink (inv : Linked s) (rep : r.queues.Represents r.members)
    (fewer : ∀ o u, u ∈ r.members o → u ∈ s.members o) (sched : r.sched = s.sched)
    (pc : r.pc = s.pc) (scan : r.scan = s.scan) : Linked r := by
  obtain ⟨known, killable, _, joined, users, held, scanned⟩ := inv
  refine ⟨by rwa [sched], by rwa [sched], rep, ?_, by rwa [pc, sched], ?_, ?_⟩
  · intro o u member
    rw [pc]
    exact joined o u (fewer o u member)
  · intro o u v member
    rw [pc, sched]
    exact held o u v (fewer o u member)
  · intro o u reaping before member
    rw [sched] at reaping
    rw [scan] at before
    exact scanned o u reaping before (fewer o u member)

theorem Linked.leave {rest : List Slot} (inv : Linked s) (first : s.members o = t :: rest) :
    Linked (s.leave o t rest) := by
  refine inv.shrink (inv.rep.dequeue_cons first).2 ?_ rfl rfl rfl
  intro p u member
  have inside : u ∈ Queues.put s.members o rest p := member
  unfold Queues.put at inside
  split at inside
  · rename_i same
    rw [same, first]
    exact List.mem_cons_of_mem t inside
  · exact inside

/-- A dequeue finds nothing, or takes the task that has waited longest. -/
theorem Linked.dequeue_cases (inv : Linked s) (o : Obj) :
    s.members o = [] ∧ s.dequeue o = (none, s) ∨
      ∃ t rest, s.members o = t :: rest ∧ s.dequeue o = (some t, s.leave o t rest) := by
  unfold State.dequeue
  cases list : s.members o with
  | nil =>
    rw [inv.rep.dequeue_nil list]
    exact Or.inl ⟨rfl, rfl⟩
  | cons t rest =>
    obtain ⟨taken, _⟩ := inv.rep.dequeue_cons list
    refine Or.inr ⟨t, rest, rfl, ?_⟩
    cases result : s.queues.dequeue o with
    | mk first queues =>
      rw [result] at taken
      subst taken
      simp [State.leave, result]

theorem Linked.remove_eq (inv : Linked s) (t : Slot) (o : Obj) :
    ∃ queues, s.remove t o = some { s with
        queues := queues, members := Queues.put s.members o ((s.members o).erase t) } ∧
      Linked { s with
        queues := queues, members := Queues.put s.members o ((s.members o).erase t) } := by
  obtain ⟨queues, removed, rep⟩ := inv.rep.remove_eq (t := t) (inv.room o)
  refine ⟨queues, by simp [State.remove, removed], ?_⟩
  refine inv.shrink rep ?_ rfl rfl rfl
  intro p u member
  have inside : u ∈ Queues.put s.members o ((s.members o).erase t) p := member
  unfold Queues.put at inside
  split at inside
  · rename_i same
    exact same ▸ List.mem_of_mem_erase inside
  · exact inside

end Queues

/-! What each call does when the queues are in order. -/

section Calls

variable {s r : State} {t : Slot}

section

variable (inv : Linked s)

include inv

theorem Linked.lock_cases {m : Fin 64} (free : ∀ o, t ∉ s.members o) (taken : s.lock t m = some r) :
    (s.mutexes m).locked = false ∧
        r = (s.setMutex m { locked := true, owner := some t }).returns t (.mutex m) ∨
      (s.mutexes m).locked = true ∧ r = s.join t (.mutex m) := by
  unfold State.lock at taken
  split at taken
  · rename_i open'
    exact Or.inl ⟨open', (Option.some.inj taken).symm⟩
  · rename_i busy
    rw [inv.enqueue_eq free] at taken
    exact Or.inr ⟨Bool.eq_true_of_not_eq_false busy, (Option.some.inj taken).symm⟩

theorem Linked.wait_cases {x : Fin 64} (free : ∀ o, t ∉ s.members o) (taken : s.wait t x = some r) :
    0 < (s.semaphores x).value ∧ r = s.setSemaphore x { s.semaphores x with
        value := (s.semaphores x).value - 1, returned := (s.semaphores x).returned + 1 } ∨
      (s.semaphores x).value = 0 ∧ r = s.join t (.semaphore x) := by
  unfold State.wait at taken
  dsimp only at taken
  split at taken
  · rename_i positive
    exact Or.inl ⟨positive, (Option.some.inj taken).symm⟩
  · rw [inv.enqueue_eq free] at taken
    exact Or.inr ⟨by omega, (Option.some.inj taken).symm⟩

theorem Linked.receive_cases {k : Fin 8} {capacity : Nat} (free : ∀ o, t ∉ s.members o)
    (taken : s.receive t k capacity = some r) :
    (∃ message, r = (s.setChannel k message).setPc t .idle) ∨
      r = s.join t (.channel k capacity) := by
  have unchanged : s = s.setChannel k (s.channels k) := by
    cases s
    simp only [State.setChannel, State.mk.injEq, and_true, true_and]
    funext j
    split
    · rename_i same
      rw [same]
    · rfl
  unfold State.receive at taken
  split at taken
  · exact Or.inl ⟨s.channels k, by rw [← unchanged]; exact (Option.some.inj taken).symm⟩
  · split at taken
    · split at taken
      · exact Or.inl ⟨s.channels k, by rw [← unchanged]; exact (Option.some.inj taken).symm⟩
      · exact Or.inl ⟨none, (Option.some.inj taken).symm⟩
    · rw [inv.enqueue_eq free] at taken
      refine Or.inr ?_
      rw [← Option.some.inj taken]
      simp only [State.join, State.setPc, State.setGranted, State.mk.injEq, and_true, true_and]
      funext u
      split <;> rfl

theorem Linked.release_cases (m : Fin 64) :
    s.members (.mutex m) = [] ∧ s.release m = s.setMutex m { locked := false, owner := none } ∨
      ∃ next rest, s.members (.mutex m) = next :: rest ∧ s.release m =
        (s.leave (.mutex m) next rest).setMutex m { s.mutexes m with owner := some next } := by
  unfold State.release
  rcases inv.dequeue_cases (.mutex m) with ⟨empty, result⟩ | ⟨next, rest, first, result⟩
  · rw [result]
    exact Or.inl ⟨empty, rfl⟩
  · rw [result]
    exact Or.inr ⟨next, rest, first, rfl⟩

theorem Linked.post_cases (x : Fin 64) :
    s.members (.semaphore x) = [] ∧ s.post x = s.setSemaphore x { s.semaphores x with
        value := ((s.semaphores x).value + 1) % 2 ^ 64, posts := (s.semaphores x).posts + 1 } ∨
      ∃ t rest, s.members (.semaphore x) = t :: rest ∧ s.post x =
        ((s.leave (.semaphore x) t rest).setGranted t true).setSemaphore x { s.semaphores x with
          posts := (s.semaphores x).posts + 1, handed := (s.semaphores x).handed + 1 } := by
  unfold State.post
  rcases inv.dequeue_cases (.semaphore x) with ⟨empty, result⟩ | ⟨t, rest, first, result⟩
  · rw [result]
    exact Or.inl ⟨empty, rfl⟩
  · rw [result]
    exact Or.inr ⟨t, rest, first, rfl⟩

theorem Linked.signal_cases (d : Fin 64) :
    s.members (.condvar d) = [] ∧ s.signal d = s ∨
      ∃ t rest, s.members (.condvar d) = t :: rest ∧ s.signal d = s.leave (.condvar d) t rest := by
  unfold State.signal
  rcases inv.dequeue_cases (.condvar d) with ⟨empty, result⟩ | ⟨t, rest, first, result⟩
  · rw [result]
    exact Or.inl ⟨empty, rfl⟩
  · rw [result]
    exact Or.inr ⟨t, rest, first, rfl⟩

theorem Linked.setChannel (k : Fin 8) (message : Option (List UInt8)) :
    Linked (s.setChannel k message) :=
  inv.congr rfl rfl rfl rfl rfl

theorem Linked.send_cases (k : Fin 8) (data : List UInt8) :
    s.send k data = s ∨
      (s.members (.channel k) = [] ∧ s.send k data = s.setChannel k (some data)) ∨
      ∃ t rest, s.members (.channel k) = t :: rest ∧
        s.send k data = (s.setChannel k (some data)).leave (.channel k) t rest := by
  unfold State.send
  split
  · exact Or.inl rfl
  · right
    rcases (inv.setChannel k (some data)).dequeue_cases (.channel k) with
      ⟨empty, result⟩ | ⟨t, rest, first, result⟩
    · rw [result]
      exact Or.inl ⟨empty, rfl⟩
    · rw [result]
      exact Or.inr ⟨t, rest, first, rfl⟩

/-- Joining a queue and leaving it again changes no queue. -/
theorem Linked.condWait_cases {d : Fin 64} {m : Option (Fin 64)} (free : ∀ o, t ∉ s.members o)
    (out : s.pc t = .idle) (joined : ∀ w, Linked (s.join t w)) (taken : s.condWait t d m = some r) :
    (∃ n, m = some n ∧ r = (s.join t (.condvar d n)).unlock t n) ∨
      m = none ∧ ∃ queues, queues.Represents s.members ∧
        r = { s with queues := queues }.setGranted t false := by
  cases m with
  | some n =>
    unfold State.condWait at taken
    dsimp only at taken
    rw [inv.enqueue_eq free] at taken
    exact Or.inl ⟨n, rfl, (Option.some.inj taken).symm⟩
  | none =>
    obtain ⟨queues, removed, left⟩ := (joined (.condvar d 0)).remove_eq t (.condvar d)
    unfold State.condWait at taken
    rw [inv.enqueue_eq free] at taken
    simp only [Option.bind_some, if_true] at taken
    rw [removed] at taken
    have members : Queues.put (s.join t (.condvar d 0)).members (.condvar d)
        (((s.join t (.condvar d 0)).members (.condvar d)).erase t) = s.members := by
      funext o
      by_cases here : o = .condvar d
      · subst here
        simp [Queues.put, State.join, State.setPc, State.setGranted, Wait.obj,
          List.erase_append_right _ (free (.condvar d))]
      · simp [Queues.put, State.join, State.setPc, State.setGranted, Wait.obj, here]
    have rep := left.rep
    simp only [members] at rep
    refine Or.inr ⟨rfl, queues, rep, ?_⟩
    rw [← Option.some.inj taken, members]
    simp only [State.join, State.setPc, State.setGranted, State.mk.injEq, and_true, true_and]
    funext u
    by_cases same : u = t <;> simp [same, out]

/-- The reaper takes the task off one queue, and gives a mutex it owned to the next waiter. -/
theorem Linked.clean_cases {o : Obj} (taken : s.clean t o = some r) :
    ∃ queues, queues.Represents (Queues.put s.members o ((s.members o).erase t)) ∧
      (r = s.without t o queues ∧ (∀ m, o = .mutex m → (s.mutexes m).owner ≠ some t) ∨
        ∃ m, o = .mutex m ∧ (s.mutexes m).owner = some t ∧ r = (s.without t o queues).release m) := by
  obtain ⟨queues, removed, after⟩ := inv.remove_eq t o
  refine ⟨queues, after.rep, ?_⟩
  unfold State.clean at taken
  rw [removed] at taken
  rw [← Option.some.inj taken]
  cases o with
  | mutex m =>
    dsimp only
    split
    · rename_i owned
      exact Or.inr ⟨m, rfl, owned, rfl⟩
    · rename_i other
      refine Or.inl ⟨rfl, ?_⟩
      rintro n same
      cases same
      exact other
  | channel k => exact Or.inl ⟨rfl, by simp⟩
  | semaphore x => exact Or.inl ⟨rfl, by simp⟩
  | condvar d => exact Or.inl ⟨rfl, by simp⟩

end

end Calls

section Order

theorem Obj.index_nth {i : Nat} {o : Obj} (found : Obj.nth i = some o) : o.index = i := by
  unfold Obj.nth at found
  split at found
  · cases found
    show i % 8 = i
    omega
  · split at found
    · cases found
      show 8 + (i - 8) % 64 = i
      omega
    · split at found
      · cases found
        show 72 + (i - 72) % 64 = i
        omega
      · split at found
        · cases found
          show 136 + (i - 136) % 64 = i
          omega
        · cases found

theorem Obj.index_inj {o p : Obj} (same : o.index = p.index) : o = p := by
  cases o <;> cases p <;> simp only [Obj.index] at same <;> congr 1 <;> omega

theorem Obj.index_lt (o : Obj) : o.index < 200 := by
  cases o <;> simp only [Obj.index] <;> omega

theorem Obj.lt_of_nth_none {i : Nat} (past : Obj.nth i = none) (o : Obj) : o.index < i := by
  have bound := o.index_lt
  unfold Obj.nth at past
  split at past
  · cases past
  · split at past
    · cases past
    · split at past
      · cases past
      · split at past
        · cases past
        · omega

end Order

/-! Each step keeps the queues in order. -/

section Steps

variable {s r : State} {t : Slot} {cpu : Cpu}
variable {w : Wait}

section

variable (inv : Linked s)

include inv

theorem Linked.returns (free : ∀ o, t ∉ s.members o) (large : 4 ≤ (s.sched.tasks t).id) :
    Linked (s.returns t w) := by
  cases w with
  | mutex m => exact (inv.setPc .idle free nofun).congr rfl rfl rfl rfl rfl
  | semaphore x => exact (inv.setPc .idle free nofun).congr rfl rfl rfl rfl rfl
  | condvar d m => exact inv.setPc _ free fun _ => large
  | channel k capacity => exact inv.setPc _ free fun _ => large

theorem Linked.release (m : Fin 64) : Linked (s.release m) := by
  rcases inv.release_cases m with ⟨_, same⟩ | ⟨next, rest, first, same⟩
  · rw [same]
    exact inv.congr rfl rfl rfl rfl rfl
  · rw [same]
    exact (inv.leave first).congr rfl rfl rfl rfl rfl

theorem Linked.unlock (m : Fin 64) : Linked (s.unlock t m) :=
  (inv.release m).congr rfl rfl rfl rfl rfl

theorem Linked.post (x : Fin 64) : Linked (s.post x) := by
  rcases inv.post_cases x with ⟨_, same⟩ | ⟨next, rest, first, same⟩
  · rw [same]
    exact inv.congr rfl rfl rfl rfl rfl
  · rw [same]
    exact (inv.leave first).congr rfl rfl rfl rfl rfl

theorem Linked.signal (d : Fin 64) : Linked (s.signal d) := by
  rcases inv.signal_cases d with ⟨_, same⟩ | ⟨next, rest, first, same⟩
  · rwa [same]
  · rw [same]
    exact inv.leave first

theorem Linked.send (k : Fin 8) (data : List UInt8) : Linked (s.send k data) := by
  rcases inv.send_cases k data with same | ⟨_, same⟩ | ⟨next, rest, first, same⟩
  · rwa [same]
  · rw [same]
    exact inv.setChannel k _
  · rw [same]
    exact (inv.setChannel k _).leave first

theorem Linked.without {o : Obj} {queues : Intrusive.Queues Obj Slot}
    (rep : queues.Represents (Queues.put s.members o ((s.members o).erase t)))
    (turn : o.index = s.scan t) : Linked (s.without t o queues) := by
  have fewer : ∀ p u, u ∈ (s.without t o queues).members p → u ∈ s.members p := by
    intro p u member
    have inside : u ∈ Queues.put s.members o ((s.members o).erase t) p := member
    unfold Queues.put at inside
    split at inside
    · rename_i same
      exact same ▸ List.mem_of_mem_erase inside
    · exact inside
  obtain ⟨known, killable, old, joined, users, held, scanned⟩ := inv
  refine ⟨known, killable, rep, ?_, users, ?_, ?_⟩
  · exact fun p u member => joined p u (fewer p u member)
  · exact fun p u w member => held p u w (fewer p u member)
  · intro p u reaping before member
    have counts : (s.without t o queues).scan u = if u = t then s.scan t + 1 else s.scan u := rfl
    rw [counts] at before
    by_cases same : u = t ∧ p.index = s.scan t
    · obtain ⟨rfl, last⟩ := same
      rw [← turn] at last
      rw [Obj.index_inj last] at member
      have inside : u ∈ Queues.put s.members o ((s.members o).erase u) o := member
      simp only [Queues.put, if_true] at inside
      exact (old.nodup o).not_mem_erase inside
    · refine scanned p u reaping ?_ (fewer p u member)
      by_cases here : u = t
      · rw [if_pos here] at before
        have other : p.index ≠ s.scan t := fun last => same ⟨here, last⟩
        rw [here]
        omega
      · rwa [if_neg here] at before

theorem Linked.clean {o : Obj} (turn : o.index = s.scan t) (taken : s.clean t o = some r) :
    Linked r := by
  obtain ⟨queues, rep, ⟨same, _⟩ | ⟨m, _, _, same⟩⟩ := inv.clean_cases taken
  · rw [same]
    exact inv.without rep turn
  · rw [same]
    exact (inv.without rep turn).release m

end

/-- The calls of a task after a step of the scheduler. -/
theorem State.follow_pc (s : State) (sched : Sched.State) (event : Sched.Label) (u : Slot) :
    (s.follow sched event).pc u = if event = .clear u then .idle else s.pc u := by
  cases event with
  | clear t =>
    show (if u = t then Pc.idle else s.pc u) = _
    simp [eq_comm]
  | _ => simp [State.follow]

theorem State.follow_scan (s : State) (sched : Sched.State) (event : Sched.Label) (u : Slot) :
    (s.follow sched event).scan u = if event = .detach u then 0 else s.scan u := by
  cases event with
  | detach t =>
    show (if u = t then 0 else s.scan u) = _
    simp [eq_comm]
  | clear t => simp [State.follow, State.setPc, State.setGranted]
  | _ => simp [State.follow]

theorem State.follow_queues (s : State) (sched : Sched.State) (event : Sched.Label) :
    (s.follow sched event).sched = sched ∧ (s.follow sched event).queues = s.queues ∧
      (s.follow sched event).members = s.members := by
  cases event <;> exact ⟨rfl, rfl, rfl⟩

variable {sched : Sched.State} {event : Sched.Label}

/-- What a step of the scheduler can do to a task inside a call. -/
theorem Linked.user {u : Slot} (inv : Linked s) (taken : Sched.perform s.sched event = some sched)
    (acts : ∀ cpu, event.ender = some cpu → ¬ (s.sched.tasks (s.current cpu)).Held)
    (large : 4 ≤ (s.sched.tasks u).id) (stays : event ≠ .clear u) :
    (sched.tasks u).id = (s.sched.tasks u).id ∧
      ((s.sched.tasks u).Held → (sched.tasks u).Held ∨ Sched.Wakes s.sched event u) ∧
      ((sched.tasks u).state = .reaping ↔
        (s.sched.tasks u).state = .reaping ∨ event = .detach u) :=
  Sched.user_of_perform inv.known inv.killable large taken stays fun cpu ends same => same ▸ acts cpu ends

/-- A step of the scheduler that wakes nobody on a queue. -/
theorem Linked.follow (inv : Linked s) (taken : Sched.perform s.sched event = some sched)
    (acts : ∀ cpu, event.ender = some cpu → ¬ (s.sched.tasks (s.current cpu)).Held)
    (clears : ∀ u, event = .clear u → Obj.nth (s.scan u) = none)
    (wakes : ∀ u, Sched.Wakes s.sched event u → ∀ o, u ∉ s.members o) :
    Linked (s.follow sched event) := by
  have user := fun u => @Linked.user s sched event u inv taken acts
  obtain ⟨after, queues, members⟩ := s.follow_queues sched event
  obtain ⟨known, killable, rep, joined, users, held, scanned⟩ := inv
  have stays : ∀ o u, u ∈ s.members o → event ≠ .clear u := by
    rintro o u member rfl
    obtain ⟨reaping, _⟩ := Option.ite_none_right_eq_some.mp taken
    exact scanned o u reaping (Obj.lt_of_nth_none (clears u rfl) o) member
  have busy : ∀ o u, u ∈ s.members o → 4 ≤ (s.sched.tasks u).id := by
    intro o u member
    obtain ⟨w, _, queued | parked⟩ := joined o u member
    · exact users u (by simp [queued])
    · exact users u (by simp [parked])
  refine ⟨?_, ?_, ?_, ?_, ?_, ?_, ?_⟩
  · rw [after]
    exact known.perform taken
  · rw [after]
    exact killable.perform taken
  · rwa [queues, members]
  · intro o u member
    rw [members] at member
    rw [State.follow_pc, if_neg (stays o u member)]
    exact joined o u member
  · intro u inside
    rw [State.follow_pc] at inside
    have other : event ≠ .clear u := fun same => inside (if_pos same)
    rw [if_neg other] at inside
    rw [after, (user u (users u inside) other).1]
    exact users u inside
  · intro o u w member parked
    rw [members] at member
    rw [State.follow_pc, if_neg (stays o u member)] at parked
    rw [after]
    exact ((user u (busy o u member) (stays o u member)).2.1 (held o u w member parked)).resolve_right
      fun woken => wakes u woken o member
  · intro o u reaping before member
    rw [members] at member
    rw [State.follow_scan] at before
    rw [after] at reaping
    split at before
    · omega
    · rename_i other
      refine scanned o u ?_ before member
      exact (((user u (busy o u member) (stays o u member)).2.2.mp reaping).resolve_right other)

theorem Linked.waits_iff (inv : Linked s) : s.Waits t ↔ ∃ o, t ∈ s.members o := by
  constructor
  · intro waits
    unfold State.Waits at waits
    split at waits
    · exact ⟨_, waits⟩
    · exact ⟨_, waits⟩
    · exact waits.elim
  · rintro ⟨o, member⟩
    unfold State.Waits
    obtain ⟨w, rfl, queued | parked⟩ := inv.joined o t member
    · rw [queued]
      exact member
    · rw [parked]
      exact member

/-- A task that is still on its queue goes on to be parked. -/
theorem Linked.setParked (inv : Linked s) (queued : s.pc t = .queued w)
    (blocked : (s.sched.tasks t).Held) : Linked (s.setPc t (.parked w)) := by
  have pcs : ∀ u, (s.setPc t (.parked w)).pc u = if u = t then .parked w else s.pc u := fun u => rfl
  obtain ⟨known, killable, rep, joined, users, held, scanned⟩ := inv
  refine ⟨known, killable, rep, ?_, ?_, ?_, scanned⟩
  · intro o u member
    rw [pcs]
    obtain ⟨v, same, waits⟩ := joined o u member
    split
    · rename_i here
      rw [here, queued] at waits
      have sameWait : w = v := by simpa using waits
      exact ⟨w, sameWait ▸ same, Or.inr rfl⟩
    · exact ⟨v, same, waits⟩
  · intro u busy
    rw [pcs] at busy
    split at busy
    · rename_i here
      exact users u (by simp [here, queued])
    · exact users u busy
  · intro o u v member parked
    rw [pcs] at parked
    split at parked
    · rename_i here
      exact here ▸ blocked
    · exact held o u v member parked

theorem Linked.park (inv : Linked s) (queued : s.pc (s.current cpu) = .queued w)
    (tidy : Tidy s (.park cpu)) : Linked (s.park (s.current cpu) w) := by
  have after : Linked (s.follow (s.sched.park (s.current cpu)).2 (.park cpu)) :=
    inv.follow rfl nofun nofun fun u woken => woken.elim
  unfold State.park
  cases result : s.sched.park (s.current cpu) with
  | mk blocked sched =>
    rw [result] at after
    cases blocked with
    | true =>
      refine after.setParked queued (Or.inl ?_)
      exact Sched.State.park_blocked result
    | false =>
      refine after.returns ?_ ?_
      · intro o member
        have waits := inv.waits_iff.mpr ⟨o, member⟩
        have parked := tidy waits
        rw [result] at parked
        cases parked
      · exact after.users _ (by simp [State.follow, queued])

theorem Linked.unpark (inv : Linked s) (tidy : Tidy s (.unpark t)) : Linked (s.unpark t) := by
  have after : Linked (s.follow (s.sched.unpark t) (.unpark t)) := by
    refine inv.follow rfl nofun nofun ?_
    intro u woken o member
    obtain rfl : u = t := woken.1
    exact tidy woken (inv.waits_iff.mpr ⟨o, member⟩)
  exact after.congr rfl rfl rfl rfl rfl

theorem State.Calls.out (calls : s.Calls t) : s.Outside t := fun w => by simp [calls.2.1]

theorem Linked.calls_free (inv : Linked s) (calls : s.Calls t) (o : Obj) : t ∉ s.members o :=
  inv.free calls.out o

/-- The outcomes of a step when the queues are in order. -/
inductive Move (s : State) : Label → State → Prop
  | same {label : Label} : Move s label s
  | acquire {label : Label} (t : Slot) (m : Fin 64) (executes : s.Executes t)
      (large : 4 ≤ (s.sched.tasks t).id) (out : s.Outside t)
      (unlocked : (s.mutexes m).locked = false) :
      Move s label ((s.setMutex m { locked := true, owner := some t }).returns t (.mutex m))
  | join {label : Label} (t : Slot) (w : Wait) (executes : s.Executes t)
      (large : 4 ≤ (s.sched.tasks t).id) (out : s.Outside t) : Move s label (s.join t w)
  | unlock (cpu : Cpu) (m : Fin 64) (executes : s.Executes (s.current cpu))
      (out : s.pc (s.current cpu) = .idle) : Move s (.unlock cpu m) (s.unlock (s.current cpu) m)
  | condWait (cpu : Cpu) (d m : Fin 64) (calls : s.Calls (s.current cpu)) :
      Move s (.condWait cpu d (some m))
        ((s.join (s.current cpu) (.condvar d m)).unlock (s.current cpu) m)
  | refused {label : Label} (t : Slot) (queues : Intrusive.Queues Obj Slot) (calls : s.Calls t)
      (rep : queues.Represents s.members) :
      Move s label ({ s with queues := queues }.setGranted t false)
  | permit {label : Label} (x : Fin 64) (positive : 0 < (s.semaphores x).value) :
      Move s label (s.setSemaphore x { s.semaphores x with
        value := (s.semaphores x).value - 1, returned := (s.semaphores x).returned + 1 })
  | post (cpu : Cpu) (x : Fin 64) : Move s (.post cpu x) (s.post x)
  | signal (cpu : Cpu) (d : Fin 64) : Move s (.signal cpu d) (s.signal d)
  | send (cpu : Cpu) (k : Fin 8) (data : List UInt8) : Move s (.send cpu k data) (s.send k data)
  | message {label : Label} (t : Slot) (k : Fin 8) (message : Option (List UInt8))
      (out : s.Outside t) : Move s label ((s.setChannel k message).setPc t .idle)
  | park (cpu : Cpu) (w : Wait) (queued : s.pc (s.current cpu) = .queued w)
      (executes : s.Executes (s.current cpu)) : Move s (.park cpu) (s.park (s.current cpu) w)
  | resume (cpu : Cpu) (w : Wait) (parked : s.pc (s.current cpu) = .parked w)
      (running : (s.sched.tasks (s.current cpu)).state = .running)
      (free : ∀ o, s.current cpu ∉ s.members o) : Move s (.resume cpu) (s.returns (s.current cpu) w)
  | unpark (t : Slot) (pending : t ∈ s.wakes) : Move s (.unpark t) (s.unpark t)
  | clean {r : State} (t : Slot) (o : Obj) (reaping : (s.sched.tasks t).state = .reaping)
      (turn : o.index = s.scan t) (taken : s.clean t o = some r) : Move s (.clean t) r
  | follow (event : Sched.Label) (sched : Sched.State) (allows : s.Allows event)
      (taken : Sched.perform s.sched event = some sched) :
      Move s (.sched event) (s.follow sched event)

variable {label : Label}

theorem Linked.lock_move {m : Fin 64} (inv : Linked s) (executes : s.Executes t)
    (large : 4 ≤ (s.sched.tasks t).id) (out : s.Outside t) (taken : s.lock t m = some r) :
    Move s label r := by
  rcases inv.lock_cases (inv.free out) taken with ⟨unlocked, same⟩ | ⟨_, same⟩
  · rw [same]
    exact .acquire t m executes large out unlocked
  · rw [same]
    exact .join t _ executes large out

theorem Linked.receive_move {k : Fin 8} {capacity : Nat} (inv : Linked s) (executes : s.Executes t)
    (large : 4 ≤ (s.sched.tasks t).id) (out : s.Outside t) (taken : s.receive t k capacity = some r)
    : Move s label r := by
  rcases inv.receive_cases (inv.free out) taken with ⟨message, same⟩ | same
  · rw [same]
    exact .message t k message out
  · rw [same]
    exact .join t _ executes large out

theorem Linked.move (inv : Linked s) (taken : step s label = some r) : Move s label r := by
  cases label with
  | lock cpu m =>
    obtain ⟨calls, taken⟩ := Option.ite_none_right_eq_some.mp taken
    exact inv.lock_move calls.1 calls.2.2 calls.out taken
  | trylock cpu m =>
    obtain ⟨calls, rfl⟩ := Transition.of_guard taken
    unfold State.trylock
    split
    · rename_i unlocked
      exact .acquire _ m calls.1 calls.2.2 calls.out unlocked
    · exact .same
  | unlock cpu m =>
    obtain ⟨calls, rfl⟩ := Transition.of_guard taken
    exact .unlock cpu m calls.1 calls.2
  | wait cpu x =>
    obtain ⟨calls, taken⟩ := Option.ite_none_right_eq_some.mp taken
    rcases inv.wait_cases (inv.calls_free calls) taken with ⟨positive, same⟩ | ⟨_, same⟩
    · rw [same]
      exact .permit x positive
    · rw [same]
      exact .join _ _ calls.1 calls.2.2 calls.out
  | trywait cpu x =>
    obtain ⟨_, rfl⟩ := Transition.of_guard taken
    unfold State.trywait
    dsimp only
    split
    · exact .same
    · exact .permit x (by omega)
  | post cpu x =>
    obtain ⟨_, rfl⟩ := Transition.of_guard taken
    exact .post cpu x
  | condWait cpu d m =>
    obtain ⟨calls, taken⟩ := Option.ite_none_right_eq_some.mp taken
    have free := inv.calls_free calls
    rcases inv.condWait_cases free calls.2.1 (fun w => inv.join free calls.2.2 calls.1.live) taken with
      ⟨n, rfl, same⟩ | ⟨_, queues, rep, same⟩
    · rw [same]
      exact .condWait cpu d n calls
    · rw [same]
      exact .refused _ queues calls rep
  | signal cpu d =>
    obtain ⟨_, rfl⟩ := Transition.of_guard taken
    exact .signal cpu d
  | send cpu k data =>
    obtain ⟨_, rfl⟩ := Transition.of_guard taken
    exact .send cpu k data
  | receive cpu k capacity =>
    obtain ⟨calls, taken⟩ := Option.ite_none_right_eq_some.mp taken
    exact inv.receive_move calls.1 calls.2.2 calls.out taken
  | retry cpu =>
    simp only [step] at taken
    split at taken
    · rename_i w again
      obtain ⟨executes, taken⟩ := Option.ite_none_right_eq_some.mp taken
      have out : s.Outside (s.current cpu) := fun v => by simp [again]
      have large := inv.users (s.current cpu) (by simp [again])
      cases w with
      | condvar d m => exact inv.lock_move executes large out taken
      | channel k capacity => exact inv.receive_move executes large out taken
      | mutex m => cases taken
      | semaphore x => cases taken
    · cases taken
  | park cpu =>
    simp only [step] at taken
    split at taken
    · rename_i w queued
      obtain ⟨executes, rfl⟩ := Transition.of_guard taken
      exact .park cpu w queued executes
    · cases taken
  | resume cpu =>
    simp only [step] at taken
    split at taken
    · rename_i w parked
      obtain ⟨running, rfl⟩ := Transition.of_guard taken
      refine .resume cpu w parked running fun o member => ?_
      have held := inv.held o _ w member parked
      simp [Sched.Task.Held, running] at held
    · cases taken
  | unpark t =>
    obtain ⟨pending, rfl⟩ := Transition.of_guard taken
    exact .unpark t pending
  | clean t =>
    simp only [step] at taken
    split at taken
    · rename_i o turn
      obtain ⟨reaping, taken⟩ := Option.ite_none_right_eq_some.mp taken
      exact .clean t o reaping (Obj.index_nth turn) taken
    · cases taken
  | sched event =>
    obtain ⟨allows, taken⟩ := Option.ite_none_right_eq_some.mp taken
    obtain ⟨sched, stepped, same⟩ := Option.map_eq_some_iff.mp taken
    cases same
    exact .follow event sched allows (Option.ite_none_left_eq_some.mp stepped).2

theorem Linked.step (inv : Linked s) (tidy : Tidy s label) (taken : step s label = some r) :
    Linked r := by
  cases inv.move taken with
  | same => exact inv
  | acquire t m executes large out unlocked =>
    exact Linked.returns (inv.congr rfl rfl rfl rfl rfl) (inv.free out) large
  | join t w executes large out => exact inv.join (inv.free out) large executes.live
  | unlock cpu m executes out => exact inv.unlock m
  | condWait cpu d m calls =>
    exact (inv.join (inv.calls_free calls) calls.2.2 calls.1.live).unlock m
  | refused t queues calls rep => exact inv.shrink rep (fun o u member => member) rfl rfl rfl
  | permit x positive => exact inv.congr rfl rfl rfl rfl rfl
  | post cpu x => exact inv.post x
  | signal cpu d => exact inv.signal d
  | send cpu k data => exact inv.send k data
  | message t k message out => exact (inv.setChannel k message).setPc .idle (inv.free out) nofun
  | park cpu w queued executes => exact inv.park queued tidy
  | resume cpu w parked running free => exact inv.returns free (inv.users _ (by simp [parked]))
  | unpark t pending => exact inv.unpark tidy
  | clean t o reaping turn cleaned => exact inv.clean turn cleaned
  | follow event sched allows performed =>
    refine inv.follow performed ?_ ?_ ?_
    · exact fun cpu ends => (allows.acts ends).not_held
    · rintro u rfl
      exact allows
    · intro u woken o member
      exact tidy u woken (inv.waits_iff.mpr ⟨o, member⟩)

end Steps

theorem init_linked (values : Fin 64 → Nat) : Linked (init values) := by
  refine ⟨Sched.init_identified, Sched.init_killable, ⟨?_, ?_, ?_⟩, ?_, ?_, ?_, ?_⟩
  · exact fun o => rfl
  · exact fun o => rfl
  · exact fun o p t member => nomatch member
  · exact fun o t member => nomatch member
  · exact fun t busy => absurd rfl busy
  · exact fun o t w member => nomatch member
  · exact fun o t _ before => nomatch before

/-- No task is on two queues, and each queue links the tasks that have joined and not left it in the
order in which they came, when only dequeues end waits. -/
theorem run_linked (values : Fin 64 → Nat) (s : State)
    (reached : Transition.Reachable (· = init values) step Tidy s) :
    (∀ t o p, t ∈ s.members o → t ∈ s.members p → o = p) ∧
      ∀ o, Chain s.queues.next (s.queues.head o) (s.members o) ∧
        s.queues.tail o = (s.members o).getLast? := by
  have inv : Linked s := reached.invariant (fun s initial => initial ▸ init_linked values)
    (fun s r label inv tidy taken => inv.step tidy taken)
  refine ⟨fun t o p => inv.rep.disjoint o p t, fun o => ⟨inv.rep.chain o, inv.rep.tail o⟩⟩

/-- Tasks 4, 6 and 7 on CPUs 0, 1 and 2, and the child 5 of task 4 on CPU 3. -/
def family : List Label :=
  [.sched (.create false), .sched (.schedule 0), .sched (.create true), .sched (.assignParent 0 5),
    .sched (.wake 5), .sched (.schedule 3), .sched (.create false), .sched (.schedule 1),
    .sched (.create false), .sched (.schedule 2)]

/-- Task 6 holds mutex 0, tasks 4 and 7 wait for it. -/
def contention : List Label :=
  family ++ [.lock 1 0, .lock 0 0, .park 0, .sched (.schedule 0), .lock 2 0, .park 2,
    .sched (.schedule 2)]

theorem run_linked_contention : ∃ s, Transition.run step (init fun _ => 0) contention = some s ∧
    s.members (.mutex 0) = [4, 7] ∧
    (∀ t o p, t ∈ s.members o → t ∈ s.members p → o = p) ∧
      ∀ o, Chain s.queues.next (s.queues.head o) (s.members o) ∧
        s.queues.tail o = (s.members o).getLast? := by
  have guarded : Transition.Guarded step Tidy (init fun _ => 0) contention := by decide +kernel
  refine Transition.ends_imp (Q := fun s => s.members (.mutex 0) = [4, 7]) (by decide +kernel) ?_
  intro s ran members
  exact ⟨members, run_linked _ s (.of_run _ (.start rfl) guarded ran)⟩

/-- The child of task 4 exits and wakes its parent, which returns from `mutex_lock` and waits for
semaphore 0. -/
def childExits : List Label :=
  contention ++ [.sched (.exit 3), .sched (.schedule 0), .resume 0, .wait 0 0]

/-- Task 4 is on both queues, and task 7 can no longer be reached from the head of the first one. -/
theorem run_linked_childExits : ∃ s, Transition.run step (init fun _ => 0) childExits = some s ∧
    4 ∈ s.members (.mutex 0) ∧ 4 ∈ s.members (.semaphore 0) ∧
    s.members (.mutex 0) = [4, 7] ∧ s.queues.head (.mutex 0) = some 4 ∧ s.queues.next 4 = none := by
  decide +kernel

end OsArmv8a.Sync
