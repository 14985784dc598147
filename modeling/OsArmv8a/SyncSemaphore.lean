import OsArmv8a.SyncServed

/-! Where the permits of a semaphore are. -/

set_option autoImplicit false

namespace OsArmv8a.Sync

open Intrusive

/-- Only dequeues end waits, and no post finds the counter full. -/
def Metered (s : State) (label : Label) : Prop :=
  Tidy s label ∧
    match label with
    | .post _ x => s.members (.semaphore x) = [] → (s.semaphores x).value + 1 < 2 ^ 64
    | _ => True

instance (s : State) (label : Label) : Decidable (Metered s label) := by
  unfold Metered
  rcases label with ⟨⟩ <;> infer_instance

/-- Every permit is in the counter, with a call that has returned, or with a waiter that a post has
dequeued. -/
structure Balanced (values : Fin 64 → Nat) (s : State) : Prop where
  balance : ∀ x, ((s.semaphores x).value : Int) + (s.semaphores x).returned +
    (s.semaphores x).handed = values x + (s.semaphores x).posts
  served : ∀ t x, s.Served t (.semaphore x) → (s.sched.tasks t).state ≠ .reaping → s.granted t = true

section Permits

variable {values : Fin 64 → Nat} {s r : State} {t : Slot} {cpu : Cpu}

section

variable (inv : Balanced values s)

include inv

/-- No permit moves. -/
theorem Balanced.congr (semaphores : r.semaphores = s.semaphores)
    (served : ∀ u x, r.Served u (.semaphore x) → (r.sched.tasks u).state ≠ .reaping →
      s.Served u (.semaphore x) ∧ (s.sched.tasks u).state ≠ .reaping ∧ r.granted u = s.granted u) :
    Balanced values r := by
  refine ⟨by rw [semaphores]; exact inv.balance, ?_⟩
  intro u x waits live
  obtain ⟨old, alive, same⟩ := served u x waits live
  rw [same]
  exact inv.served u x old alive

theorem Balanced.setSemaphore {semaphore : Semaphore} {x : Fin 64}
    (balance : (semaphore.value : Int) + semaphore.returned + semaphore.handed =
      values x + semaphore.posts) : Balanced values (s.setSemaphore x semaphore) := by
  have semaphores : ∀ y, (s.setSemaphore x semaphore).semaphores y =
    if y = x then semaphore else s.semaphores y := fun y => rfl
  refine ⟨?_, fun u y waits => inv.served u y (waits.congr rfl rfl)⟩
  intro y
  rw [semaphores]
  split
  · rename_i same
    rw [same]
    exact balance
  · exact inv.balance y

/-- A wait for a semaphore returns to a task that a post has dequeued. -/
theorem Balanced.returns {w : Wait} (granted : ∀ x, w = .semaphore x → s.granted t = true) :
    Balanced values (s.returns t w) := by
  cases w with
  | semaphore x =>
    have idle : Balanced values ((s.setPc t .idle).setGranted t false) := by
      refine inv.congr rfl fun u y waits live => ?_
      have before : (s.setPc t .idle).Served u (.semaphore y) := waits.congr rfl rfl
      obtain ⟨old, other⟩ := before.of_setPc fun w => ⟨nofun, nofun⟩
      exact ⟨old, live, if_neg other⟩
    refine idle.setSemaphore ?_
    have balance := inv.balance x
    simp only [granted x rfl, if_true]
    omega
  | mutex m => exact inv.congr rfl fun u y waits live => ⟨waits.of_returns.1, live, rfl⟩
  | condvar d m => exact inv.congr rfl fun u y waits live => ⟨waits.of_returns.1, live, rfl⟩
  | channel k capacity => exact inv.congr rfl fun u y waits live => ⟨waits.of_returns.1, live, rfl⟩

theorem Balanced.join {w : Wait} : Balanced values (s.join t w) :=
  inv.congr rfl fun _ _ waits live => ⟨waits.of_join.1, live, if_neg waits.of_join.2⟩

/-- A task leaves the queue of another object. -/
theorem Balanced.leave {o : Obj} {rest : List Slot} (first : s.members o = t :: rest)
    (other : ∀ x, o ≠ .semaphore x) : Balanced values (s.leave o t rest) := by
  refine inv.congr rfl fun u x waits live => ⟨?_, live, rfl⟩
  rcases waits.of_leave first with old | ⟨_, object⟩
  · exact old
  · exact absurd object.symm (other x)

theorem Balanced.release (linked : Linked s) (m : Fin 64) : Balanced values (s.release m) := by
  rcases linked.release_cases m with ⟨_, same⟩ | ⟨next, rest, first, same⟩
  · rw [same]
    exact inv.congr rfl fun u x waits live => ⟨waits.congr rfl rfl, live, rfl⟩
  · rw [same]
    exact (inv.leave first nofun).congr rfl fun u x waits live => ⟨waits.congr rfl rfl, live, rfl⟩

theorem Balanced.unlock (linked : Linked s) (m : Fin 64) : Balanced values (s.unlock t m) :=
  (inv.release linked m).congr rfl fun _ _ waits live => ⟨waits.congr rfl rfl, live, rfl⟩

/-- The permit of a post goes to the counter or to the waiter it dequeues. -/
theorem Balanced.post (linked : Linked s) {x : Fin 64}
    (room : s.members (.semaphore x) = [] → (s.semaphores x).value + 1 < 2 ^ 64) :
    Balanced values (s.post x) := by
  have balance := inv.balance x
  rcases linked.post_cases x with ⟨empty, same⟩ | ⟨t, rest, first, same⟩
  · rw [same]
    refine inv.setSemaphore ?_
    have small := room empty
    rw [Nat.mod_eq_of_lt small]
    push_cast
    omega
  · rw [same]
    have granted : Balanced values ((s.leave (.semaphore x) t rest).setGranted t true) := by
      refine ⟨inv.balance, ?_⟩
      intro u y waits live
      have record : ((s.leave (.semaphore x) t rest).setGranted t true).granted u =
        if u = t then true else s.granted u := rfl
      rw [record]
      split
      · rfl
      · rename_i other
        have left : (s.leave (.semaphore x) t rest).Served u (.semaphore y) := waits.congr rfl rfl
        rcases left.of_leave first with old | ⟨same, _⟩
        · exact inv.served u y old live
        · exact absurd same other
    refine granted.setSemaphore ?_
    push_cast
    omega

theorem Balanced.clean {o : Obj} (linked : Linked s) (reaping : (s.sched.tasks t).state = .reaping)
    (turn : o.index = s.scan t) (taken : s.clean t o = some r) : Balanced values r := by
  obtain ⟨queues, rep, result⟩ := linked.clean_cases taken
  have left : Balanced values (s.without t o queues) := by
    refine inv.congr rfl fun u x waits live => ⟨?_, live, rfl⟩
    rcases waits.of_without with old | ⟨rfl, _⟩
    · exact old
    · exact absurd reaping live
  rcases result with ⟨same, _⟩ | ⟨m, _, _, same⟩
  · rwa [same]
  · rw [same]
    exact left.release (linked.without rep turn) m

end

theorem State.follow_semaphores (s : State) (sched : Sched.State) (event : Sched.Label) :
    (s.follow sched event).semaphores = s.semaphores := by
  cases event <;> rfl

theorem State.follow_granted (s : State) (sched : Sched.State) (event : Sched.Label) (u : Slot) :
    (s.follow sched event).granted u = if event = .clear u then false else s.granted u := by
  cases event with
  | clear t =>
    show (if u = t then false else s.granted u) = _
    simp [eq_comm]
  | _ => simp [State.follow]

theorem Balanced.follow {sched : Sched.State} {event : Sched.Label} (inv : Balanced values s)
    (linked : Linked s) (taken : Sched.perform s.sched event = some sched)
    (acts : ∀ cpu, event.ender = some cpu → ¬ (s.sched.tasks (s.current cpu)).Held) :
    Balanced values (s.follow sched event) := by
  obtain ⟨after, _, _⟩ := s.follow_queues sched event
  refine inv.congr (s.follow_semaphores sched event) fun u x waits live => ?_
  obtain ⟨old, stays⟩ := waits.of_follow
  rw [after] at live
  have user := linked.user taken acts (linked.served_large old) stays
  refine ⟨old, fun reaping => live (user.2.2.mpr (Or.inl reaping)), ?_⟩
  rw [State.follow_granted, if_neg stays]

theorem Balanced.park {w : Wait} (inv : Balanced values s) (linked : Linked s)
    (queued : s.pc (s.current cpu) = .queued w) (executes : s.Executes (s.current cpu))
    (tidy : Tidy s (.park cpu)) : Balanced values (s.park (s.current cpu) w) := by
  have after : Balanced values (s.follow (s.sched.park (s.current cpu)).2 (.park cpu)) :=
    inv.follow linked rfl nofun
  unfold State.park
  cases result : s.sched.park (s.current cpu) with
  | mk blocked sched =>
    rw [result] at after
    cases blocked with
    | true => exact after.congr rfl fun u x waits live => ⟨waits.of_parked queued, live, rfl⟩
    | false =>
      refine after.returns ?_
      rintro x rfl
      refine inv.served (s.current cpu) x ⟨Or.inl queued, fun member => ?_⟩ executes.live
      have parked := tidy (linked.waits_iff.mpr ⟨_, member⟩)
      rw [result] at parked
      cases parked

theorem Balanced.step {label : Label} (inv : Balanced values s) (linked : Linked s)
    (metered : Metered s label) (taken : step s label = some r) : Balanced values r := by
  obtain ⟨tidy, room⟩ := metered
  cases linked.move taken with
  | same => exact inv
  | acquire t m executes large out unlocked =>
    have locked : Balanced values (s.setMutex m { locked := true, owner := some t }) :=
      inv.congr rfl fun u x waits live => ⟨waits.congr rfl rfl, live, rfl⟩
    exact locked.returns nofun
  | join t w executes large out => exact inv.join
  | unlock cpu m executes out => exact inv.unlock linked m
  | condWait cpu d m calls =>
    exact inv.join.unlock (linked.join (linked.calls_free calls) calls.2.2 calls.1.live) m
  | refused t queues calls rep =>
    refine inv.congr rfl fun u x waits live => ?_
    have old : s.Served u (.semaphore x) := waits.congr rfl rfl
    refine ⟨old, live, if_neg ?_⟩
    rintro rfl
    simp [State.Served, calls.2.1] at old
  | permit x positive =>
    refine inv.setSemaphore ?_
    have balance := inv.balance x
    push_cast
    omega
  | post cpu x => exact inv.post linked room
  | signal cpu d =>
    rcases linked.signal_cases d with ⟨_, same⟩ | ⟨t, rest, first, same⟩
    · rwa [same]
    · rw [same]
      exact inv.leave first nofun
  | send cpu k data =>
    have stored : Balanced values (s.setChannel k (some data)) :=
      inv.congr rfl fun u x waits live => ⟨waits.congr rfl rfl, live, rfl⟩
    rcases linked.send_cases k data with same | ⟨_, same⟩ | ⟨t, rest, first, same⟩
    · rwa [same]
    · rwa [same]
    · rw [same]
      exact stored.leave first nofun
  | message t k message out =>
    refine inv.congr rfl fun u x waits live => ?_
    have before := (waits.of_setPc fun w => ⟨nofun, nofun⟩).1
    exact ⟨before.congr rfl rfl, live, rfl⟩
  | park cpu w queued executes => exact inv.park linked queued executes tidy
  | resume cpu w parked running free =>
    refine inv.returns ?_
    rintro x rfl
    exact inv.served _ x ⟨Or.inr parked, free _⟩ (by simp [running])
  | unpark t pending =>
    have after : Balanced values (s.follow (s.sched.unpark t) (.unpark t)) :=
      inv.follow linked rfl nofun
    exact after.congr rfl fun u x waits live => ⟨waits.congr rfl rfl, live, rfl⟩
  | clean t o reaping turn cleaned => exact inv.clean linked reaping turn cleaned
  | follow event sched allows performed =>
    exact inv.follow linked performed fun cpu ends => (allows.acts ends).not_held

end Permits

/-- What holds in every reached state. -/
structure Conserving (values : Fin 64 → Nat) (s : State) : Prop where
  linked : Linked s
  balanced : Balanced values s

theorem init_conserving (values : Fin 64 → Nat) : Conserving values (init values) := by
  refine ⟨init_linked values, ?_, ?_⟩
  · intro x
    simp [init]
  · intro t x served
    simp [State.Served, init] at served

/-- The counter, the calls that returned 1 and the permits of waiters that have been dequeued and not
returned add up to the initial value and the posts, when only dequeues end waits and the counter does
not wrap. -/
theorem run_conservation (values : Fin 64 → Nat) (s : State) (x : Fin 64)
    (reached : Transition.Reachable (· = init values) step Metered s) :
    ((s.semaphores x).value : Int) + (s.semaphores x).returned + (s.semaphores x).handed =
      values x + (s.semaphores x).posts := by
  have inv : Conserving values s := reached.invariant (fun s initial => initial ▸ init_conserving values)
    (fun s r label inv metered taken =>
      ⟨inv.linked.step metered.1 taken, inv.balanced.step inv.linked metered taken⟩)
  exact inv.balanced.balance x

/-- Task 4 waits for semaphore 0, which is 0, task 6 posts, and the wait returns. -/
def delivery : List Label :=
  family ++ [.wait 0 0, .park 0, .sched (.schedule 0), .post 1 0, .unpark 4, .sched (.schedule 0),
    .resume 0]

theorem run_conservation_delivery : ∃ s, Transition.run step (init fun _ => 0) delivery = some s ∧
    (s.semaphores 0).returned = 1 ∧ ((s.semaphores 0).value : Int) + (s.semaphores 0).returned +
      (s.semaphores 0).handed = (0 : Nat) + (s.semaphores 0).posts := by
  have guarded : Transition.Guarded step Metered (init fun _ => 0) delivery := by decide +kernel
  refine Transition.ends_imp (Q := fun s => (s.semaphores 0).returned = 1) (by decide +kernel) ?_
  intro s ran returned
  exact ⟨returned, run_conservation _ s 0 (.of_run _ (.start rfl) guarded ran)⟩

/-- The child of task 4 exits while task 4 waits for semaphore 0. -/
def freePermit : List Label :=
  family ++ [.wait 0 0, .park 0, .sched (.schedule 0), .sched (.exit 3), .sched (.schedule 0), .resume 0]

/-- The wait returns 1 without a permit; and a post to a full counter takes all permits away. -/
theorem run_conservation_freePermit :
    (∃ s, Transition.run step (init fun _ => 0) freePermit = some s ∧ (s.semaphores 0).value = 0 ∧
        (s.semaphores 0).returned = 1 ∧ (s.semaphores 0).handed = 0 ∧ (s.semaphores 0).posts = 0) ∧
      ∃ s, Transition.run step (init fun _ => 2 ^ 64 - 1) (family ++ [.post 1 0]) = some s ∧
        (s.semaphores 0).value = 0 ∧ (s.semaphores 0).returned = 0 ∧ (s.semaphores 0).handed = 0 ∧
        (s.semaphores 0).posts = 1 := by
  decide +kernel

end OsArmv8a.Sync
