import OsArmv8a.SyncServed

/-! Mutual exclusion. -/

set_option autoImplicit false

namespace OsArmv8a.Sync

open Intrusive

/-- Only dequeues end waits, and only the task to which the lock call has returned releases the
mutex. -/
def Disciplined (s : State) (label : Label) : Prop :=
  Tidy s label ∧
    match label with
    | .unlock cpu m => s.holding (s.current cpu) m = true
    | .condWait cpu _ (some m) => s.holding (s.current cpu) m = true
    | _ => True

instance (s : State) (label : Label) : Decidable (Disciplined s label) := by
  unfold Disciplined
  rcases label with ⟨⟩
  case condWait cpu d m => rcases m with ⟨⟩ <;> infer_instance
  all_goals infer_instance

/-- The task owns the mutex or is about to: a lock call has returned to it, or it has been dequeued
inside one. -/
def State.Claims (s : State) (t : Slot) (m : Fin 64) : Prop :=
  s.holding t m = true ∨ s.Served t (.mutex m)

/-- Whoever claims a mutex is its owner, until the reaper takes over. -/
structure Owned (s : State) : Prop where
  locked : ∀ m, (s.mutexes m).owner ≠ none → (s.mutexes m).locked = true
  holders : ∀ t m, s.holding t m = true → 4 ≤ (s.sched.tasks t).id
  claims : ∀ t m, s.Claims t m → (s.sched.tasks t).state ≠ .reaping → (s.mutexes m).owner = some t

section Owners

variable {s r : State} {t : Slot} {m : Fin 64} {cpu : Cpu}

section

variable (inv : Owned s)

include inv

/-- Nothing that concerns mutexes changes, but tasks may stop waiting. -/
theorem Owned.congr (mutexes : r.mutexes = s.mutexes) (holding : r.holding = s.holding)
    (sched : r.sched = s.sched) (served : ∀ u n, r.Served u (.mutex n) → s.Served u (.mutex n)) :
    Owned r := by
  obtain ⟨locked, holders, claims⟩ := inv
  refine ⟨by rwa [mutexes], by rwa [holding, sched], ?_⟩
  intro u n claim live
  rw [sched] at live
  rw [mutexes]
  refine claims u n ?_ live
  rcases claim with holds | waits
  · exact Or.inl (holding ▸ holds)
  · exact Or.inr (served u n waits)

theorem Owned.returns {w : Wait} (large : 4 ≤ (s.sched.tasks t).id)
    (owns : ∀ n, w = .mutex n → (s.mutexes n).owner = some t) : Owned (s.returns t w) := by
  have served : ∀ u n, (s.returns t w).Served u (.mutex n) → s.Served u (.mutex n) :=
    fun u n waits => waits.of_returns.1
  cases w with
  | mutex n =>
    have holding : ∀ u k, (s.returns t (.mutex n)).holding u k =
      if u = t ∧ k = n then true else s.holding u k := fun u k => rfl
    obtain ⟨locked, holders, claims⟩ := inv
    refine ⟨locked, ?_, ?_⟩
    · intro u k holds
      rw [holding] at holds
      split at holds
      · rename_i same
        exact same.1 ▸ large
      · exact holders u k holds
    · intro u k claim live
      by_cases same : u = t ∧ k = n
      · rw [same.1, same.2]
        exact owns n rfl
      · refine claims u k ?_ live
        rcases claim with holds | waits
        · rw [holding, if_neg same] at holds
          exact Or.inl holds
        · exact Or.inr (served u k waits)
  | semaphore x => exact inv.congr rfl rfl rfl served
  | condvar d n => exact inv.congr rfl rfl rfl served
  | channel k capacity => exact inv.congr rfl rfl rfl served

/-- Nobody claims a mutex that is not locked. -/
theorem Owned.unclaimed (free : (s.mutexes m).locked = false) (u : Slot) (claim : s.Claims u m) :
    (s.sched.tasks u).state = .reaping := by
  by_contra live
  have owner := inv.claims u m claim live
  have locked := inv.locked m (by simp [owner])
  rw [free] at locked
  cases locked

theorem Owned.acquire (large : 4 ≤ (s.sched.tasks t).id) (free : (s.mutexes m).locked = false) :
    Owned ((s.setMutex m { locked := true, owner := some t }).returns t (.mutex m)) := by
  have mutexes : ∀ n, (s.setMutex m { locked := true, owner := some t }).mutexes n =
    if n = m then { locked := true, owner := some t } else s.mutexes n := fun n => rfl
  have taken : Owned (s.setMutex m { locked := true, owner := some t }) := by
    refine ⟨?_, inv.holders, ?_⟩
    · intro n owned
      rw [mutexes] at owned ⊢
      split at owned
      · rename_i same
        rw [if_pos same]
      · rename_i other
        rw [if_neg other]
        exact inv.locked n owned
    · intro u n claim live
      rw [mutexes]
      split
      · rename_i same
        subst same
        exact absurd (inv.unclaimed free u claim) live
      · exact inv.claims u n claim live
  refine taken.returns large ?_
  intro n same
  cases same
  rw [mutexes, if_pos rfl]

/-- A mutex that nobody claims goes to the first waiter, if any. -/
theorem Owned.release (linked : Linked s) (busy : (s.mutexes m).locked = true)
    (alone : ∀ u, s.Claims u m → (s.sched.tasks u).state = .reaping) : Owned (s.release m) := by
  rcases linked.release_cases m with ⟨_, same⟩ | ⟨next, rest, first, same⟩
  · rw [same]
    have mutexes : ∀ n, (s.setMutex m { locked := false, owner := none }).mutexes n =
      if n = m then { locked := false, owner := none } else s.mutexes n := fun n => rfl
    refine ⟨?_, inv.holders, ?_⟩
    · intro n owned
      rw [mutexes] at owned ⊢
      split at owned
      · exact absurd rfl owned
      · rename_i other
        rw [if_neg other]
        exact inv.locked n owned
    · intro u n claim live
      rw [mutexes]
      split
      · rename_i same
        subst same
        exact absurd (alone u claim) live
      · exact inv.claims u n claim live
  · rw [same]
    have mutexes : ∀ n, ((s.leave (.mutex m) next rest).setMutex m
        { s.mutexes m with owner := some next }).mutexes n =
      if n = m then { s.mutexes m with owner := some next } else s.mutexes n := fun n => rfl
    refine ⟨?_, inv.holders, ?_⟩
    · intro n owned
      rw [mutexes] at owned ⊢
      split at owned
      · rename_i same
        rw [if_pos same]
        exact busy
      · rename_i other
        rw [if_neg other]
        exact inv.locked n owned
    · intro u n claim live
      have before : s.Claims u n ∨ u = next ∧ n = m := by
        rcases claim with holds | waits
        · exact Or.inl (Or.inl holds)
        · have left : (s.leave (.mutex m) next rest).Served u (.mutex n) := waits.congr rfl rfl
          rcases left.of_leave first with old | ⟨same, object⟩
          · exact Or.inl (Or.inr old)
          · exact Or.inr ⟨same, by simpa [Wait.obj] using object⟩
      rw [mutexes]
      by_cases here : n = m
      · rw [if_pos here]
        subst here
        rcases before with old | ⟨rfl, _⟩
        · exact absurd (alone u old) live
        · rfl
      · rw [if_neg here]
        exact inv.claims u n (before.resolve_right fun both => here both.2) live

/-- The holder releases the mutex; it is outside every lock call. -/
theorem Owned.unlock (linked : Linked s) (executes : s.Executes t) (holds : s.holding t m = true)
    (out : ¬ s.Served t (.mutex m)) : Owned (s.unlock t m) := by
  have owner : (s.mutexes m).owner = some t := inv.claims t m (Or.inl holds) executes.live
  have holding : ∀ u n, (s.setHolding t m false).holding u n =
    if u = t ∧ n = m then false else s.holding u n := fun u n => rfl
  have dropped : Owned (s.setHolding t m false) := by
    refine ⟨inv.locked, ?_, ?_⟩
    · intro u n claim
      rw [holding] at claim
      split at claim
      · cases claim
      · exact inv.holders u n claim
    · intro u n claim live
      refine inv.claims u n ?_ live
      rcases claim with keeps | waits
      · rw [holding] at keeps
        split at keeps
        · cases keeps
        · exact Or.inl keeps
      · exact Or.inr (waits.congr rfl rfl)
  have alone : ∀ u, (s.setHolding t m false).Claims u m → (s.sched.tasks u).state = .reaping := by
    intro u claim
    by_contra live
    have owns : (s.mutexes m).owner = some u := dropped.claims u m claim live
    have same : u = t := Option.some.inj (owns.symm.trans owner)
    subst same
    rcases claim with keeps | waits
    · rw [holding, if_pos ⟨rfl, rfl⟩] at keeps
      cases keeps
    · exact out (waits.congr rfl rfl)
  have released := dropped.release (linked.congr rfl rfl rfl rfl rfl)
    (inv.locked m (by simp [owner])) alone
  have commutes : (s.setHolding t m false).release m = s.unlock t m := by
    unfold State.unlock State.release State.dequeue
    cases found : s.queues.dequeue (.mutex m) with
    | mk first queues =>
      have same : (s.setHolding t m false).queues = s.queues := rfl
      rw [same, found]
      cases first <;> rfl
  rwa [commutes] at released

theorem Owned.join {w : Wait} : Owned (s.join t w) :=
  inv.congr rfl rfl rfl fun _ _ served => served.of_join.1

/-- A task leaves the queue of another object. -/
theorem Owned.leave {o : Obj} {rest : List Slot} (first : s.members o = t :: rest)
    (other : ∀ n, o ≠ .mutex n) : Owned (s.leave o t rest) := by
  refine inv.congr rfl rfl rfl fun u n served => ?_
  rcases served.of_leave first with old | ⟨_, object⟩
  · exact old
  · exact absurd object.symm (other n)

theorem Owned.without {o : Obj} {queues : Intrusive.Queues Obj Slot}
    (reaping : (s.sched.tasks t).state = .reaping) : Owned (s.without t o queues) := by
  obtain ⟨locked, holders, claims⟩ := inv
  refine ⟨locked, holders, ?_⟩
  intro u n claim live
  refine claims u n ?_ live
  rcases claim with holds | served
  · exact Or.inl holds
  · rcases served.of_without with old | ⟨rfl, _⟩
    · exact Or.inr old
    · exact absurd reaping live

theorem Owned.clean {o : Obj} (linked : Linked s) (reaping : (s.sched.tasks t).state = .reaping)
    (turn : o.index = s.scan t) (taken : s.clean t o = some r) : Owned r := by
  obtain ⟨queues, rep, ⟨same, _⟩ | ⟨n, _, owner, same⟩⟩ := linked.clean_cases taken
  · rw [same]
    exact inv.without reaping
  · rw [same]
    have left : Owned (s.without t o queues) := inv.without reaping
    refine left.release (linked.without rep turn) (inv.locked n (by simp [owner])) ?_
    intro u claim
    by_contra live
    have owns : (s.mutexes n).owner = some u := left.claims u n claim live
    rw [owner] at owns
    cases owns
    exact live reaping

end

theorem State.follow_mutexes (s : State) (sched : Sched.State) (event : Sched.Label) :
    (s.follow sched event).mutexes = s.mutexes := by
  cases event <;> rfl

theorem State.follow_holding (s : State) (sched : Sched.State) (event : Sched.Label) (u : Slot)
    (n : Fin 64) : (s.follow sched event).holding u n =
      if event = .clear u then false else s.holding u n := by
  cases event with
  | clear t =>
    show (if u = t then false else s.holding u n) = _
    simp [eq_comm]
  | _ => simp [State.follow]

theorem Owned.follow {sched : Sched.State} {event : Sched.Label} (inv : Owned s) (linked : Linked s)
    (taken : Sched.perform s.sched event = some sched)
    (acts : ∀ cpu, event.ender = some cpu → ¬ (s.sched.tasks (s.current cpu)).Held) :
    Owned (s.follow sched event) := by
  obtain ⟨after, _, _⟩ := s.follow_queues sched event
  have user := fun u => @Linked.user s sched event u linked taken acts
  obtain ⟨locked, holders, claims⟩ := inv
  refine ⟨?_, ?_, ?_⟩
  · rwa [State.follow_mutexes]
  · intro u n holds
    rw [State.follow_holding] at holds
    split at holds
    · cases holds
    · rename_i stays
      rw [after, (user u (holders u n holds) stays).1]
      exact holders u n holds
  · intro u n claim live
    rw [State.follow_mutexes]
    rw [after] at live
    have before : s.Claims u n ∧ event ≠ .clear u := by
      rcases claim with holds | served
      · rw [State.follow_holding] at holds
        split at holds
        · cases holds
        · rename_i stays
          exact ⟨Or.inl holds, stays⟩
      · exact ⟨Or.inr served.of_follow.1, served.of_follow.2⟩
    have large : 4 ≤ (s.sched.tasks u).id := by
      rcases before.1 with holds | served
      · exact holders u n holds
      · exact linked.served_large served
    refine claims u n before.1 fun reaping => live ?_
    exact (user u large before.2).2.2.mpr (Or.inl reaping)

theorem Owned.park {w : Wait} (inv : Owned s) (linked : Linked s)
    (queued : s.pc (s.current cpu) = .queued w) (executes : s.Executes (s.current cpu))
    (tidy : Tidy s (.park cpu)) : Owned (s.park (s.current cpu) w) := by
  have after : Owned (s.follow (s.sched.park (s.current cpu)).2 (.park cpu)) :=
    inv.follow linked rfl nofun
  have order : Linked (s.follow (s.sched.park (s.current cpu)).2 (.park cpu)) :=
    linked.follow rfl nofun nofun fun u woken => woken.elim
  unfold State.park
  cases result : s.sched.park (s.current cpu) with
  | mk blocked sched =>
    rw [result] at after order
    cases blocked with
    | true => exact after.congr rfl rfl rfl fun u n served => served.of_parked queued
    | false =>
      refine after.returns (order.users _ (by simp [State.follow, queued])) ?_
      rintro n rfl
      refine inv.claims (s.current cpu) n (Or.inr ⟨Or.inl queued, fun member => ?_⟩) executes.live
      have parked := tidy (linked.waits_iff.mpr ⟨_, member⟩)
      rw [result] at parked
      cases parked

theorem Owned.step {label : Label} (inv : Owned s) (linked : Linked s)
    (disciplined : Disciplined s label) (taken : step s label = some r) : Owned r := by
  obtain ⟨tidy, rule⟩ := disciplined
  cases linked.move taken with
  | same => exact inv
  | acquire t m executes large out unlocked => exact inv.acquire large unlocked
  | join t w executes large out => exact inv.join
  | unlock cpu m executes out =>
    exact inv.unlock linked executes rule fun served => by simp [State.Served, out] at served
  | condWait cpu d m calls =>
    have joined := linked.join (w := .condvar d m) (linked.calls_free calls) calls.2.2 calls.1.live
    refine inv.join.unlock joined calls.1 rule fun served => ?_
    have idle := served.of_join.1
    simp [State.Served, calls.2.1] at idle
  | refused t queues calls rep =>
    exact inv.congr rfl rfl rfl fun u n served => served.congr rfl rfl
  | permit x positive => exact inv.congr rfl rfl rfl fun u n served => served.congr rfl rfl
  | post cpu x =>
    rcases linked.post_cases x with ⟨_, same⟩ | ⟨t, rest, first, same⟩
    · rw [same]
      exact inv.congr rfl rfl rfl fun u n served => served.congr rfl rfl
    · rw [same]
      exact (inv.leave first nofun).congr rfl rfl rfl fun u n served => served.congr rfl rfl
  | signal cpu d =>
    rcases linked.signal_cases d with ⟨_, same⟩ | ⟨t, rest, first, same⟩
    · rwa [same]
    · rw [same]
      exact inv.leave first nofun
  | send cpu k data =>
    have stored : Owned (s.setChannel k (some data)) :=
      inv.congr rfl rfl rfl fun u n served => served.congr rfl rfl
    rcases linked.send_cases k data with same | ⟨_, same⟩ | ⟨t, rest, first, same⟩
    · rwa [same]
    · rwa [same]
    · rw [same]
      exact stored.leave first nofun
  | message t k message out =>
    have stored : Owned (s.setChannel k message) :=
      inv.congr rfl rfl rfl fun u n served => served.congr rfl rfl
    exact stored.congr rfl rfl rfl fun u n served => (served.of_setPc fun w => ⟨nofun, nofun⟩).1
  | park cpu w queued executes => exact inv.park linked queued executes tidy
  | resume cpu w parked running free =>
    refine inv.returns (linked.users _ (by simp [parked])) ?_
    rintro n rfl
    exact inv.claims _ n (Or.inr ⟨Or.inr parked, free _⟩) (by simp [running])
  | unpark t pending =>
    have after : Owned (s.follow (s.sched.unpark t) (.unpark t)) := inv.follow linked rfl nofun
    exact after.congr rfl rfl rfl fun u n served => served.congr rfl rfl
  | clean t o reaping turn cleaned => exact inv.clean linked reaping turn cleaned
  | follow event sched allows performed =>
    exact inv.follow linked performed fun cpu ends => (allows.acts ends).not_held

end Owners

/-- What holds in every reached state. -/
structure Exclusive (s : State) : Prop where
  linked : Linked s
  owned : Owned s

theorem init_exclusive (values : Fin 64 → Nat) : Exclusive (init values) := by
  refine ⟨init_linked values, ?_, ?_, ?_⟩
  · exact fun m owned => absurd rfl owned
  · exact fun t m holds => nomatch holds
  · intro t m claim
    rcases claim with holds | served
    · cases holds
    · simp [State.Served, init] at served

/-- A task to which a lock call has returned owns the locked mutex until it releases it or is reaped,
and no two tasks do, when only dequeues end waits and only holders release. -/
theorem run_exclusion (values : Fin 64 → Nat) (s : State) (m : Fin 64)
    (reached : Transition.Reachable (· = init values) step Disciplined s) :
    (∀ t, s.holding t m = true → (s.sched.tasks t).state ≠ .reaping →
        (s.mutexes m).locked = true ∧ (s.mutexes m).owner = some t) ∧
      ∀ t u, s.holding t m = true → s.holding u m = true → (s.sched.tasks t).state ≠ .reaping →
        (s.sched.tasks u).state ≠ .reaping → t = u := by
  have inv : Exclusive s := reached.invariant (fun s initial => initial ▸ init_exclusive values)
    (fun s r label inv disciplined taken =>
      ⟨inv.linked.step disciplined.1 taken, inv.owned.step inv.linked disciplined taken⟩)
  have owner : ∀ t, s.holding t m = true → (s.sched.tasks t).state ≠ .reaping →
      (s.mutexes m).owner = some t := fun t holds live => inv.owned.claims t m (Or.inl holds) live
  refine ⟨fun t holds live => ?_, fun t u first second live alive => ?_⟩
  · have owns := owner t holds live
    exact ⟨inv.owned.locked m (by simp [owns]), owns⟩
  · exact Option.some.inj ((owner t first live).symm.trans (owner u second alive))

/-- Task 6 releases the mutex, and task 4, which has waited longest, gets it. -/
def handOff : List Label :=
  contention ++ [.unlock 1 0, .unpark 4, .sched (.schedule 0), .resume 0]

theorem run_exclusion_handOff : ∃ s, Transition.run step (init fun _ => 0) handOff = some s ∧
    s.holding 4 0 = true ∧
    (∀ t, s.holding t 0 = true → (s.sched.tasks t).state ≠ .reaping →
        (s.mutexes 0).locked = true ∧ (s.mutexes 0).owner = some t) ∧
      ∀ t u, s.holding t 0 = true → s.holding u 0 = true → (s.sched.tasks t).state ≠ .reaping →
        (s.sched.tasks u).state ≠ .reaping → t = u := by
  have guarded : Transition.Guarded step Disciplined (init fun _ => 0) handOff := by decide +kernel
  refine Transition.ends_imp (Q := fun s => s.holding 4 0 = true) (by decide +kernel) ?_
  intro s ran holds
  exact ⟨holds, run_exclusion _ s 0 (.of_run _ (.start rfl) guarded ran)⟩

/-- The child of task 4 exits while task 4 waits for the mutex. -/
def earlyReturn : List Label := contention ++ [.sched (.exit 3), .sched (.schedule 0), .resume 0]

/-- `mutex_lock` returns to task 4 although task 6 has not released the mutex. -/
theorem run_exclusion_earlyReturn :
    ∃ s, Transition.run step (init fun _ => 0) earlyReturn = some s ∧ s.holding 4 0 = true ∧
      s.holding 6 0 = true ∧ (s.mutexes 0).owner = some 6 ∧
      (s.sched.tasks 4).state = .running ∧ (s.sched.tasks 6).state = .running := by
  decide +kernel

end OsArmv8a.Sync
