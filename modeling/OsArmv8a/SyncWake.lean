import OsArmv8a.SyncQueues

/-! Wake-ups: each dequeue puts one token on its way to the waiter, which parks for good only without
it. -/

set_option autoImplicit false

namespace OsArmv8a.Sync

open Intrusive

/-- The call has given up its CPU in `sched_park_task`. -/
def Pc.isParked : Pc → Bool
  | .parked _ => true
  | _ => false

/-- Parked tasks are made runnable by `sched_unpark_task` alone, and nobody is killed. -/
def Prompt (s : State) : Label → Prop
  | .sched (.kill _ _) => False
  | .sched event => ∀ t, Sched.Wakes s.sched event t → (s.pc t).isParked = false
  | _ => True

instance (s : State) (label : Label) : Decidable (Prompt s label) := by
  unfold Prompt
  rcases label with ⟨⟩
  case sched event => rcases event with ⟨⟩ <;> infer_instance
  all_goals infer_instance

/-- The wake-ups a task has still to consume: unparks on their way, and the pending token. -/
def State.tokens (s : State) (t : Slot) : Nat :=
  s.wakes.count t + (s.sched.tasks t).wakePending.toNat

/-- How many wake-ups there are for a task, by where it is in its call. -/
def State.Tracked (s : State) (t : Slot) : Prop :=
  match s.pc t with
  | .queued w => s.Executes t ∧ s.tokens t = if t ∈ s.members w.obj then 0 else 1
  | .parked w => (s.sched.tasks t).wakePending = false ∧
      ((s.sched.tasks t).state = .blocked ∧ s.tokens t = (if t ∈ s.members w.obj then 0 else 1) ∨
        s.Executes t ∧ t ∉ s.members w.obj ∧ s.tokens t = 0)
  | _ => s.tokens t = 0

structure Prompted (s : State) : Prop where
  linked : Linked s
  unkilled : ∀ t, (s.sched.tasks t).killPending = false
  tracked : ∀ t, s.Tracked t

section Tokens

variable {s r : State} {t u : Slot} {w : Wait} {o : Obj}

theorem State.Tracked.congr (tracked : s.Tracked t) (pc : r.pc t = s.pc t)
    (members : ∀ o, t ∈ r.members o ↔ t ∈ s.members o)
    (wakes : r.wakes.count t = s.wakes.count t)
    (task : r.sched.tasks t = s.sched.tasks t) : r.Tracked t := by
  unfold State.Tracked State.tokens State.Executes at *
  rw [pc, wakes, task]
  simpa only [members] using tracked

theorem State.tracked_outside (out : s.Outside t) : s.Tracked t ↔ s.tokens t = 0 := by
  unfold State.Tracked
  cases pc : s.pc t with
  | queued w => exact absurd pc (out w).1
  | parked w => exact absurd pc (out w).2
  | idle => rfl
  | again w => rfl

/-- A task without tokens leaves its call. -/
theorem State.tracked_setPc (pc : Pc) (tracked : ∀ u, u ≠ t → s.Tracked u) (none : s.tokens t = 0)
    (out : ∀ w, pc ≠ .queued w ∧ pc ≠ .parked w) (u : Slot) : (s.setPc t pc).Tracked u := by
  have pcs : (s.setPc t pc).pc u = if u = t then pc else s.pc u := rfl
  by_cases same : u = t
  · rw [if_pos same] at pcs
    rw [State.tracked_outside (fun w => by rw [pcs]; exact out w)]
    exact same ▸ none
  · rw [if_neg same] at pcs
    exact (tracked u same).congr pcs (fun o => Iff.rfl) rfl rfl

theorem State.tracked_returns (tracked : ∀ u, u ≠ t → s.Tracked u) (none : s.tokens t = 0) (u : Slot) :
    (s.returns t w).Tracked u := by
  have idle := State.tracked_setPc .idle tracked none (fun w => ⟨nofun, nofun⟩) u
  cases w with
  | mutex m => exact idle.congr rfl (fun o => Iff.rfl) rfl rfl
  | semaphore x => exact idle.congr rfl (fun o => Iff.rfl) rfl rfl
  | condvar d m => exact State.tracked_setPc (.again _) tracked none (fun w => ⟨nofun, nofun⟩) u
  | channel k capacity => exact State.tracked_setPc (.again _) tracked none (fun w => ⟨nofun, nofun⟩) u

theorem State.tracked_join (tracked : ∀ u, s.Tracked u) (executes : s.Executes t)
    (none : s.tokens t = 0) (u : Slot) : (s.join t w).Tracked u := by
  have pcs : (s.join t w).pc u = if u = t then .queued w else s.pc u := rfl
  by_cases same : u = t
  · rw [if_pos same] at pcs
    have member : u ∈ (s.join t w).members w.obj := (s.mem_join t w w.obj u).mpr (Or.inr ⟨same, rfl⟩)
    unfold State.Tracked
    rw [pcs]
    refine ⟨same ▸ executes, ?_⟩
    rw [if_pos member]
    exact same ▸ none
  · rw [if_neg same] at pcs
    refine (tracked u).congr pcs (fun o => ?_) rfl rfl
    simp [State.mem_join, same]

/-- Whoever is on a queue has no token. -/
theorem Prompted.linked_tokens (inv : Prompted s) (member : t ∈ s.members o) : s.tokens t = 0 := by
  have tracked := inv.tracked t
  unfold State.Tracked at tracked
  obtain ⟨w, rfl, queued | parked⟩ := inv.linked.joined o t member
  · rw [queued] at tracked
    simpa [member] using tracked.2
  · rw [parked] at tracked
    rcases tracked.2 with ⟨_, none⟩ | ⟨_, outside, _⟩
    · rwa [if_pos member] at none
    · exact absurd member outside

/-- A dequeue puts one token on its way. -/
theorem Prompted.tracked_leave {rest : List Slot} (inv : Prompted s)
    (first : s.members o = t :: rest) (u : Slot) : (s.leave o t rest).Tracked u := by
  have members : ∀ p, (s.leave o t rest).members p = if p = o then rest else s.members p :=
    fun p => rfl
  have counts : (s.leave o t rest).wakes.count u = (s.wakes ++ [t]).count u := rfl
  by_cases same : u = t
  · subst same
    have member : u ∈ s.members o := by simp [first]
    have left : u ∉ rest := by
      have distinct := inv.linked.rep.nodup o
      rw [first] at distinct
      exact (List.nodup_cons.mp distinct).1
    have none := inv.linked_tokens member
    have tracked := inv.tracked u
    unfold State.Tracked State.tokens State.Executes at *
    rw [counts, List.count_append, List.count_singleton_self]
    obtain ⟨w, rfl, queued | parked⟩ := inv.linked.joined o u member
    · have pc : (s.leave w.obj u rest).pc u = .queued w := queued
      rw [queued] at tracked
      rw [pc]
      refine ⟨tracked.1, ?_⟩
      rw [members, if_pos rfl, if_neg left]
      show s.wakes.count u + 1 + (s.sched.tasks u).wakePending.toNat = 1
      omega
    · have pc : (s.leave w.obj u rest).pc u = .parked w := parked
      rw [parked] at tracked
      rw [pc]
      refine ⟨tracked.1, Or.inl ⟨?_, ?_⟩⟩
      · rcases tracked.2 with ⟨blocked, _⟩ | ⟨_, outside, _⟩
        · exact blocked
        · exact absurd member outside
      · rw [members, if_pos rfl, if_neg left]
        show s.wakes.count u + 1 + (s.sched.tasks u).wakePending.toNat = 1
        omega
  · refine (inv.tracked u).congr rfl (fun p => ?_) ?_ rfl
    · rw [members]
      split
      · rename_i here
        rw [here, first]
        simp [same]
      · rfl
    · rw [counts, List.count_append]
      simp [Ne.symm same]

end Tokens

section Steps

variable {s r : State} {t u : Slot} {w : Wait} {cpu : Cpu}

section

variable (inv : Prompted s)

include inv

theorem Prompted.congr (sched : r.sched = s.sched) (queues : r.queues = s.queues)
    (members : r.members = s.members) (pc : r.pc = s.pc) (scan : r.scan = s.scan)
    (wakes : r.wakes = s.wakes) : Prompted r := by
  refine ⟨inv.linked.congr sched queues members pc scan, by rw [sched]; exact inv.unkilled, ?_⟩
  intro u
  exact (inv.tracked u).congr (by rw [pc]) (by simp [members]) (by rw [wakes]) (by rw [sched])

theorem Prompted.leave {o : Obj} {rest : List Slot} (first : s.members o = t :: rest) :
    Prompted (s.leave o t rest) :=
  ⟨inv.linked.leave first, inv.unkilled, inv.tracked_leave first⟩

theorem Prompted.release (m : Fin 64) : Prompted (s.release m) := by
  rcases inv.linked.release_cases m with ⟨_, same⟩ | ⟨next, rest, first, same⟩
  · rw [same]
    exact inv.congr rfl rfl rfl rfl rfl rfl
  · rw [same]
    exact (inv.leave first).congr rfl rfl rfl rfl rfl rfl

theorem Prompted.post (x : Fin 64) : Prompted (s.post x) := by
  rcases inv.linked.post_cases x with ⟨_, same⟩ | ⟨next, rest, first, same⟩
  · rw [same]
    exact inv.congr rfl rfl rfl rfl rfl rfl
  · rw [same]
    exact (inv.leave first).congr rfl rfl rfl rfl rfl rfl

theorem Prompted.signal (d : Fin 64) : Prompted (s.signal d) := by
  rcases inv.linked.signal_cases d with ⟨_, same⟩ | ⟨next, rest, first, same⟩
  · rwa [same]
  · rw [same]
    exact inv.leave first

theorem Prompted.send (k : Fin 8) (data : List UInt8) : Prompted (s.send k data) := by
  have stored : Prompted (s.setChannel k (some data)) := inv.congr rfl rfl rfl rfl rfl rfl
  rcases inv.linked.send_cases k data with same | ⟨_, same⟩ | ⟨next, rest, first, same⟩
  · rwa [same]
  · rwa [same]
  · rw [same]
    exact stored.leave first

theorem Prompted.join (executes : s.Executes t) (out : s.Outside t)
    (large : 4 ≤ (s.sched.tasks t).id) : Prompted (s.join t w) :=
  ⟨inv.linked.join (inv.linked.free out) large executes.live, inv.unkilled,
    State.tracked_join inv.tracked executes ((State.tracked_outside out).mp (inv.tracked t))⟩

/-- What `sched_park_task` does to a task that executes: it consumes the token or blocks. -/
theorem Prompted.park_cases (queued : s.pc t = .queued w) (executes : s.Executes t) :
    (s.sched.tasks t).wakePending = true ∧ (s.sched.park t).1 = false ∧
        ((s.sched.park t).2.tasks t).wakePending = false ∨
      (s.sched.tasks t).wakePending = false ∧ (s.sched.park t).1 = true ∧
        ((s.sched.park t).2.tasks t).wakePending = false ∧
        ((s.sched.park t).2.tasks t).state = .blocked := by
  have large := inv.linked.users t (by simp [queued])
  have alive : (s.sched.tasks t).alive = true := by
    rcases executes with running | ready
    · simp [Sched.Task.alive, running]
    · simp [Sched.Task.alive, ready]
  unfold Sched.State.park
  rw [if_neg (by omega), if_pos ⟨alive, inv.unkilled t⟩]
  cases pending : (s.sched.tasks t).wakePending with
  | true => simp
  | false => simp [pending]

theorem Prompted.tracked_park (queued : s.pc t = .queued w) (executes : s.Executes t) (u : Slot) :
    (s.park t w).Tracked u := by
  have outcome := inv.park_cases queued executes
  have others : ∀ u, u ≠ t → { s with sched := (s.sched.park t).2 }.Tracked u := by
    intro u other
    refine (inv.tracked u).congr rfl (fun o => Iff.rfl) rfl ?_
    rw [Sched.State.park_tasks, if_neg other]
  have tracked := inv.tracked t
  unfold State.Tracked State.tokens at tracked
  rw [queued] at tracked
  unfold State.park
  cases result : s.sched.park t with
  | mk blocked sched =>
    rw [result] at outcome others
    cases blocked with
    | true =>
      obtain ⟨unset, _, quiet, blocked⟩ := outcome.resolve_left nofun
      by_cases same : u = t
      · subst same
        unfold State.Tracked State.tokens
        have pc : ({ s with sched := sched }.setPc u (.parked w)).pc u = .parked w := if_pos rfl
        rw [pc]
        refine ⟨quiet, Or.inl ⟨blocked, ?_⟩⟩
        rw [unset] at tracked
        show s.wakes.count u + (sched.tasks u).wakePending.toNat = _
        rw [quiet]
        exact tracked.2
      · exact (others u same).congr (if_neg same) (fun o => Iff.rfl) rfl rfl
    | false =>
      obtain ⟨set, _, quiet⟩ := outcome.resolve_right nofun
      refine State.tracked_returns others ?_ u
      -- the token was there, so the task was off its queue and no unpark is on its way
      rw [set] at tracked
      show s.wakes.count t + (sched.tasks t).wakePending.toNat = 0
      rw [quiet]
      have one := tracked.2
      simp only [Bool.toNat_true] at one
      simp only [Bool.toNat_false]
      split at one
      · omega
      · omega

/-- An unpark wakes the task it is for, or leaves the token for its park. -/
theorem Prompted.tracked_unpark (pending : t ∈ s.wakes) (u : Slot) : (s.unpark t).Tracked u := by
  have positive : 0 < s.wakes.count t := List.count_pos_iff.mpr pending
  by_cases same : u = t
  · subst same
    have tasks : (s.unpark u).sched.tasks u = (s.sched.tasks u).unparked := by
      show (s.sched.unpark u).tasks u = _
      rw [Sched.State.unpark_tasks, if_pos rfl]
    have counts : (s.unpark u).wakes.count u = s.wakes.count u - 1 := List.count_erase_self
    have tracked := inv.tracked u
    have unkilled := inv.unkilled u
    have large := inv.linked.users u
    unfold State.Tracked State.tokens State.Executes at *
    have pcs : (s.unpark u).pc u = s.pc u := rfl
    have members : ∀ o, (s.unpark u).members o = s.members o := fun o => rfl
    rw [pcs]
    cases pc : s.pc u with
    | idle =>
      rw [pc] at tracked
      omega
    | again w =>
      rw [pc] at tracked
      omega
    | queued w =>
      grind
    | parked w =>
      grind
  · refine (inv.tracked u).congr rfl (fun o => Iff.rfl) ?_ ?_
    · exact List.count_erase_of_ne same
    · show (s.sched.unpark t).tasks u = s.sched.tasks u
      rw [Sched.State.unpark_tasks, if_neg same]

/-- The reaper never finds a task on a queue. -/
theorem Prompted.reaping_outside (reaping : (s.sched.tasks t).state = .reaping) : s.Outside t := by
  have tracked := inv.tracked t
  unfold State.Tracked State.Executes at tracked
  intro w
  constructor
  · intro queued
    simp [queued, reaping] at tracked
  · intro parked
    simp [parked, reaping] at tracked

theorem Prompted.clean {o : Obj} (reaping : (s.sched.tasks t).state = .reaping)
    (turn : o.index = s.scan t) (taken : s.clean t o = some r) : Prompted r := by
  have free := inv.linked.free (inv.reaping_outside reaping)
  obtain ⟨queues, rep, outcome⟩ := inv.linked.clean_cases taken
  have members : (s.without t o queues).members = s.members := by
    funext p
    show Queues.put s.members o ((s.members o).erase t) p = s.members p
    rw [List.erase_of_not_mem (free o)]
    unfold Queues.put
    split
    · rename_i here
      rw [here]
    · rfl
  have scanned : Prompted (s.without t o queues) := by
    refine ⟨inv.linked.without rep turn, inv.unkilled, fun u => ?_⟩
    exact (inv.tracked u).congr rfl (fun p => by rw [members]) rfl rfl
  rcases outcome with ⟨same, _⟩ | ⟨m, _, _, same⟩
  · rwa [same]
  · rw [same]
    exact scanned.release m

end

theorem State.returns_sched (s : State) (t : Slot) (w : Wait) : (s.returns t w).sched = s.sched := by
  cases w <;> rfl

theorem State.park_sched (s : State) (t : Slot) (w : Wait) :
    (s.park t w).sched = (s.sched.park t).2 := by
  unfold State.park
  cases s.sched.park t with
  | mk blocked sched =>
    cases blocked with
    | true => rfl
    | false => exact State.returns_sched _ t w

theorem State.follow_wakes (s : State) (sched : Sched.State) (event : Sched.Label) :
    (s.follow sched event).wakes = s.wakes := by
  cases event <;> rfl

variable {event : Sched.Label}

theorem Prompt.calm (prompt : Prompt s (.sched event)) (allows : s.Allows event) : event.Calm := by
  cases event with
  | park cpu => exact allows
  | unpark t => exact allows
  | kill cpu id => exact prompt
  | _ => trivial

theorem Prompt.unwoken (prompt : Prompt s (.sched event)) (parked : s.pc t = .parked w) :
    ¬ Sched.Wakes s.sched event t := by
  intro woken
  cases event with
  | kill cpu id => exact prompt
  | _ =>
    have running := prompt t woken
    simp [parked, Pc.isParked] at running

theorem State.Allows.ender_idle (allows : s.Allows event) (ends : event.ender = some cpu) :
    s.pc (s.current cpu) = .idle := by
  cases event <;> cases ends
  · exact allows.2
  · exact allows.2
  · exact allows.2

theorem Prompted.tracked_follow {sched : Sched.State} (inv : Prompted s)
    (prompt : Prompt s (.sched event)) (allows : s.Allows event)
    (taken : Sched.perform s.sched event = some sched) (u : Slot) :
    (s.follow sched event).Tracked u := by
  have calm := prompt.calm allows
  have unkilled := inv.unkilled u
  have token := (Sched.calm_of_perform calm taken u unkilled).2
  obtain ⟨after, _, members⟩ := s.follow_queues sched event
  have tracked := inv.tracked u
  by_cases out : (s.follow sched event).Outside u
  · have before : s.Outside u := by
      by_cases cleared : event = .clear u
      · subst cleared
        exact inv.reaping_outside (Option.ite_none_right_eq_some.mp taken).1
      · intro w
        have same := out w
        rwa [State.follow_pc, if_neg cleared] at same
    rw [State.tracked_outside before] at tracked
    rw [State.tracked_outside out]
    unfold State.tokens at *
    rw [State.follow_wakes, after]
    have quiet : (s.sched.tasks u).wakePending = false := by
      simpa using (Nat.add_eq_zero_iff.mp tracked).2
    rw [token quiet]
    simp [Nat.add_eq_zero_iff.mp tracked]
  · have stays : event ≠ .clear u := by
      rintro rfl
      exact out fun w => by simp [State.follow_pc]
    have pcs : (s.follow sched event).pc u = s.pc u := by rw [State.follow_pc, if_neg stays]
    have busy : s.pc u ≠ .idle := fun idle => out fun w => by simp [pcs, idle]
    have inside : ∀ cpu, event.ender = some cpu → u ≠ s.sched.current cpu := by
      rintro cpu ends rfl
      exact busy (allows.ender_idle ends)
    obtain ⟨going, waiting⟩ := Sched.paused_of_perform inv.linked.known (inv.linked.users u busy) calm
      taken unkilled inside
    unfold State.Tracked State.tokens State.Executes at *
    rw [pcs, State.follow_wakes, after, members]
    cases pc : s.pc u with
    | idle => exact absurd pc busy
    | again w => exact absurd (fun v => by simp [pcs, pc]) out
    | queued w =>
      rw [pc] at tracked
      obtain ⟨executes, same⟩ := going tracked.1
      rw [same]
      exact ⟨executes, tracked.2⟩
    | parked w =>
      rw [pc] at tracked
      rcases tracked with ⟨unset, ⟨blocked, count⟩ | ⟨executes, rest⟩⟩
      · obtain ⟨still, same⟩ := waiting blocked (prompt.unwoken pc)
        rw [same]
        exact ⟨unset, Or.inl ⟨still, count⟩⟩
      · obtain ⟨still, same⟩ := going executes
        rw [same]
        exact ⟨unset, Or.inr ⟨still, rest⟩⟩

/-- No prompt step ends a wait but by a dequeue. -/
theorem Prompted.tidy {label : Label} (inv : Prompted s) (prompt : Prompt s label)
    (taken : step s label = some r) : Tidy s label := by
  cases label with
  | sched event =>
    obtain ⟨allows, _⟩ := Option.ite_none_right_eq_some.mp taken
    intro t woken waits
    obtain ⟨o, member⟩ := inv.linked.waits_iff.mp waits
    obtain ⟨w, rfl, queued | parked⟩ := inv.linked.joined o t member
    · have tracked := inv.tracked t
      unfold State.Tracked State.Executes at tracked
      rw [queued] at tracked
      cases event with
      | sleep cpu ticks =>
        have idle := allows.2
        rw [← show t = s.current cpu from woken.1, queued] at idle
        cases idle
      | park cpu => exact allows
      | unpark t => exact allows
      | wake u => simp [woken.2.1] at tracked
      | tick cpu => simp [woken.2.1] at tracked
      | exit cpu => simp [woken.2] at tracked
      | _ => exact woken
    · exact prompt.unwoken parked woken
  | unpark t =>
    obtain ⟨pending, _⟩ := Option.ite_none_right_eq_some.mp taken
    intro _ waits
    obtain ⟨o, member⟩ := inv.linked.waits_iff.mp waits
    have none := inv.linked_tokens member
    have positive : 0 < s.wakes.count t := List.count_pos_iff.mpr pending
    unfold State.tokens at none
    omega
  | park cpu =>
    simp only [step] at taken
    split at taken
    · rename_i w queued
      obtain ⟨executes, _⟩ := Option.ite_none_right_eq_some.mp taken
      intro waits
      obtain ⟨o, member⟩ := inv.linked.waits_iff.mp waits
      have none := inv.linked_tokens member
      unfold State.tokens at none
      rcases inv.park_cases queued executes with ⟨set, _⟩ | ⟨_, blocked, _⟩
      · simp [set] at none
      · exact blocked
    · cases taken
  | _ => trivial

theorem Prompted.step {label : Label} (inv : Prompted s) (prompt : Prompt s label)
    (taken : step s label = some r) : Prompted r := by
  have linked := inv.linked.step (inv.tidy prompt taken) taken
  cases inv.linked.move taken with
  | same => exact inv
  | acquire t m executes large out unlocked =>
    refine ⟨linked, inv.unkilled, State.tracked_returns (fun u _ => ?_) ?_⟩
    · exact (inv.tracked u).congr rfl (fun o => Iff.rfl) rfl rfl
    · exact (State.tracked_outside out).mp (inv.tracked t)
  | join t w executes large out => exact inv.join executes out large
  | unlock cpu m executes out => exact (inv.release m).congr rfl rfl rfl rfl rfl rfl
  | condWait cpu d m calls =>
    exact ((inv.join calls.1 calls.out calls.2.2).release m).congr rfl rfl rfl rfl rfl rfl
  | refused t queues calls rep =>
    refine ⟨linked, inv.unkilled, fun u => ?_⟩
    exact (inv.tracked u).congr rfl (fun o => Iff.rfl) rfl rfl
  | permit x positive => exact inv.congr rfl rfl rfl rfl rfl rfl
  | post cpu x => exact inv.post x
  | signal cpu d => exact inv.signal d
  | send cpu k data => exact inv.send k data
  | message t k message out =>
    have none := (State.tracked_outside out).mp (inv.tracked t)
    refine ⟨linked, inv.unkilled, State.tracked_setPc .idle (fun u _ => ?_) none ?_⟩
    · exact (inv.tracked u).congr rfl (fun o => Iff.rfl) rfl rfl
    · exact fun w => ⟨nofun, nofun⟩
  | park cpu w queued executes =>
    refine ⟨linked, fun u => ?_, inv.tracked_park queued executes⟩
    rw [State.park_sched, Sched.State.park_tasks]
    have unkilled := inv.unkilled u
    grind
  | resume cpu w parked running free =>
    refine ⟨linked, fun u => ?_, State.tracked_returns (fun u _ => inv.tracked u) ?_⟩
    · rw [State.returns_sched]
      exact inv.unkilled u
    · have tracked := inv.tracked (s.current cpu)
      unfold State.Tracked at tracked
      rw [parked] at tracked
      exact (tracked.2.resolve_left (by simp [running])).2.2
  | unpark t pending =>
    refine ⟨linked, fun u => ?_, inv.tracked_unpark pending⟩
    show ((s.sched.unpark t).tasks u).killPending = false
    rw [Sched.State.unpark_tasks]
    have unkilled := inv.unkilled u
    grind
  | clean t o reaping turn cleaned => exact inv.clean reaping turn cleaned
  | follow event sched allows performed =>
    refine ⟨linked, fun u => ?_, inv.tracked_follow prompt allows performed⟩
    rw [(s.follow_queues sched event).1]
    exact (Sched.calm_of_perform (prompt.calm allows) performed u (inv.unkilled u)).1

/-- A waiter that has left its queue has been reached by the wake-up. -/
theorem Prompted.reached (inv : Prompted s) (waits : s.pc t = .queued w ∨ s.pc t = .parked w)
    (left : t ∉ s.members w.obj) :
    t ∈ s.wakes ∨ (s.sched.tasks t).wakePending = true ∨ s.pc t = .parked w ∧ s.Executes t := by
  have tracked := inv.tracked t
  unfold State.Tracked State.tokens at tracked
  rcases waits with queued | parked
  · rw [queued] at tracked
    obtain ⟨_, one⟩ := tracked
    rw [if_neg left] at one
    cases pending : (s.sched.tasks t).wakePending with
    | true => exact Or.inr (Or.inl rfl)
    | false =>
      simp only [pending, Bool.toNat_false] at one
      exact Or.inl (List.count_pos_iff.mp (by omega))
  · rw [parked] at tracked
    obtain ⟨unset, ⟨_, one⟩ | ⟨executes, _⟩⟩ := tracked
    · rw [if_neg left, unset] at one
      simp only [Bool.toNat_false] at one
      exact Or.inl (List.count_pos_iff.mp (by omega))
    · exact Or.inr (Or.inr ⟨parked, executes⟩)

end Steps

theorem init_prompted (values : Fin 64 → Nat) : Prompted (init values) := by
  have calm : ∀ t, (Sched.init.tasks t).killPending = false ∧
      (Sched.init.tasks t).wakePending = false := by decide
  refine ⟨init_linked values, fun t => (calm t).1, fun t => ?_⟩
  simp [State.Tracked, State.tokens, init, (calm t).2]

/-- Task 4 waits for condition 0 with mutex 0, which task 6 has taken since. -/
def rendezvous : List Label :=
  family ++ [.lock 0 0, .condWait 0 0 (some 0), .park 0, .sched (.schedule 0), .lock 1 0]

end OsArmv8a.Sync
