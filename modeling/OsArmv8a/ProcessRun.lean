import OsArmv8a.ProcessCalls

/-! Reference counts over whole runs, with the scheduler's steps. -/

set_option autoImplicit false

namespace OsArmv8a.Proc

open Tally

section Scheduler

variable {s r : State} {t u : Slot} {p : Nat} {cpu : Cpu} {event : Sched.Label} {sched : Sched.State}

/-- What a step of the scheduler leaves of the tasks inside a call. -/
theorem Sound.busy_of_perform (inv : Sound s) (taken : Sched.perform s.sched event = some sched)
    (leaves : ∀ cpu, event.leaver = some cpu → s.pc (s.current cpu) = .idle ∨
      (s.sched.tasks (s.current cpu)).id < 4) (t : Slot) (inside : s.pc t ≠ .idle) :
    (∃ cpu, t = Sched.idleOf cpu) ∨ 4 ≤ (sched.tasks t).id ∧ (sched.tasks t).state = .running ∧
      (sched.tasks t).currentCpu ≠ none := by
  rcases inv.busy t inside with idle | ⟨large, running, placed⟩
  · exact Or.inl idle
  · refine Or.inr ?_
    have stays : ∀ cpu, event.leaver = some cpu → t ≠ s.sched.current cpu := by
      rintro cpu leaver rfl
      rcases leaves cpu leaver with idle | small
      · exact inside idle
      · exact absurd small (Nat.not_lt.mpr large)
    obtain ⟨id, state, cpu⟩ := Sched.running_of_perform inv.known large taken stays running placed
    exact ⟨id ▸ large, state, cpu⟩

/-- A task that is being reaped is an ordinary one on no CPU. -/
theorem Sound.reaping_off (inv : Sound s) (reaping : (s.sched.tasks t).state = .reaping) :
    4 ≤ (s.sched.tasks t).id ∧ ∀ cpu, s.sched.current cpu ≠ t := by
  have off := inv.settled.coherent.reaping t reaping
  have named : (s.sched.tasks t).named = true :=
    inv.settled.coherent.named_of_state (by simp [reaping])
  refine ⟨?_, fun cpu => inv.settled.coherent.not_current off⟩
  by_contra small
  obtain ⟨cpu, rfl⟩ := inv.settled.coherent.ids t named (by omega)
  rw [(inv.settled.coherent.idle cpu).2.2.1] at off
  cases off

/-- A step of the scheduler that moves no pointer. -/
theorem Sound.advance (inv : Sound s) (taken : Sched.step s.sched event = some sched)
    (switched : Sched.SwitchedOut s.sched event)
    (leaves : ∀ cpu, event.leaver = some cpu → s.pc (s.current cpu) = .idle ∨
      (s.sched.tasks (s.current cpu)).id < 4)
    (attached : ∀ t, event ≠ .detach t) (clears : ∀ t, event = .clear t → s.reap t = .idle) :
    Sound { s with sched := sched } := by
  have performed := (Option.ite_none_left_eq_some.mp taken).2
  refine ⟨⟨inv.counted.fair, inv.counted.calls, inv.counted.reaps⟩, inv.settled.step switched taken,
    inv.known.perform performed, inv.busy_of_perform performed leaves, ?_, ?_, ?_,
    ⟨inv.sole.exec, inv.sole.fork⟩, inv.threads⟩
  · intro t free
    have unnamed : (sched.tasks t).named = false := free
    rcases Sched.perform_names performed t with ⟨named, _⟩ | ⟨clear, _⟩ | ⟨_, named, _⟩
    · exact inv.unused t (named ▸ unnamed)
    · subst clear
      obtain ⟨reaping, _⟩ := Option.ite_none_right_eq_some.mp performed
      exact inv.detached t reaping
    · rw [named] at unnamed
      cases unnamed
  · intro t reaping
    rcases Sched.reaping_of_perform performed reaping with ⟨before, _⟩ | detach
    · exact inv.detached t before
    · exact absurd detach (attached t)
  · intro t active
    have before := inv.reaping t active
    obtain ⟨large, off⟩ := inv.reaping_off before
    refine Sched.reaping_stays inv.known large performed off ?_ before
    intro clear
    exact active (clears t clear)

/-- The creator gives the process it holds to a new task. -/
theorem Sound.adopt (inv : Sound s) (held : (s.pc t).held = some p) (quiet : (s.pc t).ends = none)
    (free : s.process u = none) (named : (s.sched.tasks u).named = true)
    (live : (s.sched.tasks u).state ≠ .reaping) :
    Sound ((s.setProcess u (some p)).setPc t .idle) := by
  have processes : ∀ v, v ≠ u → ((s.setProcess u (some p)).setPc t .idle).process v = s.process v :=
    fun v other => if_neg other
  refine inv.exchange (a := .task u) (b := .call t) rfl rfl rfl ?_ ?_ ?_ ?_ (fun _ => rfl) (fun _ => id)
    ?_ inv.counted.reaps inv.settled inv.known ?_ ?_ ?_ inv.reaping
  · simp [State.holds, held, State.setProcess]
  · rw [State.setPc_holds, if_pos rfl]
    exact free.symm
  · intro c left right
    simp [left, right]
  · intro c
    by_cases same : c = .call t
    · rw [same, State.setPc_ends, if_pos rfl]
      exact quiet.symm
    · simp [same]
  · intro v
    by_cases here : v = t
    · exact Or.inr (Or.inl (if_pos here))
    · refine Or.inl ⟨if_neg here, ?_⟩
      by_cases same : v = u
      · exact Or.inr (same ▸ free)
      · exact Or.inl (processes v same)
  · intro v inside
    by_cases here : v = t
    · exact absurd (if_pos here) inside
    · exact inv.busy v fun idle => inside ((if_neg here).trans idle)
  · intro v unnamed
    refine (processes v ?_).trans (inv.unused v unnamed)
    rintro rfl
    cases named.symm.trans unnamed
  · intro v reaping
    refine (processes v ?_).trans (inv.detached v reaping)
    rintro rfl
    exact live reaping

/-- `task_create_user` for a creator: a new task, or what it does without one. -/
theorem Sound.spawn (inv : Sound s) {stack : Bool} {failed : State}
    (held : (s.pc t).held = some p) (quiet : (s.pc t).ends = none) (otherwise : Sound failed) :
    Sound (s.spawn t p stack failed) := by
  unfold State.spawn State.taskCreateUser
  split
  · rename_i after created
    split at created
    · cases created
    · split at created
      · cases created
      · rename_i u found
        split at created
        · cases created
          have taken : Sched.step s.sched (.create true) = some (s.sched.create true) := rfl
          have change : Sched.Change s.sched (.create true) u ((s.sched.create true).tasks u) :=
            Sched.perform_change (show Sched.perform s.sched (.create true) = _ from rfl) u
          unfold Sched.Change at change
          simp only at change
          rw [if_pos found] at change
          have advanced : Sound { s with sched := s.sched.create true } :=
            inv.advance taken (fun t woken => woken.elim) nofun nofun nofun
          refine advanced.adopt held quiet (inv.unused u (Sched.State.freeSlot_unused found).2) ?_ ?_
          · rw [change]
            rfl
          · rw [change]
            simp [Sched.Task.created]
        · cases created
  · exact otherwise

/-- The reaper takes the pointer of the task it detaches. -/
theorem Sound.detach (inv : Sound s) (taken : Sched.step s.sched (.detach t) = some sched) :
    Sound (s.follow sched (.detach t)) := by
  have performed := (Option.ite_none_left_eq_some.mp taken).2
  obtain ⟨⟨_, dead, off⟩, _⟩ := Option.ite_none_right_eq_some.mp performed
  have quiet : s.reap t = .idle := by
    by_contra active
    cases dead.symm.trans (inv.reaping t active)
  have idle : s.pc t = .idle := by
    by_contra inside
    rcases inv.busy t inside with ⟨cpu, rfl⟩ | ⟨_, running, _⟩
    · cases off.symm.trans (inv.settled.coherent.idle cpu).2.2.1
    · cases dead.symm.trans running
  have processes : ∀ v, v ≠ t → (s.follow sched (.detach t)).process v = s.process v := fun v other =>
    if_neg other
  have reaps : ∀ v, v ≠ t → (s.follow sched (.detach t)).reap v = s.reap v := fun v other =>
    if_neg other
  have reap : (s.follow sched (.detach t)).reap t = (s.process t).elim .idle .destroying :=
    (if_pos rfl).trans (by cases s.process t <;> rfl)
  have woken : Sched.SwitchedOut s.sched (.detach t) := fun u wakes => wakes.elim
  refine inv.exchange (a := .task t) (b := .reaper t) rfl rfl rfl ?_ ?_ ?_ ?_ (fun _ => rfl) (fun _ => id)
    ?_ ?_ (inv.settled.step woken taken) (inv.known.perform performed)
    (inv.busy_of_perform performed (by simp [Sched.Label.leaver])) ?_ ?_ ?_
  · show (if t = t then none else s.process t) = (s.reap t).held
    rw [if_pos rfl, quiet]
    rfl
  · show ((s.follow sched (.detach t)).reap t).held = s.process t
    rw [reap]
    cases s.process t <;> rfl
  · intro c left right
    cases c with
    | task v => exact processes v fun same => left (by rw [same])
    | reaper v => exact congrArg Reap.held (reaps v fun same => right (by rw [same]))
    | call v => rfl
  · intro c
    cases c with
    | task v => rfl
    | call v => rfl
    | reaper v =>
      show ((s.follow sched (.detach t)).reap v).ends = (s.reap v).ends
      by_cases same : v = t
      · rw [same, reap, quiet]
        cases s.process t <;> rfl
      · rw [reaps v same]
  · intro v
    by_cases same : v = t
    · exact Or.inr (Or.inl (same ▸ idle))
    · exact Or.inl ⟨rfl, Or.inl (processes v same)⟩
  · intro v q mm ending
    by_cases same : v = t
    · rw [same, reap] at ending
      cases held : s.process t <;> rw [held] at ending <;> cases ending
    · exact inv.counted.reaps v q mm (reaps v same ▸ ending)
  · intro v unnamed
    by_cases same : v = t
    · exact if_pos same
    · rw [processes v same]
      rcases Sched.perform_names performed v with ⟨named, _⟩ | ⟨clear, _⟩ | ⟨_, named, _⟩
      · exact inv.unused v (named ▸ unnamed)
      · cases clear
      · cases named.symm.trans unnamed
  · intro v reaping
    by_cases same : v = t
    · exact if_pos same
    · rw [processes v same]
      rcases Sched.reaping_of_perform performed reaping with ⟨before, _⟩ | detach
      · exact inv.detached v before
      · cases detach
        exact absurd rfl same
  · intro v active
    show (sched.tasks v).state = .reaping
    by_cases same : v = t
    · have change : Sched.Change s.sched (.detach t) v (sched.tasks v) :=
        Sched.perform_change performed v
      unfold Sched.Change at change
      simp only at change
      rw [if_pos same] at change
      rw [change.2.2]
    · rw [reaps v same] at active
      have before := inv.reaping v active
      obtain ⟨large, away⟩ := inv.reaping_off before
      exact Sched.reaping_stays inv.known large performed away (by simp) before

theorem State.setProcess_none (free : s.process t = none) : s.setProcess t none = s := by
  cases s
  simp only [State.setProcess, State.mk.injEq, and_true, true_and] at free ⊢
  funext u
  split
  · rename_i same
    rw [same, free]
  · rfl

theorem State.Allows.leaves (allows : s.Allows event) (cpu : Cpu) (leaver : event.leaver = some cpu) :
    s.pc (s.current cpu) = .idle ∨ (s.sched.tasks (s.current cpu)).id < 4 := by
  cases event <;> cases leaver
  · exact allows
  · exact Or.inl allows.2
  · exact Or.inl allows.2
  · exact Or.inl allows.2
  · exact Or.inl allows.2

theorem Sound.follow (inv : Sound s) (allows : s.Allows event)
    (switched : Sched.SwitchedOut s.sched event) (taken : Sched.step s.sched event = some sched) :
    Sound (s.follow sched event) := by
  have advanced := inv.advance taken switched allows.leaves
  cases event with
  | detach t => exact inv.detach taken
  | clear t =>
    have performed := (Option.ite_none_left_eq_some.mp taken).2
    obtain ⟨reaping, _⟩ := Option.ite_none_right_eq_some.mp performed
    have same : s.follow sched (.clear t) = { s with sched := sched } :=
      State.setProcess_none (s := { s with sched := sched }) (inv.detached t reaping)
    rw [same]
    refine advanced nofun ?_
    rintro u equal
    cases equal
    exact allows
  | create user =>
    have same : s.follow sched (.create user) = { s with sched := sched } := by
      simp only [State.follow]
      split
      · rename_i u found
        exact State.setProcess_none (s := { s with sched := sched })
          (inv.unused u (Sched.State.freeSlot_unused found).2)
      · rfl
    rw [same]
    exact advanced nofun nofun
  | _ => exact advanced nofun nofun

end Scheduler

/-- A task is made `READY` only after `schedule` has taken it off its CPU. -/
def Switched (s : State) : Label → Prop
  | .sched event => Sched.SwitchedOut s.sched event
  | _ => True

section Steps

variable {s r : State} {label : Label}

theorem Sound.step (inv : Sound s) (switched : Switched s label)
    (taken : Proc.step s label = some r) : Sound r := by
  cases label with
  | load cpu =>
    simp only [Proc.step] at taken
    split at taken
    · rename_i runs
      split at taken
      · rename_i idle
        split at taken
        · cases taken
          exact inv.load runs (by rw [idle]; rfl) (by rw [idle]; rfl) rfl rfl nofun rfl
        · cases taken
      · rename_i exec
        cases taken
        exact inv.load runs (by rw [exec]; rfl) (by rw [exec]; rfl) rfl rfl
          (fun _ => by rw [exec]; trivial) rfl
      · cases taken
    · cases taken
  | fork cpu =>
    obtain ⟨⟨runs, idle, _⟩, rfl⟩ := Transition.of_guard taken
    exact inv.load runs (by rw [idle]; rfl) (by rw [idle]; rfl) rfl rfl nofun rfl
  | thread cpu =>
    simp only [Proc.step] at taken
    split at taken
    · rename_i p here
      obtain ⟨⟨runs, idle⟩, rfl⟩ := Transition.of_guard taken
      exact inv.thread runs idle here
    · cases taken
  | spawn cpu stack =>
    simp only [Proc.step] at taken
    split at taken
    · rename_i p created
      cases taken
      exact inv.spawn (by rw [created]; rfl) (by rw [created]; rfl)
        (inv.giveUp (by rw [created]; rfl) (by rw [created]; rfl) nofun)
    · rename_i p forked
      cases taken
      exact inv.spawn (by rw [forked]; rfl) (by rw [forked]; rfl) (inv.discard forked)
    · rename_i p thread
      cases taken
      refine inv.spawn (by rw [thread]; rfl) (by rw [thread]; rfl) ?_
      refine inv.keep (p := p) .refl (inv.busy _ (by simp [thread])) rfl rfl rfl ?_ ?_ ?_ rfl rfl id
        nofun nofun fun q same => inv.threads _ q (by rw [thread]; exact same)
      all_goals simp [thread, Pc.About, Pc.held, Pc.ends]
    · cases taken
  | undo cpu =>
    simp only [Proc.step] at taken
    split at taken
    · rename_i p failed
      cases taken
      exact inv.undo failed
    · cases taken
  | abandon cpu =>
    simp only [Proc.step] at taken
    split at taken
    · rename_i p created
      cases taken
      exact inv.giveUp (by rw [created]; rfl) (by rw [created]; rfl) nofun
    · rename_i p loaded
      cases taken
      exact inv.giveUp (by rw [loaded]; rfl) (by rw [loaded]; rfl) fun _ => by rw [loaded]; trivial
    · cases taken
  | exec cpu =>
    simp only [Proc.step] at taken
    split at taken
    · rename_i p here
      obtain ⟨⟨runs, idle⟩, rfl⟩ := Transition.of_guard taken
      exact inv.exec runs idle here
    · cases taken
  | execFail cpu =>
    simp only [Proc.step] at taken
    split at taken
    · rename_i p exec here
      cases taken
      exact inv.execFail exec
    · cases taken
  | execSwap cpu =>
    simp only [Proc.step] at taken
    split at taken
    · rename_i p old loaded here
      cases taken
      exact inv.execSwap loaded here
    · cases taken
  | destroy cpu =>
    simp only [Proc.step] at taken
    split at taken
    · rename_i p exec destroying
      cases taken
      exact inv.destroyCall destroying
    · cases taken
  | finish cpu =>
    simp only [Proc.step] at taken
    split at taken
    · rename_i p mm exec ending
      cases taken
      exact inv.finishCall ending
    · cases taken
  | reapDestroy t =>
    simp only [Proc.step] at taken
    split at taken
    · rename_i p destroying
      cases taken
      exact inv.destroyReap destroying
    · cases taken
  | reapFinish t =>
    simp only [Proc.step] at taken
    split at taken
    · rename_i p mm ending
      cases taken
      exact inv.finishReap ending
    · cases taken
  | sched event =>
    obtain ⟨allows, taken⟩ := Option.ite_none_right_eq_some.mp taken
    obtain ⟨sched, stepped, same⟩ := Option.map_eq_some_iff.mp taken
    cases same
    exact inv.follow allows switched stepped

theorem init_sound : Sound init where
  counted := by
    refine ⟨fun p => ?_, nofun, nofun⟩
    have refs : init.refs p = 0 := count_eq_zero.mpr fun a => by cases a <;> nofun
    have enders : init.enders p = 0 := count_eq_zero.mpr fun a => by cases a <;> nofun
    rw [refs, enders]
    exact ⟨fun _ => ⟨rfl, rfl, rfl⟩, fun born => absurd born (Nat.not_lt_zero p), nofun,
      fun born => absurd born (Nat.not_lt_zero p), rfl⟩
  settled := ⟨Sched.init_coherent, by decide⟩
  known := Sched.init_identified
  busy _ inside := absurd rfl inside
  unused _ _ := rfl
  detached _ _ := rfl
  reaping _ active := absurd rfl active
  sole := ⟨fun _ inside => inside.elim, nofun⟩
  threads := nofun

/-- The operations on processes with exits, kills, reaping, ticks and switches; no call blocks the
task that makes it. -/
def Label.Listed : Label → Prop
  | .sched (.park _) | .sched (.unpark _) | .sched (.sleep _ _) | .sched (.wait4 _ _) => False
  | _ => True

instance (label : Label) : Decidable label.Listed := by
  unfold Label.Listed
  split <;> infer_instance

/-- In runs of these operations, who is blocked has never been on a CPU or has left it. -/
structure Rested (s : State) : Prop where
  sound : Sound s
  rested : ∀ t, (s.sched.tasks t).state = .blocked → (s.sched.tasks t).currentCpu = none

theorem Rested.switched (inv : Rested s) (listed : label.Listed) : Switched s label := by
  have off : ∀ t, (s.sched.tasks t).state = .blocked → ∀ cpu, s.sched.current cpu ≠ t :=
    fun t blocked cpu => inv.sound.settled.coherent.not_current (inv.rested t blocked)
  cases label with
  | sched event =>
    intro t woken
    cases event with
    | wake u => exact off t woken.2.1
    | tick cpu => exact off t woken.2.1
    | exit cpu => exact off t woken.2
    | park cpu => exact listed.elim
    | unpark u => exact listed.elim
    | sleep cpu ticks => exact listed.elim
    | wait4 cpu pid => exact listed.elim
    | _ => exact woken.elim
  | _ => trivial

section Data

variable (s : State) (t : Slot) (p : Nat)

@[simp] theorem State.thread_sched : (s.thread t p).sched = s.sched := by
  unfold State.thread
  dsimp only
  split <;> rfl

@[simp] theorem State.exec_sched : (s.exec t p).sched = s.sched := by
  unfold State.exec
  dsimp only
  split <;> rfl

theorem State.destroy_sched : (s.destroy p).2.sched = s.sched := by
  unfold State.destroy
  dsimp only
  split
  · rfl
  · split <;> rfl

@[simp] theorem State.destroyCall_sched (exec : Bool) :
    (s.destroyCall t p exec).sched = s.sched := by
  rw [← s.destroy_sched p]
  unfold State.destroyCall
  split <;> rename_i result <;> rw [result] <;> rfl

@[simp] theorem State.destroyReap_sched : (s.destroyReap t p).sched = s.sched := by
  rw [← s.destroy_sched p]
  unfold State.destroyReap
  split <;> rename_i result <;> rw [result] <;> rfl

theorem State.spawn_sched {stack : Bool} {failed : State} (same : failed.sched = s.sched) :
    (s.spawn t p stack failed).sched = s.sched ∨
      (s.spawn t p stack failed).sched = s.sched.create true := by
  unfold State.spawn State.taskCreateUser
  split
  · rename_i after created
    split at created
    · cases created
    · split at created
      · cases created
      · obtain ⟨_, rfl⟩ := Transition.of_guard created
        exact Or.inr rfl
  · exact Or.inl same

end Data

/-- What a step does to the scheduler's data. -/
theorem sched_of_step (taken : Proc.step s label = some r) :
    r.sched = s.sched ∨ r.sched = s.sched.create true ∨
      ∃ event, label = .sched event ∧ Sched.perform s.sched event = some r.sched := by
  cases label with
  | sched event =>
    obtain ⟨_, taken⟩ := Option.ite_none_right_eq_some.mp taken
    obtain ⟨sched, stepped, same⟩ := Option.map_eq_some_iff.mp taken
    refine Or.inr (Or.inr ⟨event, rfl, ?_⟩)
    have after : r.sched = sched := by
      rw [← same]
      cases event with
      | create user =>
        simp only [State.follow]
        split <;> rfl
      | _ => rfl
    rw [after]
    exact (Option.ite_none_left_eq_some.mp stepped).2
  | spawn cpu stack =>
    simp only [Proc.step] at taken
    split at taken <;> cases taken
    all_goals exact Or.imp id Or.inl (s.spawn_sched _ _ rfl)
  | _ =>
    refine Or.inl ?_
    simp only [Proc.step] at taken
    repeat' split at taken
    all_goals cases taken
    all_goals first | rfl | simp

theorem Rested.step (inv : Rested s) (listed : label.Listed) (taken : Proc.step s label = some r) :
    Rested r := by
  refine ⟨inv.sound.step (inv.switched listed) taken, ?_⟩
  intro t blocked
  rcases sched_of_step taken with same | created | ⟨event, rfl, performed⟩
  · rw [same] at blocked ⊢
    exact inv.rested t blocked
  · rw [created] at blocked ⊢
    have performed : Sched.perform s.sched (.create true) = some (s.sched.create true) := rfl
    exact Sched.rested_of_perform (by simp [Sched.Label.ender]) (inv.rested t) performed blocked
  · refine Sched.rested_of_perform ?_ (inv.rested t) performed blocked
    cases event <;> first | exact listed.elim | simp [Sched.Label.ender]

end Steps

/-- The count of a process is the number of the unreaped tasks that point to it and of the creators
that hold it, all of which still execute. It is released once, when that number is 0, and `execve`
replaces a process that nobody else refers to. -/
theorem run_references {s : State}
    (reached : Transition.Reachable (· = init) step (fun _ label => label.Listed) s) :
    (∀ p, p < s.next → s.freed p = 0 → (s.procs p).refCount = s.refs p) ∧
      (∀ p, p < s.next → s.freed p = s.released p ∧
        s.released p + s.enders p = if s.refs p = 0 then 1 else 0) ∧
      (∀ t, s.pc t ≠ .idle → (∃ cpu, t = Sched.idleOf cpu) ∨ s.Runs t) ∧
      ∀ cpu r p, step s (.execSwap cpu) = some r → s.process (s.current cpu) = some p →
        ∀ a, a ≠ .task (s.current cpu) → s.holds a ≠ some p := by
  have inv : Rested s := reached.invariant
    (fun s initial => initial ▸ ⟨init_sound, by decide⟩)
    fun _ _ _ inv listed taken => inv.step listed taken
  have counted := inv.sound.counted
  refine ⟨fun p => (counted.fair p).counts, fun p below => ?_, fun t inside => ?_, ?_⟩
  · exact ⟨(counted.fair p).freed, (counted.fair p).ended below⟩
  · exact (inv.sound.busy t inside).imp id fun running => running.2.1
  · intro cpu r p taken here a other refers
    simp only [step] at taken
    split at taken
    · rename_i q old loaded _
      obtain ⟨same, held, single⟩ := inv.sound.sole.exec (s.current cpu) (by rw [loaded]; trivial)
      obtain rfl := Option.some.inj (held.symm.trans here)
      have task : s.holds (.task (s.current cpu)) = some same := here
      have both : 2 ≤ s.refs same := two_le_count other refers task
      omega
    · cases taken

/-- A program is loaded, makes a thread that is killed and reaped, and calls `execve`. -/
def lifetime : List Label :=
  [.load 0, .spawn 0 true, .sched (.wake 4), .sched (.schedule 1), .thread 1, .spawn 1 true,
    .sched (.wake 5), .sched (.schedule 2), .exec 1, .sched (.kill 0 5), .sched (.schedule 2),
    .sched (.detach 5), .reapDestroy 5, .sched (.clear 5), .exec 1, .load 1]

theorem run_references_lifetime :
    ∃ s, Transition.run step init lifetime = some s ∧ s.process 4 = some 0 ∧ s.pc 4 = .loaded 1 ∧
      (s.procs 0).refCount = s.refs 0 ∧ s.refs 0 ≠ 0 ∧ s.holds (.task 5) ≠ some 0 := by
  have guarded : Transition.Guarded step (fun _ label => label.Listed) init lifetime := by
    decide +kernel
  refine Transition.ends_imp (Q := fun s => s.process 4 = some 0 ∧ s.pc 4 = .loaded 1 ∧
    s.current 1 = 4 ∧ s.freed 0 = 0 ∧ s.next = 2) (by decide +kernel) ?_
  rintro s ran ⟨process, pc, current, freed, next⟩
  obtain ⟨counts, ended, _, alone⟩ := run_references (.of_run _ (.start rfl) guarded ran)
  have task : s.holds (.task 4) = some 0 := process
  have swap : ∃ r, step s (.execSwap 1) = some r := by
    simp [step, current, pc, process]
  obtain ⟨r, taken⟩ := swap
  refine ⟨process, pc, counts 0 (by omega) freed, ?_, ?_⟩
  · have positive : 0 < s.refs 0 := count_pos task
    omega
  · exact alone 1 r 0 taken (by rw [current]; exact process) _ (by rw [current]; decide)

end OsArmv8a.Proc
