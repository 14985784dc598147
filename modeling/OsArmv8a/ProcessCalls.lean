import OsArmv8a.ProcessRefs
import OsArmv8a.SchedRun

/-! The calls of `process.c` and the reaper keep the reference counts. -/

set_option autoImplicit false

namespace OsArmv8a.Proc

open Tally

/-- Between the first check of `process_execve` and its exchange of the processes. -/
def Pc.InExec : Pc → Prop
  | .exec | .loaded _ | .destroying _ true | .ending _ _ true => True
  | _ => False

/-- The process of its own task that `process_clone` has counted a thread for. -/
def Pc.ofThread : Pc → Option Nat
  | .thread p | .failed p => some p
  | _ => none

/-- The process that `process_execve` is to replace, and the one that a fork has made, have one
reference each. -/
structure Lone (s : State) : Prop where
  exec : ∀ t, (s.pc t).InExec → ∃ p, s.process t = some p ∧ s.refs p = 1
  fork : ∀ t p, s.pc t = .forked p → s.refs p = 1

/-- A place that none of these references is at. -/
def State.Spare (s : State) (a : Ref) : Prop :=
  (∀ t, (s.pc t).InExec → a ≠ .task t) ∧ ∀ t p, s.pc t = .forked p → a ≠ .call t

/-- The invariant of every run: the counts, one CPU for each task, nobody who is inside a call is
switched out or reaped, and a process under `execve` has one reference. -/
structure Sound (s : State) : Prop where
  counted : Counted s
  settled : Sched.Settled s.sched
  known : Sched.Identified s.sched
  busy : ∀ t, s.pc t ≠ .idle → (∃ cpu, t = Sched.idleOf cpu) ∨
    4 ≤ (s.sched.tasks t).id ∧ (s.sched.tasks t).state = .running ∧
      (s.sched.tasks t).currentCpu ≠ none
  unused : ∀ t, (s.sched.tasks t).named = false → s.process t = none
  detached : ∀ t, (s.sched.tasks t).state = .reaping → s.process t = none
  reaping : ∀ t, s.reap t ≠ .idle → (s.sched.tasks t).state = .reaping
  sole : Lone s
  threads : ∀ t p, (s.pc t).ofThread = some p → s.process t = some p

section Calls

variable {s r m : State} {a : Ref} {t : Slot} {p : Nat} {cpu : Cpu}

/-- An idle task, or one that stays on its CPU. -/
def State.Stays (s : State) (t : Slot) : Prop :=
  (∃ cpu, t = Sched.idleOf cpu) ∨ 4 ≤ (s.sched.tasks t).id ∧ (s.sched.tasks t).state = .running ∧
    (s.sched.tasks t).currentCpu ≠ none

theorem Sound.caller (inv : Sound s) (runs : s.Runs (s.current cpu)) : s.Stays (s.current cpu) := by
  obtain ⟨named, here⟩ := inv.settled.coherent.current cpu
  by_cases small : (s.sched.tasks (s.current cpu)).id < 4
  · exact Or.inl (inv.settled.coherent.ids _ named small)
  · refine Or.inr ⟨by omega, runs, ?_⟩
    have same : (s.sched.tasks (s.current cpu)).currentCpu = some cpu := here
    simp [same]

/-- The place of the step referred to the process already, still refers to the same or to a process
that nobody knew, or a task outside `execve` refers to it too. -/
def State.Fresh (s r : State) (a : Ref) (p : Nat) : Prop :=
  s.holds a = some p ∨ r.holds a = s.holds a ∨ s.refs p = 0 ∨ ∃ b, s.holds b = some p ∧ s.Spare b

/-- A single reference stays single: who changes another count is at another place. -/
theorem Acts.single_keeps (acts : Acts s r a p) (fresh : s.Fresh r a p) {c : Ref} {q : Nat}
    (same : r.holds c = s.holds c) (refers : s.holds c = some q) (single : s.refs q = 1)
    (lone : ¬ s.Spare c) : r.refs q = 1 := by
  by_cases own : q = p
  · subst own
    have kept : r.holds a = s.holds a → r.refs q = 1 := by
      intro equal
      have total := acts.refs
      rw [equal] at total
      omega
    rcases fresh with held | equal | none | ⟨b, holds, spare⟩
    · by_cases here : c = a
      · exact kept (here ▸ same)
      · have both : 2 ≤ s.refs q := two_le_count here refers held
        omega
    · exact kept equal
    · omega
    · have apart : b ≠ c := fun same => lone (same ▸ spare)
      have both : 2 ≤ s.refs q := two_le_count apart holds refers
      omega
  · rw [acts.refs_other own, single]

theorem Sound.act (inv : Sound s) (acts : Acts s r a p) (fresh : s.Fresh r a p)
    (fair : Fair (p < r.next) (r.procs p) (r.refs p) (r.enders p) (r.released p) (r.freed p))
    (stays : ∀ t, a = .call t → s.Stays t) (reaping : ∀ t, a = .reaper t → s.reap t ≠ .idle)
    (exec : ∀ t, a = .call t → (r.pc t).InExec →
      (s.pc t).InExec ∨ s.process t = some p ∧ r.refs p = 1)
    (fork : ∀ t q, a = .call t → r.pc t = .forked q → r.refs q = 1)
    (threads : ∀ t q, a = .call t → (r.pc t).ofThread = some q → s.process t = some q) : Sound r := by
  have inExec : ∀ t, (s.pc t).InExec → ∃ q, r.process t = some q ∧ r.refs q = 1 := by
    intro t inside
    obtain ⟨q, here, single⟩ := inv.sole.exec t inside
    have same : r.holds (.task t) = s.holds (.task t) := congrFun acts.process t
    exact ⟨q, same.trans here, acts.single_keeps fresh same here single fun spare =>
      spare.1 t inside rfl⟩
  refine ⟨inv.counted.act acts fair, acts.sched ▸ inv.settled, acts.sched ▸ inv.known, ?_, ?_, ?_, ?_,
    ⟨?_, ?_⟩, ?_⟩
  · intro t busy
    rw [acts.sched]
    by_cases here : a = .call t
    · exact stays t here
    · exact inv.busy t (acts.pc t here ▸ busy)
  · rw [acts.sched, acts.process]
    exact inv.unused
  · rw [acts.sched, acts.process]
    exact inv.detached
  · intro t active
    rw [acts.sched]
    by_cases here : a = .reaper t
    · exact inv.reaping t (reaping t here)
    · exact inv.reaping t (acts.reap t here ▸ active)
  · intro t inside
    by_cases here : a = .call t
    · rcases exec t here inside with before | ⟨process, single⟩
      · exact inExec t before
      · exact ⟨p, by rw [acts.process, process], single⟩
    · exact inExec t (acts.pc t here ▸ inside)
  · intro t q forked
    by_cases here : a = .call t
    · exact fork t q here forked
    · rw [acts.pc t here] at forked
      exact acts.single_keeps fresh (acts.places _ (Ne.symm here)).1 (congrArg Pc.held forked)
        (inv.sole.fork t q forked) fun spare => spare.2 t q forked rfl
  · intro t q counting
    rw [acts.process]
    by_cases here : a = .call t
    · exact threads t q here counting
    · exact inv.threads t q (acts.pc t here ▸ counting)

/-- What a step changes before its place moves on is the process `p`. -/
structure Touches (s m : State) (p : Nat) : Prop where
  sched : m.sched = s.sched
  process : m.process = s.process
  pc : m.pc = s.pc
  reap : m.reap = s.reap
  procs : ∀ q, q ≠ p → m.procs q = s.procs q
  next : ∀ q, q ≠ p → (q < m.next ↔ q < s.next)
  released : ∀ q, q ≠ p → m.released q = s.released q
  freed : ∀ q, q ≠ p → m.freed q = s.freed q

theorem Touches.refl : Touches s s p :=
  ⟨rfl, rfl, rfl, rfl, fun _ _ => rfl, fun _ _ => Iff.rfl, fun _ _ => rfl, fun _ _ => rfl⟩

theorem Touches.setProc (process : Process) : Touches s (s.setProc p process) p :=
  ⟨rfl, rfl, rfl, rfl, fun _ other => if_neg other, fun _ _ => Iff.rfl, fun _ _ => rfl, fun _ _ => rfl⟩

theorem Touches.create : Touches s s.create s.next := by
  refine ⟨rfl, rfl, rfl, rfl, fun _ other => if_neg other, fun q other => ?_, fun _ _ => rfl,
    fun _ _ => rfl⟩
  show q < s.next + 1 ↔ q < s.next
  omega

theorem Touches.finish : Touches s (s.finish p true) p :=
  ⟨rfl, rfl, rfl, rfl, fun _ _ => rfl, fun _ _ => Iff.rfl, fun _ other => if_neg fun both => other both.1,
    fun _ other => if_neg other⟩

/-- The call concerns no other process. -/
def Pc.About (pc : Pc) (p : Nat) : Prop := ∀ q, pc.held = some q ∨ pc.ends = some q → q = p

theorem Touches.call {pc : Pc} (touches : Touches s m p) (before : (s.pc t).About p)
    (after : pc.About p) (mapped : ∀ q mm exec, pc = .ending q mm exec → mm = true) :
    Acts s (m.setPc t pc) (.call t) p where
  sched := touches.sched
  process := touches.process
  pc u other := (if_neg fun (equal : u = t) => other (by rw [equal])).trans (congrFun touches.pc u)
  reap u _ := congrFun touches.reap u
  called u q mm exec here ending := by
    cases here
    exact mapped q mm exec ((m.setPc_self t pc).symm.trans ending)
  reaped _ _ _ here := nomatch here
  procs := touches.procs
  next := touches.next
  released := touches.released
  freed := touches.freed
  before q other := ⟨fun held => other (before q (Or.inl held)),
    fun ends => other (before q (Or.inr ends))⟩
  after q other := by
    rw [State.setPc_holds, State.setPc_ends, if_pos rfl, if_pos rfl]
    exact ⟨fun held => other (after q (Or.inl held)), fun ends => other (after q (Or.inr ends))⟩

/-- One step of a call, from the numbers of the process it is about. -/
theorem Sound.call (inv : Sound s) {pc : Pc} (touches : Touches s m p) (stays : s.Stays t)
    (before : (s.pc t).About p) (after : pc.About p)
    (mapped : ∀ q mm exec, pc = .ending q mm exec → mm = true)
    (fresh : (s.pc t).held = some p ∨ pc.held = (s.pc t).held ∨ s.refs p = 0 ∨
      ∃ b, s.holds b = some p ∧ s.Spare b)
    (threads : ∀ q, pc.ofThread = some q → s.process t = some q)
    (counts : ∀ refs enders,
      refs + (s.pc t).held.toList.length = s.refs p + pc.held.toList.length →
      enders + (s.pc t).ends.toList.length = s.enders p + pc.ends.toList.length →
      Fair (p < m.next) (m.procs p) refs enders (m.released p) (m.freed p) ∧
        (pc.InExec → (s.pc t).InExec ∨ s.process t = some p ∧ refs = 1) ∧
        ∀ q, pc = .forked q → refs = 1) : Sound (m.setPc t pc) := by
  have acts := touches.call before after mapped
  have holds : (m.setPc t pc).holds (.call t) = pc.held := by
    rw [State.setPc_holds, if_pos rfl]
  have refs := acts.refs
  have enders := acts.enders
  rw [holds] at refs
  rw [State.setPc_ends, if_pos rfl] at enders
  obtain ⟨fair, exec, fork⟩ := counts _ _ refs enders
  refine inv.act acts (by rw [State.Fresh, holds]; exact fresh) fair ?_ nofun ?_ ?_ ?_
  · rintro u ⟨⟩
    exact stays
  · rintro u ⟨⟩ inside
    exact exec (m.setPc_self t pc ▸ inside)
  · rintro u q ⟨⟩ forked
    rw [State.setPc_self] at forked
    obtain rfl := after q (Or.inl (by rw [forked]; rfl))
    exact fork q forked
  · rintro u q ⟨⟩ counting
    exact threads q (m.setPc_self t pc ▸ counting)

/-- A call that gives up what it refers to, for good or to release it. -/
theorem Sound.release (inv : Sound s) {pc : Pc} (touches : Touches s m p) (busy : s.pc t ≠ .idle)
    (about : (s.pc t).About p) (empty : pc.held = none)
    (plain : pc.ends = none ∨ ∃ exec, pc = .ending p true exec) (other : pc.ofThread = none)
    (inside : pc.InExec → (s.pc t).InExec)
    (fair : ∀ refs enders, refs + (s.pc t).held.toList.length = s.refs p →
      enders + (s.pc t).ends.toList.length = s.enders p + pc.ends.toList.length →
      Fair (p < m.next) (m.procs p) refs enders (m.released p) (m.freed p)) :
    Sound (m.setPc t pc) := by
  have fresh : (s.pc t).held = some p ∨ pc.held = (s.pc t).held := by
    cases held : (s.pc t).held with
    | none => exact Or.inr empty
    | some q => exact Or.inl (congrArg some (about q (Or.inl held)))
  refine inv.call touches (inv.busy t busy) about ?_ ?_ (fresh.imp id Or.inl) (by simp [other]) ?_
  · rcases plain with quiet | ⟨exec, rfl⟩
    · simp [Pc.About, empty, quiet]
    · simp [Pc.About, Pc.held, Pc.ends]
  · rintro q mm exec rfl
    rcases plain with quiet | ⟨exec', same⟩
    · cases quiet
    · cases same
      rfl
  · intro refs enders counted ended
    rw [empty] at counted
    refine ⟨fair refs enders counted ended, fun now => Or.inl (inside now), ?_⟩
    rintro q rfl
    cases empty

theorem Sound.load (inv : Sound s) {pc : Pc} (runs : s.Runs (s.current cpu))
    (idle : (s.pc (s.current cpu)).held = none) (quiet : (s.pc (s.current cpu)).ends = none)
    (held : pc.held = some s.next) (plain : pc.ends = none)
    (inside : pc.InExec → (s.pc (s.current cpu)).InExec) (other : pc.ofThread = none) :
    Sound (s.create.setPc (s.current cpu) pc) := by
  obtain ⟨zero, unended, unreleased⟩ := inv.counted.unreferred
  have unfreed := (inv.counted.fair s.next).freed
  refine inv.call .create (inv.caller runs) (by simp [Pc.About, idle, quiet])
    (by simp [Pc.About, held, plain]) ?_ (Or.inr (Or.inr (Or.inl zero))) (by simp [other]) ?_
  · rintro q mm exec rfl
    cases plain
  · intro refs enders counted ended
    rw [idle, held, zero] at counted
    rw [quiet, plain, unended] at ended
    obtain rfl : refs = 1 := counted
    obtain rfl : enders = 0 := ended
    refine ⟨?_, fun now => Or.inl (inside now), fun _ _ => rfl⟩
    show Fair (s.next < s.next + 1) (s.create.procs s.next) 1 0 (s.released s.next) (s.freed s.next)
    rw [unfreed, unreleased, show s.create.procs s.next = _ from if_pos rfl]
    exact ⟨fun unmade => absurd (Nat.lt_succ_self _) unmade, fun _ _ => rfl, fun _ => rfl,
      fun _ => rfl, rfl⟩

/-- The call of a task that keeps what it refers to. -/
theorem Sound.keep (inv : Sound s) {pc : Pc} (touches : Touches s m p) (stays : s.Stays t)
    (next : m.next = s.next) (released : m.released = s.released) (freed : m.freed = s.freed)
    (about : (s.pc t).About p) (held : pc.held = (s.pc t).held) (quiet : (s.pc t).ends = none)
    (plain : pc.ends = none) (count : (m.procs p).refCount = (s.procs p).refCount)
    (mm : (s.procs p).mm = true → (m.procs p).mm = true)
    (exec : pc.InExec → (s.pc t).InExec ∨ s.process t = some p ∧ s.refs p = 1)
    (fork : ∀ q, pc ≠ .forked q) (threads : ∀ q, pc.ofThread = some q → s.process t = some q) :
    Sound (m.setPc t pc) := by
  refine inv.call touches stays about ?_ ?_ (Or.inr (Or.inl held)) threads ?_
  · rw [Pc.About, held, plain, ← quiet]
    exact about
  · rintro q mm exec rfl
    cases plain
  · intro refs enders counted ended
    rw [held] at counted
    rw [plain, quiet] at ended
    obtain rfl := Nat.add_right_cancel counted
    obtain rfl : enders = s.enders p := ended
    rw [next, released, freed]
    exact ⟨(inv.counted.fair p).keep count mm, exec, fun q forked => absurd forked (fork q)⟩

theorem Sound.thread (inv : Sound s) (runs : s.Runs (s.current cpu))
    (idle : s.pc (s.current cpu) = .idle) (here : s.process (s.current cpu) = some p) :
    Sound (s.thread (s.current cpu) p) := by
  have refers : s.holds (.task (s.current cpu)) = some p := here
  obtain ⟨positive, below, unfreed, quiet, count, present⟩ := inv.counted.live refers
  unfold State.thread
  dsimp only
  split
  · exact inv
  · have small := s.refs_small p
    have more : ((s.procs p).refCount + 1) % 2 ^ 32 = (s.procs p).refCount + 1 := by
      omega
    rw [more]
    have spare : s.Spare (.task (s.current cpu)) := by
      refine ⟨?_, fun _ _ _ => nofun⟩
      rintro u inside ⟨⟩
      rw [idle] at inside
      exact inside
    refine inv.call (.setProc _) (inv.caller runs) (by simp [Pc.About, idle, Pc.held, Pc.ends])
      (by simp [Pc.About, Pc.held, Pc.ends]) nofun (Or.inr (Or.inr (Or.inr ⟨_, refers, spare⟩)))
      (by simpa [Pc.ofThread] using here) ?_
    intro refs enders counted ended
    rw [idle] at counted ended
    obtain rfl : enders = s.enders p := ended
    refine ⟨?_, fun inside => inside.elim, nofun⟩
    rw [State.setProc_self]
    exact (inv.counted.fair p).gain positive counted

/-- The critical section of `process_destroy` for a place that refers to the process. -/
theorem Counted.destroy_cases (inv : Counted s) {a : Ref} (refers : s.holds a = some p) :
    1 < s.refs p ∧ s.destroy p =
        (none, s.setProc p { s.procs p with refCount := (s.procs p).refCount - 1 }) ∨
      s.refs p = 1 ∧ s.destroy p =
        (some true, s.setProc p { s.procs p with refCount := 0, mm := false }) := by
  obtain ⟨positive, below, unfreed, quiet, count, present⟩ := inv.live refers
  unfold State.destroy
  dsimp only
  split
  · exact Or.inl ⟨by omega, rfl⟩
  · split
    · omega
    · rw [present]
      exact Or.inr ⟨by omega, rfl⟩

/-- After a call of `process_destroy` its caller refers to nothing through it. -/
theorem State.back_plain (exec : Bool) :
    (State.back exec).held = none ∧ (State.back exec).ends = none ∧
      ((State.back exec).InExec → exec = true) ∧ (State.back exec).ofThread = none := by
  unfold State.back
  cases exec <;> simp [Pc.held, Pc.ends, Pc.InExec, Pc.ofThread]

theorem Sound.destroyCall (inv : Sound s) {exec : Bool}
    (pc : s.pc (s.current cpu) = .destroying p exec) : Sound (s.destroyCall (s.current cpu) p exec) := by
  have refers : s.holds (.call (s.current cpu)) = some p := congrArg Pc.held pc
  have about : (s.pc (s.current cpu)).About p := by simp [Pc.About, pc, Pc.held, Pc.ends]
  have inside : exec = true → (s.pc (s.current cpu)).InExec := by
    rintro rfl
    rw [pc]
    trivial
  obtain ⟨none, plain, flag, other⟩ := State.back_plain exec
  unfold State.destroyCall
  rcases inv.counted.destroy_cases refers with ⟨several, result⟩ | ⟨single, result⟩
  · rw [result]
    refine inv.release (.setProc _) (by simp [pc]) about none (Or.inl plain) other
      (fun now => inside (flag now)) ?_
    intro refs enders counted ended
    rw [pc] at counted ended
    rw [plain] at ended
    obtain rfl : enders = s.enders p := ended
    rw [State.setProc_self]
    exact (inv.counted.fair p).drop several counted
  · rw [result]
    refine inv.release (.setProc _) (by simp [pc]) about rfl (Or.inr ⟨exec, rfl⟩) rfl ?_ ?_
    · cases exec
      · exact nofun
      · exact fun _ => inside rfl
    · intro refs enders counted ended
      rw [pc] at counted ended
      rw [State.setProc_self]
      exact (inv.counted.fair p).last single counted ended rfl

/-- The thread that could not be created is taken back while its creator still counts. -/
theorem Sound.undo (inv : Sound s) (pc : s.pc (s.current cpu) = .failed p) :
    Sound (s.undo (s.current cpu) p) := by
  have task : s.holds (.task (s.current cpu)) = some p := inv.threads _ p (by rw [pc]; rfl)
  have refers : s.holds (.call (s.current cpu)) = some p := congrArg Pc.held pc
  have several : 2 ≤ s.refs p := two_le_count (by simp) task refers
  obtain ⟨_, _, _, _, count, _⟩ := inv.counted.live refers
  have small := s.refs_small p
  have fewer : ((s.procs p).refCount + 2 ^ 32 - 1) % 2 ^ 32 = (s.procs p).refCount - 1 := by
    omega
  unfold State.undo
  dsimp only
  rw [fewer]
  refine inv.release (.setProc _) (by simp [pc]) (by simp [Pc.About, pc, Pc.held, Pc.ends]) rfl
    (Or.inl rfl) rfl nofun ?_
  intro refs enders counted ended
  rw [pc] at counted ended
  obtain rfl : enders = s.enders p := ended
  rw [State.setProc_self]
  exact (inv.counted.fair p).drop several counted

/-- The numbers of a process after it was released. -/
theorem State.finish_fair {refs enders : Nat}
    (fair : Fair (p < s.next) (s.procs p) refs enders (s.released p + 1) (s.freed p + 1)) :
    Fair (p < (s.finish p true).next) ((s.finish p true).procs p) refs enders
      ((s.finish p true).released p) ((s.finish p true).freed p) := by
  simpa [State.finish] using fair

theorem Sound.finishCall (inv : Sound s) {mm exec : Bool}
    (pc : s.pc (s.current cpu) = .ending p mm exec) :
    Sound ((s.finish p mm).setPc (s.current cpu) (State.back exec)) := by
  obtain rfl := inv.counted.calls _ p mm exec pc
  obtain ⟨none, plain, flag, other⟩ := State.back_plain exec
  refine inv.release .finish (by simp [pc]) (by simp [Pc.About, pc, Pc.held, Pc.ends]) none
    (Or.inl plain) other (fun now => by rw [pc, flag now]; trivial) ?_
  intro refs enders counted ended
  rw [pc] at counted ended
  rw [plain] at ended
  obtain rfl : refs = s.refs p := counted
  exact State.finish_fair ((inv.counted.fair p).finish ended)

/-- A fork without a task takes back the process that only it knows. -/
theorem Sound.discard (inv : Sound s) (forked : s.pc (s.current cpu) = .forked p) :
    Sound ((s.finish p true).setPc (s.current cpu) .idle) := by
  refine inv.release .finish (by simp [forked]) (by simp [Pc.About, forked, Pc.held, Pc.ends]) rfl
    (Or.inl rfl) rfl nofun ?_
  intro refs enders counted ended
  rw [forked] at counted ended
  obtain rfl : enders = s.enders p := ended
  exact State.finish_fair ((inv.counted.fair p).discard (inv.sole.fork _ p forked) counted)

theorem Sound.exec (inv : Sound s) (runs : s.Runs (s.current cpu))
    (idle : s.pc (s.current cpu) = .idle) (here : s.process (s.current cpu) = some p) :
    Sound (s.exec (s.current cpu) p) := by
  obtain ⟨_, _, _, _, count, _⟩ := inv.counted.live (a := .task (s.current cpu)) here
  unfold State.exec
  dsimp only
  split
  · exact inv
  · have single : s.refs p = 1 := by omega
    refine inv.keep (.setProc _) (inv.caller runs) rfl rfl rfl ?_ ?_ ?_ ?_ ?_ ?_
      (fun _ => Or.inr ⟨here, single⟩) ?_ ?_
    all_goals simp [idle, Pc.About, Pc.held, Pc.ends, Pc.ofThread]

theorem Sound.execFail (inv : Sound s) (exec : s.pc (s.current cpu) = .exec) :
    Sound (s.execFail (s.current cpu) p) := by
  unfold State.execFail
  refine inv.keep (.setProc _) (inv.busy _ (by simp [exec])) rfl rfl rfl ?_ ?_ ?_ ?_ ?_ ?_ ?_ ?_ ?_
  all_goals simp [exec, Pc.About, Pc.held, Pc.ends, Pc.ofThread, Pc.InExec]

/-- A creator gives up and goes on to `process_destroy`. -/
theorem Sound.giveUp (inv : Sound s) {exec : Bool} (held : (s.pc t).held = some p)
    (quiet : (s.pc t).ends = none) (inside : exec = true → (s.pc t).InExec) :
    Sound (s.setPc t (.destroying p exec)) := by
  have busy : s.pc t ≠ .idle := by
    intro idle
    rw [idle] at held
    cases held
  refine inv.keep (p := p) .refl (inv.busy t busy) rfl rfl rfl ?_ held.symm quiet rfl rfl id ?_ nofun
    nofun
  · simp [Pc.About, held, quiet]
  · intro now
    cases exec
    · exact now.elim
    · exact Or.inl (inside rfl)

/-- Two places exchange what they refer to, one of them the pointer of a task. Who is inside a call
keeps its own pointer, or is past the part that needs it. -/
theorem Sound.exchange (inv : Sound s) {b : Ref} (next : r.next = s.next)
    (released : r.released = s.released) (freed : r.freed = s.freed)
    (first : r.holds a = s.holds b) (second : r.holds b = s.holds a)
    (others : ∀ c, c ≠ a → c ≠ b → r.holds c = s.holds c) (ends : ∀ c, r.ends c = s.ends c)
    (count : ∀ q, (r.procs q).refCount = (s.procs q).refCount)
    (mm : ∀ q, (s.procs q).mm = true → (r.procs q).mm = true)
    (calls : ∀ t, r.pc t = s.pc t ∧ (r.process t = s.process t ∨ s.process t = none) ∨
      r.pc t = .idle ∨ ∃ q, r.pc t = .destroying q false)
    (reaps : ∀ t p mm, r.reap t = .ending p mm → mm = true) (settled : Sched.Settled r.sched)
    (known : Sched.Identified r.sched) (busy : ∀ t, r.pc t ≠ .idle → r.Stays t)
    (unused : ∀ t, (r.sched.tasks t).named = false → r.process t = none)
    (detached : ∀ t, (r.sched.tasks t).state = .reaping → r.process t = none)
    (reaping : ∀ t, r.reap t ≠ .idle → (r.sched.tasks t).state = .reaping) : Sound r := by
  have refs : ∀ q, r.refs q = s.refs q := count_swap first second others
  -- the facts about a task inside a call, whose pointer is not null
  have kept : ∀ t q, s.process t = some q → r.process t = s.process t ∨ s.process t = none →
      r.process t = some q := by
    rintro t q here (same | none)
    · exact same.trans here
    · rw [none] at here
      cases here
  refine ⟨inv.counted.swap next released freed first second others ends count mm ?_ reaps, settled,
    known, busy, unused, detached, reaping, ⟨?_, ?_⟩, ?_⟩
  · intro t p mm exec ending
    rcases calls t with ⟨same, -⟩ | idle | ⟨q, past⟩
    · exact inv.counted.calls t p mm exec (same ▸ ending)
    · cases idle.symm.trans ending
    · cases past.symm.trans ending
  · intro t inside
    rcases calls t with ⟨same, process⟩ | idle | ⟨q, past⟩
    · obtain ⟨q, here, single⟩ := inv.sole.exec t (same ▸ inside)
      exact ⟨q, kept t q here process, (refs q).trans single⟩
    · rw [idle] at inside
      exact inside.elim
    · rw [past] at inside
      exact inside.elim
  · intro t q forked
    rcases calls t with ⟨same, -⟩ | idle | ⟨q', past⟩
    · exact (refs q).trans (inv.sole.fork t q (same ▸ forked))
    · cases idle.symm.trans forked
    · cases past.symm.trans forked
  · intro t q counting
    rcases calls t with ⟨same, process⟩ | idle | ⟨q', past⟩
    · exact kept t q (inv.threads t q (same ▸ counting)) process
    · rw [idle] at counting
      cases counting
    · rw [past] at counting
      cases counting

/-- `process_execve` exchanges the two processes it refers to. -/
theorem Sound.execSwap (inv : Sound s) {old : Nat} (pc : s.pc (s.current cpu) = .loaded p)
    (here : s.process (s.current cpu) = some old) : Sound (s.execSwap (s.current cpu) p old) := by
  have named := (inv.settled.coherent.current cpu).1
  have placed := (inv.settled.coherent.current cpu).2
  have processes : ∀ t, t ≠ s.current cpu → (s.execSwap (s.current cpu) p old).process t =
      s.process t := fun _ other => if_neg other
  unfold State.execSwap at processes ⊢
  refine inv.exchange (a := .task (s.current cpu)) (b := .call (s.current cpu)) rfl rfl rfl ?_ ?_ ?_
    ?_ ?_ ?_ ?_ inv.counted.reaps inv.settled inv.known ?_ ?_ ?_ inv.reaping
  · simp [State.holds, pc, Pc.held, State.setProcess]
  · rw [State.setPc_holds, if_pos rfl]
    exact here.symm
  · intro c left right
    simp [left, right]
  · intro c
    by_cases same : c = .call (s.current cpu)
    · rw [same, State.setPc_ends]
      simp [State.ends, pc, Pc.ends]
    · simp [same]
  · intro q
    by_cases same : q = old
    · simp [State.setPc, State.setProc, same]
    · simp [State.setPc, State.setProc, same, State.setProcess]
  · intro q mapped
    by_cases same : q = old
    · simp [State.setPc, State.setProc, same]
    · simpa [State.setPc, State.setProc, same, State.setProcess] using mapped
  · intro t
    by_cases same : t = s.current cpu
    · exact Or.inr (Or.inr ⟨old, if_pos same⟩)
    · exact Or.inl ⟨if_neg same, Or.inl (processes t same)⟩
  · intro t inside
    by_cases same : t = s.current cpu
    · exact inv.busy t (by simp [same, pc])
    · exact inv.busy t fun idle => inside ((if_neg same).trans idle)
  · intro t free
    refine (processes t ?_).trans (inv.unused t free)
    rintro rfl
    cases named.symm.trans free
  · intro t reaping
    refine (processes t ?_).trans (inv.detached t reaping)
    rintro rfl
    cases placed.symm.trans (inv.settled.coherent.reaping _ reaping)

end Calls

section Reaper

variable {s m : State} {t : Slot} {p : Nat}

theorem Touches.reaper {reap : Reap} (touches : Touches s m p)
    (before : ∀ q, (s.reap t).held = some q ∨ (s.reap t).ends = some q → q = p)
    (after : ∀ q, reap.held = some q ∨ reap.ends = some q → q = p)
    (mapped : ∀ q mm, reap = .ending q mm → mm = true) : Acts s (m.setReap t reap) (.reaper t) p where
  sched := touches.sched
  process := touches.process
  pc u _ := congrFun touches.pc u
  reap u other := (if_neg fun (equal : u = t) => other (by rw [equal])).trans (congrFun touches.reap u)
  called _ _ _ _ here := nomatch here
  reaped u q mm here ending := by
    cases here
    exact mapped q mm ((if_pos rfl).symm.trans ending)
  procs := touches.procs
  next := touches.next
  released := touches.released
  freed := touches.freed
  before q other := ⟨fun held => other (before q (Or.inl held)),
    fun ends => other (before q (Or.inr ends))⟩
  after q other := by
    rw [State.setReap_holds, State.setReap_ends, if_pos rfl, if_pos rfl]
    exact ⟨fun held => other (after q (Or.inl held)), fun ends => other (after q (Or.inr ends))⟩

/-- A step of the reaper for a task it has detached, which gives up what it refers to. -/
theorem Sound.reaper (inv : Sound s) {reap : Reap} (touches : Touches s m p)
    (active : s.reap t ≠ .idle)
    (about : ∀ q, (s.reap t).held = some q ∨ (s.reap t).ends = some q → q = p)
    (empty : reap.held = none) (plain : reap.ends = none ∨ reap = .ending p true)
    (fair : ∀ refs enders, refs + (s.reap t).held.toList.length = s.refs p →
      enders + (s.reap t).ends.toList.length = s.enders p + reap.ends.toList.length →
      Fair (p < m.next) (m.procs p) refs enders (m.released p) (m.freed p)) :
    Sound (m.setReap t reap) := by
  have acts : Acts s (m.setReap t reap) (.reaper t) p := by
    refine touches.reaper about ?_ ?_
    · rcases plain with quiet | rfl
      · simp [empty, quiet]
      · simp [Reap.held, Reap.ends]
    · rintro q mm rfl
      rcases plain with quiet | same
      · cases quiet
      · cases same
        rfl
  have holds : (m.setReap t reap).holds (.reaper t) = none := by
    rw [State.setReap_holds, if_pos rfl, empty]
  have refs := acts.refs
  have enders := acts.enders
  rw [holds] at refs
  rw [State.setReap_ends, if_pos rfl] at enders
  refine inv.act acts ?_ (fair _ _ refs enders) nofun ?_ nofun nofun nofun
  · cases held : (s.reap t).held with
    | none => exact Or.inr (Or.inl (holds.trans held.symm))
    | some q => exact Or.inl (held.trans (congrArg some (about q (Or.inl held))))
  · rintro u ⟨⟩
    exact active

theorem Sound.destroyReap (inv : Sound s) (reap : s.reap t = .destroying p) :
    Sound (s.destroyReap t p) := by
  have refers : s.holds (.reaper t) = some p := congrArg Reap.held reap
  have about : ∀ q, (s.reap t).held = some q ∨ (s.reap t).ends = some q → q = p := by
    simp [reap, Reap.held, Reap.ends]
  unfold State.destroyReap
  rcases inv.counted.destroy_cases refers with ⟨several, result⟩ | ⟨single, result⟩
  · rw [result]
    refine inv.reaper (.setProc _) (by simp [reap]) about rfl (Or.inl rfl) ?_
    intro refs enders counted ended
    rw [reap] at counted ended
    obtain rfl : enders = s.enders p := ended
    rw [State.setProc_self]
    exact (inv.counted.fair p).drop several counted
  · rw [result]
    refine inv.reaper (.setProc _) (by simp [reap]) about rfl (Or.inr rfl) ?_
    intro refs enders counted ended
    rw [reap] at counted ended
    rw [State.setProc_self]
    exact (inv.counted.fair p).last single counted ended rfl

theorem Sound.finishReap (inv : Sound s) {mm : Bool} (reap : s.reap t = .ending p mm) :
    Sound ((s.finish p mm).setReap t .idle) := by
  obtain rfl := inv.counted.reaps t p mm reap
  refine inv.reaper .finish (by simp [reap]) (by simp [reap, Reap.held, Reap.ends]) rfl (Or.inl rfl) ?_
  intro refs enders counted ended
  rw [reap] at counted ended
  obtain rfl : refs = s.refs p := counted
  exact State.finish_fair ((inv.counted.fair p).finish ended)

end Reaper

end OsArmv8a.Proc
