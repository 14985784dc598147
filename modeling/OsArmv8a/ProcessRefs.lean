import OsArmv8a.Process
import OsArmv8a.Lib.Tally

/-! Who refers to a process, and how a step that moves references keeps its count right. -/

set_option autoImplicit false

namespace OsArmv8a.Proc

open Tally

/-- The places that refer to a process: the tasks, the reaper's local variable for a task it has
detached, and the calls of a task that has not given the process a task yet. -/
inductive Ref where
  | task (t : Slot)
  | reaper (t : Slot)
  | call (t : Slot)
  deriving DecidableEq, Fintype

def Pc.held : Pc → Option Nat
  | .created p | .forked p | .thread p | .failed p | .loaded p | .destroying p _ => some p
  | _ => none

def Pc.ends : Pc → Option Nat
  | .ending p _ _ => some p
  | _ => none

def Reap.held : Reap → Option Nat
  | .destroying p => some p
  | _ => none

def Reap.ends : Reap → Option Nat
  | .ending p _ => some p
  | _ => none

namespace State

def holds (s : State) : Ref → Option Nat
  | .task t => s.process t
  | .reaper t => (s.reap t).held
  | .call t => (s.pc t).held

/-- Who is about to release a process, having taken the last reference. -/
def ends (s : State) : Ref → Option Nat
  | .task _ => none
  | .reaper t => (s.reap t).ends
  | .call t => (s.pc t).ends

/-- The unreaped tasks of a process and the creators that hold it without a task. -/
def refs (s : State) (p : Nat) : Nat := count s.holds p

def enders (s : State) (p : Nat) : Nat := count s.ends p

variable (s : State) (t : Slot) (p : Nat)

@[simp] theorem setPc_self (pc : Pc) : (s.setPc t pc).pc t = pc := if_pos rfl

@[simp] theorem setProc_self (process : Process) : (s.setProc p process).procs p = process := if_pos rfl

@[simp] theorem setPc_process (pc : Pc) : (s.setPc t pc).process = s.process := rfl

@[simp] theorem setProc_process (process : Process) : (s.setProc p process).process = s.process := rfl

@[simp] theorem setPc_holds (pc : Pc) (a : Ref) :
    (s.setPc t pc).holds a = if a = .call t then pc.held else s.holds a := by
  cases a with
  | call u =>
    show (if u = t then pc else s.pc u).held = _
    by_cases same : u = t <;> simp [same, holds]
  | _ => rfl

@[simp] theorem setPc_ends (pc : Pc) (a : Ref) :
    (s.setPc t pc).ends a = if a = .call t then pc.ends else s.ends a := by
  cases a with
  | call u =>
    show (if u = t then pc else s.pc u).ends = _
    by_cases same : u = t <;> simp [same, ends]
  | _ => rfl

@[simp] theorem setReap_holds (reap : Reap) (a : Ref) :
    (s.setReap t reap).holds a = if a = .reaper t then reap.held else s.holds a := by
  cases a with
  | reaper u =>
    show (if u = t then reap else s.reap u).held = _
    by_cases same : u = t <;> simp [same, holds]
  | _ => rfl

@[simp] theorem setReap_ends (reap : Reap) (a : Ref) :
    (s.setReap t reap).ends a = if a = .reaper t then reap.ends else s.ends a := by
  cases a with
  | reaper u =>
    show (if u = t then reap else s.reap u).ends = _
    by_cases same : u = t <;> simp [same, ends]
  | _ => rfl

@[simp] theorem setProcess_holds (process : Option Nat) (a : Ref) :
    (s.setProcess t process).holds a = if a = .task t then process else s.holds a := by
  cases a with
  | task u =>
    show (if u = t then process else s.process u) = _
    by_cases same : u = t <;> simp [same, holds]
  | _ => rfl

@[simp] theorem setProcess_ends (process : Option Nat) (a : Ref) :
    (s.setProcess t process).ends a = s.ends a := by
  cases a <;> rfl

@[simp] theorem setProc_holds (process : Process) (a : Ref) :
    (s.setProc p process).holds a = s.holds a := by
  cases a <;> rfl

@[simp] theorem setProc_ends (process : Process) (a : Ref) :
    (s.setProc p process).ends a = s.ends a := by
  cases a <;> rfl

@[simp] theorem finish_holds (mm : Bool) (a : Ref) : (s.finish p mm).holds a = s.holds a := by
  cases a <;> rfl

@[simp] theorem finish_ends (mm : Bool) (a : Ref) : (s.finish p mm).ends a = s.ends a := by
  cases a <;> rfl

@[simp] theorem create_holds (a : Ref) : s.create.holds a = s.holds a := by
  cases a <;> rfl

@[simp] theorem create_ends (a : Ref) : s.create.ends a = s.ends a := by
  cases a <;> rfl

end State

/-- The count of a process is the number of references to it, and a process without one is released
once: by the one that took the last reference, or already. -/
structure Fair (born : Prop) (process : Process) (refs enders released freed : Nat) : Prop where
  unborn : ¬ born → refs = 0 ∧ enders = 0 ∧ released = 0
  counts : born → freed = 0 → process.refCount = refs
  mapped : 0 < refs → process.mm = true
  ended : born → released + enders = if refs = 0 then 1 else 0
  freed : freed = released

section Numbers

variable {born : Prop} {process now : Process} {refs enders released freed more fewer : Nat}

section

variable (fair : Fair born process refs enders released freed)

include fair

theorem Fair.keep (count : now.refCount = process.refCount)
    (mm : process.mm = true → now.mm = true) : Fair born now refs enders released freed :=
  ⟨fair.unborn, fun made kept => count.trans (fair.counts made kept), fun positive =>
    mm (fair.mapped positive), fair.ended, fair.freed⟩

/-- A thread is counted before its task exists. -/
theorem Fair.gain (positive : 0 < refs) (gained : more = refs + 1) :
    Fair born { process with refCount := process.refCount + 1 } more enders released freed := by
  obtain ⟨unborn, counts, mapped, ended, same⟩ := fair
  rw [if_neg (Nat.ne_of_gt positive)] at ended
  refine ⟨fun unmade => ?_, fun made kept => ?_, fun _ => mapped positive, fun made => ?_, same⟩
  · have none := (unborn unmade).1
    omega
  · exact (congrArg (· + 1) (counts made kept)).trans gained.symm
  · rw [if_neg (by omega)]
    exact ended made

/-- One of several references is given back. -/
theorem Fair.drop (several : 1 < refs) (gone : fewer + 1 = refs) :
    Fair born { process with refCount := process.refCount - 1 } fewer enders released freed := by
  obtain ⟨unborn, counts, mapped, ended, same⟩ := fair
  rw [if_neg (by omega)] at ended
  refine ⟨fun unmade => ?_, fun made kept => ?_, fun _ => mapped (by omega), fun made => ?_, same⟩
  · have none := (unborn unmade).1
    omega
  · have count := counts made kept
    show process.refCount - 1 = fewer
    omega
  · rw [if_neg (by omega)]
    exact ended made

/-- The last reference is given back, and its holder goes on to release the process. -/
theorem Fair.last (single : refs = 1) (gone : fewer + 1 = refs) (ending : more = enders + 1)
    (count : now.refCount = 0) : Fair born now fewer more released freed := by
  obtain ⟨unborn, counts, mapped, ended, same⟩ := fair
  rw [if_neg (by omega)] at ended
  refine ⟨fun unmade => ?_, fun _ _ => by omega, fun positive => by omega, fun made => ?_, same⟩
  · have none := (unborn unmade).1
    omega
  · rw [if_pos (by omega)]
    have once := ended made
    omega

/-- The rest of `process_destroy`. -/
theorem Fair.finish (done : fewer + 1 = enders) :
    Fair born process refs fewer (released + 1) (freed + 1) := by
  obtain ⟨unborn, counts, mapped, ended, same⟩ := fair
  refine ⟨fun unmade => ?_, fun _ kept => absurd kept (Nat.succ_ne_zero _), mapped, fun made => ?_,
    by omega⟩
  · have none := (unborn unmade).2.1
    omega
  · rw [← ended made]
    omega

/-- A fork that finds no task gives its process back at once. -/
theorem Fair.discard (single : refs = 1) (gone : fewer + 1 = refs) :
    Fair born process fewer enders (released + 1) (freed + 1) := by
  obtain ⟨unborn, counts, mapped, ended, same⟩ := fair
  rw [if_neg (by omega)] at ended
  refine ⟨fun unmade => ?_, fun _ kept => absurd kept (Nat.succ_ne_zero _), fun positive => by omega,
    fun made => ?_, by omega⟩
  · have none := (unborn unmade).1
    omega
  · rw [if_pos (by omega)]
    have once := ended made
    omega

end

end Numbers

structure Counted (s : State) : Prop where
  fair : ∀ p, Fair (p < s.next) (s.procs p) (s.refs p) (s.enders p) (s.released p) (s.freed p)
  calls : ∀ t p mm exec, s.pc t = .ending p mm exec → mm = true
  reaps : ∀ t p mm, s.reap t = .ending p mm → mm = true

section Counts

variable {s r : State} {a b : Ref} {p : Nat}

theorem State.refs_small (s : State) (p : Nat) : s.refs p ≤ 96 := by
  have bound := count_le s.holds p
  exact bound.trans (by decide)

theorem Counted.live (inv : Counted s) (refers : s.holds a = some p) :
    0 < s.refs p ∧ p < s.next ∧ s.freed p = 0 ∧ s.enders p = 0 ∧
      (s.procs p).refCount = s.refs p ∧ (s.procs p).mm = true := by
  have positive : 0 < s.refs p := count_pos refers
  obtain ⟨unborn, counts, mapped, ended, freed⟩ := inv.fair p
  have below : p < s.next := by
    by_contra unmade
    omega
  have once := ended below
  rw [if_neg (by omega)] at once
  exact ⟨positive, below, by omega, by omega, counts below (by omega), mapped positive⟩

/-- Nobody refers to the process that is made next. -/
theorem Counted.unreferred (inv : Counted s) : s.refs s.next = 0 ∧ s.enders s.next = 0 ∧
    s.released s.next = 0 :=
  (inv.fair s.next).unborn (lt_irrefl _)

/-- References move between places. -/
theorem Counted.swap (inv : Counted s) (next : r.next = s.next) (released : r.released = s.released)
    (freed : r.freed = s.freed) (first : r.holds a = s.holds b)
    (second : r.holds b = s.holds a) (others : ∀ c, c ≠ a → c ≠ b → r.holds c = s.holds c)
    (ends : ∀ c, r.ends c = s.ends c) (count : ∀ q, (r.procs q).refCount = (s.procs q).refCount)
    (mm : ∀ q, (s.procs q).mm = true → (r.procs q).mm = true)
    (calls : ∀ t p mm exec, r.pc t = .ending p mm exec → mm = true)
    (reaps : ∀ t p mm, r.reap t = .ending p mm → mm = true) : Counted r := by
  refine ⟨fun q => ?_, calls, reaps⟩
  have refs : r.refs q = s.refs q := count_swap first second others q
  have enders : r.enders q = s.enders q := count_congr ends q
  rw [refs, enders, next, released, freed]
  exact (inv.fair q).keep (count q) (mm q)

/-- A step of the call or of the reaper at the place `a`, on behalf of the process `p`. -/
structure Acts (s r : State) (a : Ref) (p : Nat) : Prop where
  sched : r.sched = s.sched
  process : r.process = s.process
  pc : ∀ t, a ≠ .call t → r.pc t = s.pc t
  reap : ∀ t, a ≠ .reaper t → r.reap t = s.reap t
  called : ∀ t q mm exec, a = .call t → r.pc t = .ending q mm exec → mm = true
  reaped : ∀ t q mm, a = .reaper t → r.reap t = .ending q mm → mm = true
  procs : ∀ q, q ≠ p → r.procs q = s.procs q
  next : ∀ q, q ≠ p → (q < r.next ↔ q < s.next)
  released : ∀ q, q ≠ p → r.released q = s.released q
  freed : ∀ q, q ≠ p → r.freed q = s.freed q
  before : ∀ q, q ≠ p → s.holds a ≠ some q ∧ s.ends a ≠ some q
  after : ∀ q, q ≠ p → r.holds a ≠ some q ∧ r.ends a ≠ some q

theorem Acts.places (acts : Acts s r a p) (c : Ref) (other : c ≠ a) :
    r.holds c = s.holds c ∧ r.ends c = s.ends c := by
  cases c with
  | task t => exact ⟨congrFun acts.process t, rfl⟩
  | reaper t =>
    have same := acts.reap t other.symm
    exact ⟨congrArg Reap.held same, congrArg Reap.ends same⟩
  | call t =>
    have same := acts.pc t other.symm
    exact ⟨congrArg Pc.held same, congrArg Pc.ends same⟩

theorem Acts.refs (acts : Acts s r a p) :
    r.refs p + (s.holds a).toList.length = s.refs p + (r.holds a).toList.length :=
  count_own (fun c other => (acts.places c other).1) (fun q other => (acts.before q other).1)
    fun q other => (acts.after q other).1

theorem Acts.enders (acts : Acts s r a p) :
    r.enders p + (s.ends a).toList.length = s.enders p + (r.ends a).toList.length :=
  count_own (fun c other => (acts.places c other).2) (fun q other => (acts.before q other).2)
    fun q other => (acts.after q other).2

theorem Acts.refs_other (acts : Acts s r a p) {q : Nat} (other : q ≠ p) : r.refs q = s.refs q :=
  count_other (fun c other => (acts.places c other).1) (acts.before q other).1 (acts.after q other).1

theorem Acts.enders_other (acts : Acts s r a p) {q : Nat} (other : q ≠ p) :
    r.enders q = s.enders q :=
  count_other (fun c other => (acts.places c other).2) (acts.before q other).2 (acts.after q other).2

theorem Counted.act (inv : Counted s) (acts : Acts s r a p)
    (fair : Fair (p < r.next) (r.procs p) (r.refs p) (r.enders p) (r.released p) (r.freed p)) :
    Counted r := by
  refine ⟨fun q => ?_, fun t q mm exec ending => ?_, fun t q mm ending => ?_⟩
  · by_cases same : q = p
    · exact same ▸ fair
    · have born := acts.next q same
      rw [acts.refs_other same, acts.enders_other same, acts.procs q same, acts.released q same,
        acts.freed q same]
      obtain ⟨unborn, counts, mapped, ended, freed⟩ := inv.fair q
      exact ⟨fun unmade => unborn fun made => unmade (born.mpr made), fun made => counts (born.mp made),
        mapped, fun made => ended (born.mp made), freed⟩
  · by_cases here : a = .call t
    · exact acts.called t q mm exec here ending
    · exact inv.calls t q mm exec (acts.pc t here ▸ ending)
  · by_cases here : a = .reaper t
    · exact acts.reaped t q mm here ending
    · exact inv.reaps t q mm (acts.reap t here ▸ ending)

end Counts

end OsArmv8a.Proc
