import OsArmv8a.PoolSteps
import OsArmv8a.Lib.Tally

/-! The invariant of a pool, and what each change of a counter, a queue or a scan makes of it. -/

set_option autoImplicit false

namespace OsArmv8a.Pool

open Tally

def Call.pins (i : Index) (call : Call) : Bool := decide (call.place = .inside i)

def Scan.holds (i : Index) (scan : Scan) : Bool := decide (scan.phase ≠ .next ∧ scan.index = i.val)

/-- The tasks between pin and unpin on a slot, and the scans inside it. A killed task counts until its
scan has left the slot. -/
def State.inside (s : State) (i : Index) : Nat :=
  tally (fun t => (s.calls t).pins i) + tally fun t => (s.scans t).holds i

def State.Linked (s : State) (t : Slot) : Prop := ∃ i, t ∈ (s.entries i).waiters

instance (s : State) (t : Slot) : Decidable (s.Linked t) := inferInstanceAs (Decidable (∃ _, _))

/-- Only dequeues end waits, scans enter no slot that is being destroyed, and a killed task that has a
call on the slot its scan has entered is on the queue there. -/
def Orderly (s : State) : Label → Prop
  | .sched event => ∀ t, Sched.Wakes s.sched event t → ¬ s.Linked t
  | .unpark t => Sched.Wakes s.sched (.unpark t) t → ¬ s.Linked t
  | .park cpu => s.Linked (s.current cpu) → (s.sched.park (s.current cpu)).1 = true
  | .scan t => ∀ i : Index, (s.scans t).index = i.val →
      match (s.scans t).phase with
      | .next => (s.entries i).used = true → (s.entries i).destroying = false
      | .pinned => (s.calls t).slot = some i → t ∈ (s.entries i).waiters
      | .removed _ => True
  | _ => True

instance (s : State) (label : Label) : Decidable (Orderly s label) := by
  unfold Orderly
  cases label with
  | scan t =>
    dsimp only
    cases (s.scans t).phase <;> infer_instance
  | _ => infer_instance

/-- Whoever is on a queue waits there, and executes nothing once it has parked. -/
structure Queued (s : State) : Prop where
  known : Sched.Identified s.sched
  killable : Sched.Killable s.sched
  seated : Sched.Seated s.sched
  users : ∀ t, s.calls t ≠ .out → 4 ≤ (s.sched.tasks t).id
  joined : ∀ i t, t ∈ (s.entries i).waiters →
    s.calls t = .op i .waiting ∨ s.calls t = .op i .parked
  distinct : ∀ i, (s.entries i).waiters.Nodup
  held : ∀ i t, t ∈ (s.entries i).waiters → s.calls t = .op i .parked → (s.sched.tasks t).Held

/-- The counters, and at most one task that destroys a slot, alone in it. -/
structure Counted (s : State) : Prop where
  count : ∀ i, (s.entries i).used = true → (s.entries i).activeOps = s.inside i
  used : ∀ t i, (s.calls t).place = .inside i → (s.entries i).used = true
  scanned : ∀ t i, (s.scans t).holds i = true → (s.entries i).used = true
  freeing : ∀ t i generation, (s.calls t).place = .freeing i generation →
    (s.entries i).used = true ∧ (s.entries i).destroying = true ∧
      (s.entries i).generation = generation ∧ s.inside i = 0
  freer : ∀ i, (s.entries i).destroying = true → ∃ t generation,
    (s.calls t).place = .freeing i generation
  unique : ∀ t u i g h, (s.calls t).place = .freeing i g → (s.calls u).place = .freeing i h → t = u
  ranged : ∀ i, (s.entries i).used = true →
    0 < (s.entries i).generation ∧ (s.entries i).generation ≤ generationMax

/-- A scan has ended what the task had on the slots behind it. -/
structure Scanned (s : State) : Prop where
  reaping : ∀ t, (s.scans t).phase ≠ .next →
    (s.sched.tasks t).state = .reaping ∧ (s.scans t).index < 64
  passed : ∀ t (i : Index), (s.sched.tasks t).state = .reaping → i.val < (s.scans t).index →
    (s.calls t).slot ≠ some i
  removed : ∀ t (i : Index) detached, s.scans t = ⟨i.val, .removed detached⟩ →
    ((s.calls t).place = .inside i ↔ detached = true) ∧
      (∀ generation, (s.calls t).place ≠ .freeing i generation) ∧ t ∉ (s.entries i).waiters

/-- Operations are those of the pool, and mutexes with waiters are locked. -/
structure Typed (kind : Kind) (s : State) : Prop where
  kinds : ∀ t i op, s.calls t = .op i (.pinned op) → op.kind = kind
  guarded : kind = .mutex → ∀ i, (s.entries i).Guarded

structure Sound (kind : Kind) (s : State) : Prop where
  queued : Queued s
  counted : Counted s
  scanned : Scanned s
  typed : Typed kind s

theorem State.Executes.not_held {s : State} {t : Slot} (executes : s.Executes t) :
    ¬ (s.sched.tasks t).Held := by
  rcases executes with running | ready
  · simp [Sched.Task.Held, running]
  · simp [Sched.Task.Held, ready]

theorem State.Executes.live {s : State} {t : Slot} (executes : s.Executes t) :
    (s.sched.tasks t).state ≠ .reaping := fun reaping => executes.not_held (Or.inr (Or.inr reaping))

/-! The number of operations and scans inside a slot. -/

section Inside

variable {s r : State} {t : Slot} {i : Index}

theorem State.inside_le (s : State) (i : Index) : s.inside i ≤ 64 := by
  have calls := tally_le fun t => (s.calls t).pins i
  have scans := tally_le fun t => (s.scans t).holds i
  simp only [Fintype.card_fin] at calls scans
  unfold State.inside
  omega

theorem State.inside_congr (calls : ∀ t, (r.calls t).pins i = (s.calls t).pins i)
    (scans : ∀ t, (r.scans t).holds i = (s.scans t).holds i) : r.inside i = s.inside i := by
  unfold State.inside
  rw [tally_congr calls, tally_congr scans]

theorem State.inside_pos (inside : (s.calls t).place = .inside i) : 0 < s.inside i := by
  have positive := tally_pos (p := fun t => (s.calls t).pins i) (a := t) (by simp [Call.pins, inside])
  unfold State.inside
  omega

theorem State.inside_pos_scan (inside : (s.scans t).holds i = true) : 0 < s.inside i := by
  have positive := tally_pos (p := fun t => (s.scans t).holds i) (a := t) inside
  unfold State.inside
  omega

theorem State.inside_both {u : Slot} (task : (s.calls t).place = .inside i)
    (scan : (s.scans u).holds i = true) : 1 < s.inside i := by
  have tasks := tally_pos (p := fun t => (s.calls t).pins i) (a := t) (by simp [Call.pins, task])
  have scans := tally_pos (p := fun t => (s.scans t).holds i) (a := u) scan
  unfold State.inside
  omega

/-- Only one task moves, or its scan. -/
theorem State.inside_change (t : Slot) (calls : ∀ u, u ≠ t → r.calls u = s.calls u)
    (scans : ∀ u, u ≠ t → r.scans u = s.scans u) (i : Index) :
    r.inside i + ((if (s.calls t).place = .inside i then 1 else 0) + ((s.scans t).holds i).toNat) =
      s.inside i + ((if (r.calls t).place = .inside i then 1 else 0) + ((r.scans t).holds i).toNat) := by
  have tasks := tally_change (p := fun u => (s.calls u).pins i) (q := fun u => (r.calls u).pins i) t
    fun u other => by rw [calls u other]
  have reapers := tally_change (p := fun u => (s.scans u).holds i) (q := fun u => (r.scans u).holds i) t
    fun u other => by rw [scans u other]
  have place : ∀ call : Call, (call.pins i).toNat = if call.place = .inside i then 1 else 0 := by
    intro call
    unfold Call.pins
    split <;> simp [*]
  rw [place, place] at tasks
  unfold State.inside
  omega

end Inside

/-! Each change of the counters. -/

section Counters

variable {s r : State} {t : Slot} {i : Index}

theorem Counted.congr (inv : Counted s) (places : ∀ t, (r.calls t).place = (s.calls t).place)
    (alike : ∀ i, (s.entries i).Alike (r.entries i))
    (scans : ∀ t i, (r.scans t).holds i = (s.scans t).holds i) : Counted r := by
  have inside : ∀ i, r.inside i = s.inside i := fun i =>
    State.inside_congr (fun t => by simp [Call.pins, places]) (fun t => scans t i)
  have isUsed := fun i => (alike i).used
  have generation := fun i => (alike i).generation
  have activeOps := fun i => (alike i).activeOps
  have destroying := fun i => (alike i).destroying
  obtain ⟨count, used, scanned, freeing, freer, unique, ranged⟩ := inv
  constructor
  · simpa only [isUsed, activeOps, inside] using count
  · simpa only [isUsed, places] using used
  · simpa only [isUsed, scans] using scanned
  · simpa only [isUsed, places, destroying, generation, inside] using freeing
  · simpa only [places, destroying] using freer
  · simpa only [places] using unique
  · simpa only [isUsed, generation] using ranged

/-- A task enters a slot. -/
theorem Counted.pin {stage : Stage} (inv : Counted s) (out : s.calls t = .out)
    (accepts : (s.entries i).Accepts (s.entries i).generation) :
    Counted ((s.setEntry i (s.entries i).enter).setCall t (.op i stage)) := by
  generalize same : (s.setEntry i (s.entries i).enter).setCall t (.op i stage) = r
  have entries : ∀ j, r.entries j = if j = i then (s.entries i).enter else s.entries j := by
    simp [← same]
  have calls : ∀ u, r.calls u = if u = t then .op i stage else s.calls u := by simp [← same]
  have scans : ∀ u, r.scans u = s.scans u := by simp [← same]
  have was : (s.calls t).place = .out := by simp [out, Call.place]
  have now : (r.calls t).place = .inside i := by simp [calls, Call.place]
  have moved := State.inside_change t (fun u other => by simp [calls, other]) fun u _ => scans u
  have bound := s.inside_le i
  obtain ⟨count, used, scanned, freeing, freer, unique, ranged⟩ := inv
  obtain ⟨isUsed, _, kept⟩ := accepts
  unfold Entry.enter at entries
  refine ⟨?_, ?_, ?_, ?_, ?_, ?_, ?_⟩
  all_goals grind

/-- A task leaves a slot. -/
theorem Counted.unpin (inv : Counted s) (inside : (s.calls t).place = .inside i) :
    Counted (s.unpin t i) := by
  generalize same : s.unpin t i = r
  have entries : ∀ j, r.entries j = if j = i then (s.entries i).leave else s.entries j := by
    simp [← same, State.unpin]
  have calls : ∀ u, r.calls u = if u = t then .out else s.calls u := by simp [← same, State.unpin]
  have scans : ∀ u, r.scans u = s.scans u := by simp [← same, State.unpin]
  have now : (r.calls t).place = .out := by simp [calls, Call.place]
  have moved := State.inside_change t (fun u other => by simp [calls, other]) fun u _ => scans u
  obtain ⟨count, used, scanned, freeing, freer, unique, ranged⟩ := inv
  unfold Entry.leave at entries
  refine ⟨?_, ?_, ?_, ?_, ?_, ?_, ?_⟩
  all_goals grind

/-- A task starts to destroy a slot that nobody is inside. -/
theorem Counted.free {stage : FreeStage} (inv : Counted s) (out : s.calls t = .out)
    (accepts : (s.entries i).Accepts (s.entries i).generation) (quiet : (s.entries i).activeOps = 0) :
    Counted ((s.setEntry i { s.entries i with destroying := true }).setCall t
      (.free i (s.entries i).generation stage)) := by
  generalize same : (s.setEntry i { s.entries i with destroying := true }).setCall t
      (.free i (s.entries i).generation stage) = r
  have entries : ∀ j, r.entries j = if j = i then { s.entries i with destroying := true }
    else s.entries j := by simp [← same]
  have calls : ∀ u, r.calls u = if u = t then .free i (s.entries i).generation stage else s.calls u := by
    simp [← same]
  have scans : ∀ u, r.scans u = s.scans u := by simp [← same]
  have was : (s.calls t).place = .out := by simp [out, Call.place]
  have now : (r.calls t).place = .freeing i (s.entries i).generation := by simp [calls, Call.place]
  have moved := State.inside_change t (fun u other => by simp [calls, other]) fun u _ => scans u
  obtain ⟨count, used, scanned, freeing, freer, unique, ranged⟩ := inv
  obtain ⟨isUsed, _, kept⟩ := accepts
  refine ⟨?_, ?_, ?_, ?_, ?_, ?_, ?_⟩
  all_goals grind

/-- The end of `pool_free`. -/
theorem Counted.finish {generation : Nat} {stage : FreeStage} (inv : Counted s)
    (inside : (s.calls t).place = .freeing i generation) :
    Counted (s.finish t i generation stage) := by
  generalize same : s.finish t i generation stage = r
  have entries : ∃ used, (used = true → (s.entries i).used = true) ∧ ∀ j, r.entries j =
      if j = i then { s.entries i with used := used, destroying := false } else s.entries j := by
    refine ⟨if stage = .failing ∨ (s.entries i).used = false ∨ (s.entries i).generation ≠ generation
      then (s.entries i).used else false, ?_, fun j => by rw [← same]; rfl⟩
    intro kept
    split at kept
    · exact kept
    · cases kept
  have calls : ∀ u, r.calls u = if u = t then .out else s.calls u := by simp [← same, State.finish]
  have scans : ∀ u, r.scans u = s.scans u := by simp [← same, State.finish]
  have now : (r.calls t).place = .out := by simp [calls, Call.place]
  have moved := State.inside_change t (fun u other => by simp [calls, other]) fun u _ => scans u
  have tasks : ∀ u, (s.calls u).place = .inside i → 0 < s.inside i := fun u => State.inside_pos
  have reapers : ∀ u, (s.scans u).holds i = true → 0 < s.inside i := fun u => State.inside_pos_scan
  obtain ⟨count, used, scanned, freeing, freer, unique, ranged⟩ := inv
  refine ⟨?_, ?_, ?_, ?_, ?_, ?_, ?_⟩
  all_goals grind

theorem nextGeneration_range (generation : Nat) :
    0 < nextGeneration generation ∧ nextGeneration generation ≤ generationMax := by
  unfold nextGeneration generationMax
  dsimp only
  split
  · omega
  · omega

/-- An unused slot is given out with nobody inside. -/
theorem Counted.alloc {value : Nat} (inv : Counted s) (unused : (s.entries i).used = false) :
    Counted (s.setEntry i (.fresh (nextGeneration (s.entries i).generation) value)) := by
  generalize same : s.setEntry i (.fresh (nextGeneration (s.entries i).generation) value) = r
  have entries : ∀ j, r.entries j = if j = i then
    .fresh (nextGeneration (s.entries i).generation) value else s.entries j := by simp [← same]
  have calls : ∀ u, r.calls u = s.calls u := by simp [← same]
  have scans : ∀ u, r.scans u = s.scans u := by simp [← same]
  have inside : ∀ j, r.inside j = s.inside j := fun j =>
    State.inside_congr (fun u => by rw [calls]) (fun u => by rw [scans])
  have range := nextGeneration_range (s.entries i).generation
  obtain ⟨count, used, scanned, freeing, freer, unique, ranged⟩ := inv
  have empty : s.inside i = 0 := by
    have tasks : tally (fun u => (s.calls u).pins i) = 0 := by
      refine tally_eq_zero.mpr fun u => ?_
      exact decide_eq_false fun inside => by simp [used u i inside] at unused
    have reapers : tally (fun u => (s.scans u).holds i) = 0 := by
      refine tally_eq_zero.mpr fun u => ?_
      exact Bool.eq_false_iff.mpr fun inside => by simp [scanned u i inside] at unused
    simp [State.inside, tasks, reapers]
  unfold Entry.fresh at entries
  refine ⟨?_, ?_, ?_, ?_, ?_, ?_, ?_⟩
  all_goals grind

/-- A scan enters a slot that nobody destroys. -/
theorem Counted.scan (inv : Counted s) (idle : (s.scans t).phase = .next)
    (used : (s.entries i).used = true) (kept : (s.entries i).destroying = false) :
    Counted ((s.setEntry i (s.entries i).enter).setScan t ⟨i.val, .pinned⟩) := by
  generalize same : (s.setEntry i (s.entries i).enter).setScan t ⟨i.val, .pinned⟩ = r
  have entries : ∀ j, r.entries j = if j = i then (s.entries i).enter else s.entries j := by
    simp [← same]
  have calls : ∀ u, r.calls u = s.calls u := by simp [← same]
  have scans : ∀ u, r.scans u = if u = t then ⟨i.val, .pinned⟩ else s.scans u := by simp [← same]
  have was : ∀ j, (s.scans t).holds j = false := fun j => by simp [Scan.holds, idle]
  have now : ∀ j, (r.scans t).holds j = decide (j = i) := fun j => by
    simp [scans, Scan.holds, Fin.ext_iff, eq_comm]
  have moved := State.inside_change t (fun u _ => calls u) fun u other => by simp [scans, other]
  have bound := s.inside_le i
  obtain ⟨count, isUsed, scanned, freeing, freer, unique, ranged⟩ := inv
  unfold Entry.enter at entries
  refine ⟨?_, ?_, ?_, ?_, ?_, ?_, ?_⟩
  all_goals grind

/-- A scan leaves a slot. -/
theorem Counted.unscan (index : Nat) (inv : Counted s) (inside : (s.scans t).holds i = true) :
    Counted ((s.setEntry i { s.entries i with activeOps := (s.entries i).activeOps - 1 }).setScan t
      ⟨index, .next⟩) := by
  generalize same : (s.setEntry i
    { s.entries i with activeOps := (s.entries i).activeOps - 1 }).setScan t ⟨index, .next⟩ = r
  have entries : ∀ j, r.entries j = if j = i then
      { s.entries i with activeOps := (s.entries i).activeOps - 1 } else s.entries j := by
    simp [← same]
  have calls : ∀ u, r.calls u = s.calls u := by simp [← same]
  have scans : ∀ u, r.scans u = if u = t then ⟨index, .next⟩ else s.scans u := by simp [← same]
  have was : ∀ j, j ≠ i → (s.scans t).holds j = false := by
    intro j other
    unfold Scan.holds at inside ⊢
    simp only [decide_eq_true_eq, decide_eq_false_iff_not] at inside ⊢
    rintro ⟨_, there⟩
    exact other (Fin.ext (there.symm.trans inside.2))
  have now : ∀ j, (r.scans t).holds j = false := fun j => by simp [scans, Scan.holds]
  have moved := State.inside_change t (fun u _ => calls u) fun u other => by simp [scans, other]
  obtain ⟨count, isUsed, scanned, freeing, freer, unique, ranged⟩ := inv
  refine ⟨?_, ?_, ?_, ?_, ?_, ?_, ?_⟩
  all_goals grind

theorem Entry.drop_eq {entry : Entry} (positive : 0 < entry.activeOps) (bound : entry.activeOps ≤ 64) :
    entry.drop = { entry with activeOps := entry.activeOps - 1 } := by
  have reduced : (entry.activeOps + (2 ^ 32 - 1)) % 2 ^ 32 = entry.activeOps - 1 := by omega
  rw [Entry.drop, reduced]

theorem Entry.leave_eq {entry : Entry} (positive : 0 < entry.activeOps) :
    entry.leave = { entry with activeOps := entry.activeOps - 1 } := if_pos positive

/-- The last section of a round: the pin of the scan goes, and with it that of a task that was queued. -/
theorem Counted.removed (kind : Kind) {detached : Bool} (inv : Counted s)
    (scan : s.scans t = ⟨i.val, .removed detached⟩)
    (pinned : (s.calls t).place = .inside i ↔ detached = true) :
    Counted (s.detach kind t i (.removed detached)) := by
  have inside : (s.scans t).holds i = true := by simp [scan, Scan.holds]
  have count := inv.count i (inv.scanned t i inside)
  have positive := State.inside_pos_scan inside
  have bound := s.inside_le i
  have scanned : (if kind = .mutex then (s.entries i).drop else (s.entries i).leave) =
      { s.entries i with activeOps := (s.entries i).activeOps - 1 } := by
    split
    · exact Entry.drop_eq (by omega) (by omega)
    · exact Entry.leave_eq (by omega)
  have left := inv.unscan (i.val + 1) inside
  unfold State.detach
  dsimp only
  rw [scanned]
  cases detached with
  | false => simpa using left
  | true =>
    have place := pinned.mpr rfl
    have after := left.unpin (t := t) (i := i) (by simpa using place)
    rw [if_pos ⟨rfl, place⟩]
    refine after.congr (fun u => by simp [State.unpin]) (fun j => ?_) (fun u j => rfl)
    by_cases same : j = i
    · simp [same, State.unpin, Entry.Alike.mk]
    · simp [same, State.unpin, Entry.Alike.mk]

end Counters

/-! Each change of the queues. -/

section Queues

variable {s r : State} {t : Slot} {i : Index}

theorem Queued.free (inv : Queued s)
    (outside : ∀ i, s.calls t ≠ .op i .waiting ∧ s.calls t ≠ .op i .parked) (i : Index) :
    t ∉ (s.entries i).waiters := by
  intro member
  rcases inv.joined i t member with waiting | parked
  · exact (outside i).1 waiting
  · exact (outside i).2 parked

/-- Tasks only leave queues. -/
theorem Queued.shrink (inv : Queued s) (sched : r.sched = s.sched) (calls : r.calls = s.calls)
    (fewer : ∀ i, List.Sublist (r.entries i).waiters (s.entries i).waiters) : Queued r := by
  obtain ⟨known, killable, seated, users, joined, distinct, held⟩ := inv
  refine ⟨by rwa [sched], by rwa [sched], by rwa [sched], by rwa [sched, calls], ?_, ?_, ?_⟩
  · intro i t member
    rw [calls]
    exact joined i t ((fewer i).subset member)
  · exact fun i => (distinct i).sublist (fewer i)
  · intro i t member
    rw [calls, sched]
    exact held i t ((fewer i).subset member)

theorem Edited.sublist (edited : Edited s r i) (j : Index) :
    List.Sublist (r.entries j).waiters (s.entries j).waiters := by
  by_cases same : j = i
  · rw [same]
    exact edited.fewer
  · rw [edited.others j same]

theorem Queued.edit (inv : Queued s) (edited : Edited s r i) : Queued r :=
  inv.shrink edited.sched edited.calls edited.sublist

theorem Queued.setEntry {entry : Entry} (inv : Queued s)
    (fewer : List.Sublist entry.waiters (s.entries i).waiters) : Queued (s.setEntry i entry) := by
  refine inv.shrink rfl rfl fun j => ?_
  by_cases same : j = i
  · simpa [same] using fewer
  · simp [same]

/-- One task moves, and may join a queue. -/
theorem Queued.move (inv : Queued s) (sched : r.sched = s.sched)
    (others : ∀ u, u ≠ t → r.calls u = s.calls u)
    (large : r.calls t ≠ .out → 4 ≤ (s.sched.tasks t).id)
    (fewer : ∀ j u, u ∈ (r.entries j).waiters → u ≠ t → u ∈ (s.entries j).waiters)
    (own : ∀ j, t ∈ (r.entries j).waiters → r.calls t = .op j .waiting ∨
      r.calls t = .op j .parked ∧ (s.sched.tasks t).Held)
    (distinct : ∀ j, (r.entries j).waiters.Nodup) : Queued r := by
  obtain ⟨known, killable, seated, users, joined, -, held⟩ := inv
  refine ⟨by rwa [sched], by rwa [sched], by rwa [sched], ?_, ?_, distinct, ?_⟩
  · intro u busy
    rw [sched]
    by_cases same : u = t
    · exact same ▸ large (same ▸ busy)
    · exact users u (others u same ▸ busy)
  · intro j u member
    by_cases same : u = t
    · subst same
      exact (own j member).imp_right And.left
    · rw [others u same]
      exact joined j u (fewer j u member same)
  · intro j u member parked
    rw [sched]
    by_cases same : u = t
    · subst same
      rcases own j member with waiting | ⟨-, blocked⟩
      · cases waiting.symm.trans parked
      · exact blocked
    · exact held j u (fewer j u member same) (others u same ▸ parked)

theorem Queued.setCall {call : Call} (inv : Queued s) (free : ∀ i, t ∉ (s.entries i).waiters)
    (large : call ≠ .out → 4 ≤ (s.sched.tasks t).id) : Queued (s.setCall t call) :=
  inv.move (t := t) rfl (fun u other => by simp [other]) (by simpa using large)
    (fun _ _ member _ => member) (fun j member => absurd member (free j)) inv.distinct

theorem Queued.join (inv : Queued s) (outside : ∀ i, t ∉ (s.entries i).waiters)
    (large : 4 ≤ (s.sched.tasks t).id) :
    Queued ((s.setEntry i
      { s.entries i with waiters := (s.entries i).waiters ++ [t] }).setCall t (.op i .waiting)) := by
  refine inv.move (t := t) rfl (fun u other => by simp [other]) (fun _ => large) ?_ ?_ ?_
  · intro j u member other
    by_cases same : j = i
    · simpa [same, other] using member
    · simpa [same] using member
  · intro j member
    by_cases same : j = i
    · simp [same]
    · exact absurd (by simpa [same] using member) (outside j)
  · intro j
    by_cases same : j = i
    · subst same
      simpa using List.nodup_append.mpr ⟨inv.distinct j, List.nodup_singleton t, by
        rintro u member v here rfl
        exact outside j (List.mem_singleton.mp here ▸ member)⟩
    · simpa [same] using inv.distinct j

/-- A step of the scheduler that wakes nobody on a queue and clears nobody inside a call. -/
theorem Queued.perform {sched : Sched.State} (event : Sched.Label) (inv : Queued s)
    (taken : Sched.perform s.sched event = some sched)
    (acts : ∀ cpu, event.ender = some cpu → ¬ (s.sched.tasks (s.current cpu)).Held)
    (clears : ∀ u, event = .clear u → s.calls u = .out)
    (wakes : ∀ u, Sched.Wakes s.sched event u → ¬ s.Linked u) : Queued { s with sched := sched } := by
  have user := fun u large stays => Sched.user_of_perform (u := u) inv.known inv.killable large taken
    stays fun cpu ends same => same ▸ acts cpu ends
  obtain ⟨known, killable, seated, users, joined, distinct, held⟩ := inv
  have stays : ∀ u, s.calls u ≠ .out → event ≠ .clear u := fun u busy same => busy (clears u same)
  refine ⟨known.perform taken, killable.perform taken, seated.perform known taken, ?_, joined,
    distinct, ?_⟩
  · intro u busy
    rw [(user u (users u busy) (stays u busy)).1]
    exact users u busy
  · intro i u member parked
    have here : s.calls u = .op i .parked := parked
    have busy : s.calls u ≠ .out := by simp [here]
    exact ((user u (users u busy) (stays u busy)).2.1 (held i u member parked)).resolve_right
      fun woken => wakes u woken ⟨i, member⟩

/-- A task that is still on its queue goes on to be parked. -/
theorem Queued.setParked (inv : Queued s) (waiting : s.calls t = .op i .waiting)
    (blocked : (s.sched.tasks t).Held) : Queued (s.setCall t (.op i .parked)) := by
  refine inv.move (t := t) rfl (fun u other => by simp [other])
    (fun _ => inv.users t (by simp [waiting])) (fun _ _ member _ => member) ?_ inv.distinct
  intro j member
  have here : i = j := by simpa [waiting] using inv.joined j t member
  exact Or.inr ⟨by simp [here], blocked⟩

theorem Queued.park {cpu : Cpu} (inv : Queued s) (waiting : s.calls (s.current cpu) = .op i .waiting)
    (orderly : Orderly s (.park cpu)) : Queued (s.park (s.current cpu) i) := by
  have after : Queued { s with sched := (s.sched.park (s.current cpu)).2 } :=
    inv.perform (.park cpu) rfl nofun nofun fun u woken => woken.elim
  unfold State.park
  cases result : s.sched.park (s.current cpu) with
  | mk blocked sched =>
    rw [result] at after
    cases blocked with
    | true => exact after.setParked waiting (Or.inl (Sched.State.park_blocked result))
    | false =>
      refine after.setCall ?_ fun _ => after.users _ (by simp [waiting])
      intro j member
      have blocks := orderly ⟨j, member⟩
      rw [result] at blocks
      cases blocks

end Queues

/-! Each change of the scans. -/

section Scans

variable {s r : State} {t : Slot} {i : Index}

/-- What executing tasks do leaves the scans of killed ones alone. -/
theorem Scanned.congr (inv : Scanned s)
    (reaping : ∀ t, (r.sched.tasks t).state = .reaping ↔ (s.sched.tasks t).state = .reaping)
    (scans : r.scans = s.scans)
    (calls : ∀ t, (s.sched.tasks t).state = .reaping → r.calls t = s.calls t)
    (fewer : ∀ t i, (s.sched.tasks t).state = .reaping → t ∈ (r.entries i).waiters →
      t ∈ (s.entries i).waiters) : Scanned r := by
  obtain ⟨scanning, passed, removed⟩ := inv
  constructor
  · intro t
    rw [scans, reaping]
    exact scanning t
  · intro t i reaps
    have before := (reaping t).mp reaps
    rw [scans, calls t before]
    exact passed t i before
  · intro t i detached
    rw [scans]
    intro scan
    have before := (scanning t (by simp [scan])).1
    obtain ⟨pin, free, left⟩ := removed t i detached scan
    rw [calls t before]
    exact ⟨pin, free, fun member => left (fewer t i before member)⟩

theorem Scanned.edit (inv : Scanned s) (edited : Edited s r i) : Scanned r :=
  inv.congr (fun t => by rw [edited.sched]) edited.scans (fun t _ => by rw [edited.calls])
    fun t j _ member => (edited.sublist j).subset member

theorem Scanned.setCall {call : Call} (inv : Scanned s) (live : (s.sched.tasks t).state ≠ .reaping) :
    Scanned (s.setCall t call) := by
  refine inv.congr (fun u => Iff.rfl) rfl (fun u reaps => ?_) fun u j _ => id
  have other : u ≠ t := fun same => live (same ▸ reaps)
  simp [other]

theorem Scanned.setEntry {entry : Entry} (inv : Scanned s)
    (fewer : List.Sublist entry.waiters (s.entries i).waiters) : Scanned (s.setEntry i entry) := by
  refine inv.congr (fun u => Iff.rfl) rfl (fun u _ => rfl) fun u j _ member => ?_
  by_cases same : j = i
  · subst same
    exact fewer.subset (by simpa using member)
  · simpa [same] using member

theorem Scanned.setScan {scan : Scan} (inv : Scanned s)
    (reaping : scan.phase ≠ .next → (s.sched.tasks t).state = .reaping ∧ scan.index < 64)
    (passed : ∀ i : Index, (s.sched.tasks t).state = .reaping → i.val < scan.index →
      (s.calls t).slot ≠ some i)
    (removed : ∀ (i : Index) detached, scan = ⟨i.val, .removed detached⟩ →
      ((s.calls t).place = .inside i ↔ detached = true) ∧
        (∀ generation, (s.calls t).place ≠ .freeing i generation) ∧ t ∉ (s.entries i).waiters) :
    Scanned (s.setScan t scan) := by
  constructor
  · intro u
    rw [State.setScan_scans]
    split
    · rename_i same
      exact same ▸ reaping
    · exact inv.reaping u
  · intro u j
    rw [State.setScan_scans]
    split
    · rename_i same
      exact same ▸ passed j
    · exact inv.passed u j
  · intro u j detached
    rw [State.setScan_scans]
    split
    · rename_i same
      exact same ▸ removed j detached
    · exact inv.removed u j detached

theorem Call.slot_eq_some {call : Call} :
    call.slot = some i ↔ call.place = .inside i ∨ ∃ generation, call.place = .freeing i generation := by
  cases call <;> simp [Call.slot, Call.place]

/-- The scan goes on to the next slot once the task has no call on this one. -/
theorem Scanned.advance (inv : Scanned s) (turn : (s.scans t).index = i.val)
    (ended : (s.calls t).slot ≠ some i) : Scanned (s.setScan t ⟨i.val + 1, .next⟩) := by
  refine inv.setScan (fun inside => absurd rfl inside) ?_ nofun
  intro j reaps before
  by_cases same : j = i
  · rwa [same]
  · refine inv.passed t j reaps ?_
    have other : j.val ≠ i.val := fun eq => same (Fin.ext eq)
    simp only at before
    omega

end Scans

end OsArmv8a.Pool
