import OsArmv8a.Lib.Transition
import OsArmv8a.SchedSpec

/-! Which task `sched_pick_next_locked` picks. A CPU takes the first `READY` task of its own queue.
With none there it looks into one other queue only, the longest, and the length counts entries that
are no longer `READY`. -/

set_option autoImplicit false

namespace OsArmv8a.Sched

namespace RunQueues

variable {ready : Slot → Bool} {rq : RunQueues} {cpu : Cpu}

theorem popReady_find (ready : Slot → Bool) (cpu : Cpu) (fuel : Nat) : ∀ {rq : RunQueues},
    (rq.queue cpu).length < fuel →
    (popReady ready cpu fuel rq).1 = (rq.queue cpu).find? ready ∧
      (∀ c, c ≠ cpu → (popReady ready cpu fuel rq).2.queue c = rq.queue c) ∧
      ((rq.queue cpu).find? ready = none → (popReady ready cpu fuel rq).2.queue cpu = []) := by
  induction fuel with
  | zero => intro rq short; exact absurd short (Nat.not_lt_zero _)
  | succ fuel ih =>
    intro rq short
    unfold popReady dequeue
    cases queue : rq.queue cpu with
    | nil => exact ⟨rfl, fun _ _ => rfl, fun _ => queue⟩
    | cons t rest =>
      have others : ∀ c, c ≠ cpu → ((rq.setQueue cpu rest).setOnRq t false).queue c = rq.queue c :=
        fun c apart => if_neg apart
      have own : ((rq.setQueue cpu rest).setOnRq t false).queue cpu = rest := if_pos rfl
      rw [queue, List.length_cons] at short
      by_cases chosen : ready t = true
      · simp only [chosen, if_true, List.find?_cons_of_pos]
        exact ⟨trivial, others, fun none => absurd none (Option.some_ne_none t)⟩
      · obtain ⟨found, kept, emptied⟩ :=
          @ih ((rq.setQueue cpu rest).setOnRq t false) (by rw [own]; omega)
        simp only [chosen, if_false, Bool.false_eq_true]
        rw [own] at found emptied
        rw [List.find?_cons_of_neg (by simp [chosen])]
        exact ⟨found, fun c apart => (kept c apart).trans (others c apart), emptied⟩

/-- The queue an idle CPU looks into: the longest of the others, the lowest-numbered of these. -/
def Longest (rq : RunQueues) (cpu c : Cpu) : Prop :=
  c ≠ cpu ∧ ∀ d, d ≠ cpu → (rq.queue d).length ≤ (rq.queue c).length ∧
    (d < c → (rq.queue d).length < (rq.queue c).length)

theorem longest_unique {c d : Cpu} (first : Longest rq cpu c) (second : Longest rq cpu d) : c = d := by
  obtain ⟨apartC, mostC⟩ := first
  obtain ⟨apartD, mostD⟩ := second
  rcases lt_trichotomy c d with less | same | more
  · have longer := (mostD c apartC).2 less
    have most := (mostC d apartD).1
    omega
  · exact same
  · have longer := (mostC d apartD).2 more
    have most := (mostD c apartC).1
    omega

/-- The search for the longest queue: nothing is longer than the result, and everything met before
it is shorter. -/
theorem foldl_longest (rq : RunQueues) (l : List Cpu) : ∀ (start : Cpu),
    let best := l.foldl (fun busiest other =>
      if (rq.queue busiest).length < (rq.queue other).length then other else busiest) start
    (∀ d ∈ start :: l, (rq.queue d).length ≤ (rq.queue best).length) ∧
      (best = start ∨ ∃ front back, l = front ++ best :: back ∧
        ∀ d ∈ start :: front, (rq.queue d).length < (rq.queue best).length) := by
  induction l with
  | nil => intro start; exact ⟨by simp, Or.inl rfl⟩
  | cons first rest ih =>
    intro start
    simp only [List.foldl_cons]
    split
    · rename_i longer
      obtain ⟨most, position⟩ := ih first
      have head := most first List.mem_cons_self
      refine ⟨?_, Or.inr ?_⟩
      · intro d member
        rcases List.mem_cons.mp member with rfl | later
        · omega
        · exact most d later
      · rcases position with same | ⟨front, back, split, before⟩
        · refine ⟨[], rest, by rw [same]; rfl, ?_⟩
          intro d member
          rw [List.mem_singleton.mp member, same]
          exact longer
        · refine ⟨first :: front, back, by rw [List.cons_append, ← split], ?_⟩
          intro d member
          rcases List.mem_cons.mp member with rfl | later
          · omega
          · exact before d later
    · obtain ⟨most, position⟩ := ih start
      have head := most start List.mem_cons_self
      refine ⟨?_, ?_⟩
      · intro d member
        rcases List.mem_cons.mp member with rfl | later
        · exact head
        · rcases List.mem_cons.mp later with rfl | last
          · omega
          · exact most d (List.mem_cons_of_mem _ last)
      · rcases position with same | ⟨front, back, split, before⟩
        · exact Or.inl same
        · refine Or.inr ⟨first :: front, back, by rw [List.cons_append, ← split], ?_⟩
          have most := before start List.mem_cons_self
          intro d member
          rcases List.mem_cons.mp member with rfl | later
          · exact most
          · rcases List.mem_cons.mp later with rfl | last
            · omega
            · exact before d (List.mem_cons_of_mem _ last)

theorem busiest_longest (idle : rq.queue cpu = []) :
    rq.busiest cpu = cpu ∧ (∀ d, rq.queue d = []) ∨ Longest rq cpu (rq.busiest cpu) := by
  obtain ⟨most, position⟩ := foldl_longest rq [0, 1, 2, 3] cpu
  change (∀ d ∈ _, _ ≤ (rq.queue (rq.busiest cpu)).length) at most
  change rq.busiest cpu = cpu ∨ ∃ front back, _ = front ++ rq.busiest cpu :: back ∧
    ∀ d ∈ _, _ < (rq.queue (rq.busiest cpu)).length at position
  generalize rq.busiest cpu = best at *
  have listed : ∀ d : Cpu, d ∈ ([0, 1, 2, 3] : List Cpu) := by decide
  have all : ∀ d, d ∈ cpu :: [0, 1, 2, 3] := fun d => List.mem_cons_of_mem _ (listed d)
  rcases position with same | ⟨front, back, split, before⟩
  · refine Or.inl ⟨same, fun d => ?_⟩
    have bound := most d (all d)
    rw [same, idle] at bound
    exact List.length_eq_zero_iff.mp (Nat.le_zero.mp bound)
  · have longer := before cpu List.mem_cons_self
    refine Or.inr ⟨?_, fun d _ => ⟨most d (all d), fun less => ?_⟩⟩
    · rintro rfl
      exact Nat.lt_irrefl _ longer
    · have sorted : ([0, 1, 2, 3] : List Cpu).Pairwise (· < ·) := by decide
      have member := listed d
      rw [split] at sorted member
      refine before d (List.mem_cons_of_mem _ ?_)
      rcases List.mem_append.mp member with early | late
      · exact early
      · rcases List.mem_cons.mp late with rfl | later
        · exact absurd less (lt_irrefl d)
        · have after := (List.pairwise_cons.mp (List.pairwise_append.mp sorted).2.1).1 d later
          exact absurd less (not_lt_of_gt after)

theorem longest_congr {other : RunQueues} {c : Cpu} (more : Nat)
    (same : ∀ d, d ≠ cpu → (other.queue d).length = (rq.queue d).length + more)
    (longest : Longest other cpu c) : Longest rq cpu c := by
  obtain ⟨apart, most⟩ := longest
  refine ⟨apart, fun d away => ?_⟩
  have bound := most d away
  rw [same d away, same c apart] at bound
  exact ⟨by omega, fun less => by have shorter := bound.2 less; omega⟩

theorem longest_exists (rq : RunQueues) (cpu : Cpu) : ∃ c, Longest rq cpu c := by
  -- With one more entry on each of the others the search cannot stay at `cpu`.
  have padded := @busiest_longest
    { rq with queue := fun d => if d = cpu then [] else 0 :: rq.queue d } cpu (if_pos rfl)
  rcases padded with ⟨-, empty⟩ | longest
  · obtain ⟨d, apart⟩ := exists_ne cpu
    have none := empty d
    simp [apart] at none
  · exact ⟨_, longest_congr 1 (fun d apart => by simp [apart]) longest⟩

/-- Without a `READY` task of its own a CPU takes the first one of the longest other queue. -/
theorem pickNext_stolen {c : Cpu} (none : (rq.queue cpu).find? ready = none)
    (longest : Longest rq cpu c) : (pickNext ready rq cpu).1 = (rq.queue c).find? ready := by
  obtain ⟨found, others, emptied⟩ :=
    @popReady_find ready cpu ((rq.queue cpu).length + 1) rq (Nat.lt_succ_self _)
  have idle := emptied none
  rw [none] at found
  unfold pickNext
  generalize popReady ready cpu ((rq.queue cpu).length + 1) rq = popped at *
  obtain ⟨picked, rest⟩ := popped
  subst found
  dsimp only
  have own : rq.queue c = rest.queue c := (others c longest.1).symm
  rcases busiest_longest idle with ⟨same, empty⟩ | busiest
  · rw [if_pos (Or.inl same), own, empty c]
    rfl
  · have here : rest.busiest cpu = c :=
      longest_unique (longest_congr 0 (fun d apart => by rw [others d apart]; rfl) busiest) longest
    rw [here, own]
    by_cases empty : rest.queue c = []
    · rw [if_pos (Or.inr empty), empty]
      rfl
    · rw [if_neg (not_or.mpr ⟨longest.1, empty⟩)]
      obtain ⟨stolen, -, -⟩ :=
        @popReady_find ready c ((rest.queue c).length + 1) rest (Nat.lt_succ_self _)
      generalize popReady ready c ((rest.queue c).length + 1) rest = theft at *
      obtain ⟨taken, last⟩ := theft
      cases taken with
      | none => exact stolen
      | some t => exact stolen

theorem pickNext_own {t : Slot} (found : (rq.queue cpu).find? ready = some t) :
    (pickNext ready rq cpu).1 = some t := by
  obtain ⟨popped, -, -⟩ :=
    @popReady_find ready cpu ((rq.queue cpu).length + 1) rq (Nat.lt_succ_self _)
  rw [found] at popped
  unfold pickNext
  generalize popReady ready cpu ((rq.queue cpu).length + 1) rq = result at *
  obtain ⟨picked, rest⟩ := result
  subst popped
  rfl

end RunQueues

/-- The pick for `cpu` is null only if no `READY` task is queued anywhere; otherwise it is a `READY`
task, the first one of the CPU's own queue when there is one. -/
def State.WorkConserving (s : State) (cpu : Cpu) : Prop :=
  match (s.rq.pickNext (fun t => (s.tasks t).state = .ready) cpu).1 with
  | none => ∀ c, ∀ t ∈ s.rq.queue c, (s.tasks t).state ≠ .ready
  | some t => (s.tasks t).state = .ready ∧
      ∀ first, (s.rq.queue cpu).find? (fun u => (s.tasks u).state = .ready) = some first → t = first

/-- The queue holds a `READY` task. -/
def State.Runnable (s : State) (c : Cpu) : Prop := ∃ t ∈ s.rq.queue c, (s.tasks t).state = .ready

end OsArmv8a.Sched
