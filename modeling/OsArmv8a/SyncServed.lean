import OsArmv8a.SyncQueues

/-! The tasks whose wait a dequeue has ended, and what each operation makes of them. -/

set_option autoImplicit false

namespace OsArmv8a.Sync

open Intrusive

/-- The task is in a blocking call and has left the queue it had joined. -/
def State.Served (s : State) (t : Slot) (w : Wait) : Prop :=
  (s.pc t = .queued w ∨ s.pc t = .parked w) ∧ t ∉ s.members w.obj

section Served

variable {s r : State} {t u : Slot} {v w : Wait} {o : Obj}

theorem State.Served.congr (served : r.Served u v) (pc : r.pc = s.pc)
    (members : r.members = s.members) : s.Served u v := by
  unfold State.Served at *
  rwa [pc, members] at served

theorem State.Served.of_setPc {pc : Pc} (served : (s.setPc t pc).Served u v)
    (out : ∀ w, pc ≠ .queued w ∧ pc ≠ .parked w) : s.Served u v ∧ u ≠ t := by
  have pcs : (s.setPc t pc).pc u = if u = t then pc else s.pc u := rfl
  obtain ⟨inside, left⟩ := served
  rw [pcs] at inside
  by_cases same : u = t
  · rw [if_pos same] at inside
    rcases inside with queued | parked
    · exact absurd queued (out v).1
    · exact absurd parked (out v).2
  · rw [if_neg same] at inside
    exact ⟨⟨inside, left⟩, same⟩

theorem State.Served.of_returns (served : (s.returns t w).Served u v) : s.Served u v ∧ u ≠ t := by
  cases w with
  | mutex m =>
    have idle : (s.setPc t .idle).Served u v := served.congr rfl rfl
    exact idle.of_setPc (fun w => ⟨nofun, nofun⟩)
  | semaphore x =>
    have idle : (s.setPc t .idle).Served u v := served.congr rfl rfl
    exact idle.of_setPc (fun w => ⟨nofun, nofun⟩)
  | condvar d m => exact State.Served.of_setPc served (fun w => ⟨nofun, nofun⟩)
  | channel k capacity => exact State.Served.of_setPc served (fun w => ⟨nofun, nofun⟩)

theorem State.Served.of_join (served : (s.join t w).Served u v) : s.Served u v ∧ u ≠ t := by
  have pcs : (s.join t w).pc u = if u = t then .queued w else s.pc u := rfl
  have members : (s.join t w).members v.obj =
    Queues.put s.members w.obj (s.members w.obj ++ [t]) v.obj := rfl
  obtain ⟨inside, left⟩ := served
  rw [pcs] at inside
  rw [members] at left
  unfold Queues.put at left
  by_cases same : u = t
  · rw [if_pos same] at inside
    have sameWait : w = v := by simpa using inside
    rw [sameWait] at left
    simp [same] at left
  · rw [if_neg same] at inside
    refine ⟨⟨inside, fun member => left ?_⟩, same⟩
    split
    · rename_i here
      rw [← here]
      exact List.mem_append_left _ member
    · exact member

theorem State.Served.of_put {xs : List Slot} (served : r.Served u v) (pc : r.pc = s.pc)
    (members : r.members = Queues.put s.members o xs)
    (others : ∀ x ∈ s.members o, x ∉ xs → x = t) : s.Served u v ∨ u = t ∧ v.obj = o := by
  obtain ⟨inside, left⟩ := served
  rw [pc] at inside
  rw [members] at left
  unfold Queues.put at left
  by_cases here : v.obj = o
  · rw [if_pos here] at left
    by_cases member : u ∈ s.members v.obj
    · exact Or.inr ⟨others u (here ▸ member) left, here⟩
    · exact Or.inl ⟨inside, member⟩
  · rw [if_neg here] at left
    exact Or.inl ⟨inside, left⟩

theorem State.Served.of_leave {rest : List Slot} (served : (s.leave o t rest).Served u v)
    (first : s.members o = t :: rest) : s.Served u v ∨ u = t ∧ v.obj = o := by
  refine served.of_put rfl rfl ?_
  intro x member outside
  rw [first] at member
  exact (List.mem_cons.mp member).resolve_right outside

theorem State.Served.of_without {queues : Intrusive.Queues Obj Slot}
    (served : (s.without t o queues).Served u v) : s.Served u v ∨ u = t ∧ v.obj = o := by
  refine served.of_put rfl rfl ?_
  intro x member outside
  by_contra other
  exact outside ((List.mem_erase_of_ne other).mpr member)

theorem State.Served.of_parked (served : (s.setPc t (.parked w)).Served u v)
    (queued : s.pc t = .queued w) : s.Served u v := by
  have pcs : (s.setPc t (.parked w)).pc u = if u = t then .parked w else s.pc u := rfl
  obtain ⟨inside, left⟩ := served
  rw [pcs] at inside
  refine ⟨?_, left⟩
  by_cases same : u = t
  · rw [if_pos same] at inside
    rw [same, queued]
    exact Or.inl (by simpa using inside)
  · rwa [if_neg same] at inside

theorem State.Served.of_follow {sched : Sched.State} {event : Sched.Label}
    (served : (s.follow sched event).Served u v) : s.Served u v ∧ event ≠ .clear u := by
  obtain ⟨_, _, members⟩ := s.follow_queues sched event
  obtain ⟨inside, left⟩ := served
  rw [State.follow_pc] at inside
  rw [members] at left
  by_cases cleared : event = .clear u
  · rw [if_pos cleared] at inside
    simp at inside
  · rw [if_neg cleared] at inside
    exact ⟨⟨inside, left⟩, cleared⟩

/-- Served tasks are not idle ones. -/
theorem Linked.served_large (inv : Linked s) (served : s.Served u v) : 4 ≤ (s.sched.tasks u).id := by
  apply inv.users
  rcases served.1 with queued | parked
  · simp [queued]
  · simp [parked]

end Served

end OsArmv8a.Sync
