import OsArmv8a.PoolInvariant
import OsArmv8a.Lib.Transition

/-! Operation pins over whole runs: the counter of a slot is the number of operations and scans inside
it. -/

set_option autoImplicit false

namespace OsArmv8a.Pool

open Tally

/-! Each step keeps the pool in order. -/

section Steps

variable {kind : Kind} {s r : State} {t : Slot} {i : Index}

theorem Queued.setScan {scan : Scan} (inv : Queued s) : Queued (s.setScan t scan) :=
  inv.shrink rfl rfl fun _ => List.Sublist.refl _

theorem Counted.setScan {scan : Scan} (inv : Counted s)
    (same : ∀ i, scan.holds i = (s.scans t).holds i) : Counted (s.setScan t scan) := by
  refine inv.congr (fun u => rfl) (fun j => ⟨rfl, rfl, rfl, rfl⟩) fun u j => ?_
  by_cases here : u = t
  · simp [here, same]
  · simp [here]

theorem Counted.edit (inv : Counted s) (edited : Edited s r i) : Counted r := by
  refine inv.congr (fun u => by rw [edited.calls]) (fun j => ?_) fun u j => by rw [edited.scans]
  by_cases same : j = i
  · exact same ▸ edited.alike
  · rw [edited.others j same]
    exact ⟨rfl, rfl, rfl, rfl⟩

theorem Typed.edit (inv : Typed kind s) (edited : Edited s r i) : Typed kind r := by
  refine ⟨by rw [edited.calls]; exact inv.kinds, fun mutex j => ?_⟩
  by_cases same : j = i
  · exact same ▸ edited.guarded (inv.guarded mutex i)
  · rw [edited.others j same]
    exact inv.guarded mutex j

variable {call : Call}

theorem Typed.setCall (inv : Typed kind s)
    (same : ∀ i op, call = .op i (.pinned op) → op.kind = kind) : Typed kind (s.setCall t call) := by
  refine ⟨fun u j op pinned => ?_, inv.guarded⟩
  rw [State.setCall_calls] at pinned
  split at pinned
  · exact same j op pinned
  · exact inv.kinds u j op pinned

theorem Typed.setEntry {entry : Entry} (inv : Typed kind s) (guarded : kind = .mutex → entry.Guarded) :
    Typed kind (s.setEntry i entry) := by
  refine ⟨inv.kinds, fun mutex j => ?_⟩
  rw [State.setEntry_entries]
  split
  · exact guarded mutex
  · exact inv.guarded mutex j

theorem Sound.edit (inv : Sound kind s) (edited : Edited s r i) : Sound kind r :=
  ⟨inv.queued.edit edited, inv.counted.edit edited, inv.scanned.edit edited, inv.typed.edit edited⟩

/-- A call on a slot is on a used one. -/
theorem Counted.slot_used (inv : Counted s) (call : (s.calls t).slot = some i) :
    (s.entries i).used = true := by
  rcases Call.slot_eq_some.mp call with inside | ⟨generation, freeing⟩
  · exact inv.used t i inside
  · exact (inv.freeing t i generation freeing).1

/-- The scan enters the slot, unless it is unused. -/
theorem Sound.scan_next (inv : Sound kind s) (reaping : (s.sched.tasks t).state = .reaping)
    (turn : (s.scans t).index = i.val) (phase : (s.scans t).phase = .next)
    (kept : (s.entries i).used = true → (s.entries i).destroying = false) :
    Sound kind (s.detach kind t i .next) := by
  obtain ⟨queued, counted, scanned, typed⟩ := inv
  unfold State.detach
  dsimp only
  split
  · rename_i unused
    refine ⟨queued.setScan, counted.setScan ?_, scanned.advance turn ?_, typed.kinds, typed.guarded⟩
    · simp [Scan.holds, phase]
    · intro call
      simp [counted.slot_used call] at unused
  · rename_i used
    have isUsed := Bool.eq_true_of_not_eq_false used
    have queue : List.Sublist (s.entries i).enter.waiters (s.entries i).waiters := List.Sublist.refl _
    refine ⟨(queued.setEntry queue).setScan, counted.scan phase isUsed (kept isUsed), ?_, ?_⟩
    · refine (scanned.setEntry queue).setScan ?_ ?_ (by simp)
      · exact fun _ => ⟨reaping, i.isLt⟩
      · intro j reaps before
        exact scanned.passed t j reaps (turn ▸ before)
    · have guarded : kind = .mutex → (s.entries i).enter.Guarded := fun mutex => typed.guarded mutex i
      exact ⟨typed.kinds, (typed.setEntry guarded).guarded⟩

/-- The scan takes the task off the queue. -/
theorem Sound.scan_pinned (inv : Sound kind s) (reaping : (s.sched.tasks t).state = .reaping)
    (turn : (s.scans t).index = i.val) (phase : (s.scans t).phase = .pinned)
    (linked : (s.calls t).slot = some i → t ∈ (s.entries i).waiters) :
    Sound kind (s.detach kind t i .pinned) := by
  have member : t ∈ (s.entries i).waiters → (s.calls t).place = .inside i := by
    intro member
    rcases inv.queued.joined i t member with call | call
    · simp [call, Call.place]
    · simp [call, Call.place]
  have gone : t ∉ ((s.remove t i).entries i).waiters := by
    simpa [State.remove] using (inv.queued.distinct i).not_mem_erase
  unfold State.detach
  dsimp only
  generalize same : (if kind = .mutex ∧ ((s.remove t i).entries i).owner = some t then
    (s.remove t i).release i else s.remove t i) = after
  have edited : Edited s after i ∧ t ∉ (after.entries i).waiters := by
    rw [← same]
    split
    · have released := (s.remove t i).release_edited i
      exact ⟨(s.remove_edited t i).trans released, fun there => gone (released.fewer.subset there)⟩
    · exact ⟨s.remove_edited t i, gone⟩
  obtain ⟨edited, left⟩ := edited
  obtain ⟨queued, counted, scanned, typed⟩ := inv.edit edited
  refine ⟨queued.setScan, counted.setScan ?_, scanned.setScan ?_ ?_ ?_, typed.kinds, typed.guarded⟩
  · intro j
    simp [edited.scans, Scan.holds, phase, turn]
  · intro _
    rw [edited.sched]
    exact ⟨reaping, i.isLt⟩
  · intro j reaps before
    exact scanned.passed t j reaps (by rw [edited.scans, turn]; exact before)
  · intro j detached scan
    obtain ⟨index, rfl⟩ : i.val = j.val ∧ decide (t ∈ (s.entries i).waiters) = detached := by
      simpa using scan
    obtain rfl := Fin.ext index
    rw [edited.calls]
    refine ⟨?_, ?_, left⟩
    · rw [decide_eq_true_eq]
      exact ⟨fun inside => linked (Call.slot_eq_some.mpr (Or.inl inside)), member⟩
    · intro generation freeing
      have inside := member (linked (Call.slot_eq_some.mpr (Or.inr ⟨generation, freeing⟩)))
      simp [inside] at freeing

/-- The scan and the call of a task it has taken off a queue end together. -/
theorem Scanned.finish {index : Nat} (inv : Scanned s) :
    Scanned ((s.setScan t ⟨index, .next⟩).setCall t .out) := by
  obtain ⟨reaping, passed, removed⟩ := inv
  constructor
  · intro u
    by_cases same : u = t
    · simp [same]
    · simpa [same] using reaping u
  · intro u j
    by_cases same : u = t
    · simp [same, Call.slot]
    · simpa [same] using passed u j
  · intro u j detached
    by_cases same : u = t
    · simp [same]
    · simpa [same] using removed u j detached

/-- The scan leaves the slot. -/
theorem Sound.scan_removed {detached : Bool} (inv : Sound kind s)
    (scan : s.scans t = ⟨i.val, .removed detached⟩) :
    Sound kind (s.detach kind t i (.removed detached)) := by
  obtain ⟨queued, counted, scanned, typed⟩ := inv
  obtain ⟨pinned, free, left⟩ := scanned.removed t i detached scan
  have after := counted.removed kind scan pinned
  unfold State.detach at after ⊢
  dsimp only at after ⊢
  generalize same : (if detached = true then
    (if kind = .mutex then (s.entries i).drop else (s.entries i).leave).leave
    else if kind = .mutex then (s.entries i).drop else (s.entries i).leave) = entry at after ⊢
  have object : entry.waiters = (s.entries i).waiters ∧ entry.locked = (s.entries i).locked ∧
      entry.owner = (s.entries i).owner := by
    rw [← same]
    unfold Entry.leave Entry.drop
    repeat' split
    all_goals exact ⟨rfl, rfl, rfl⟩
  have queue : List.Sublist entry.waiters (s.entries i).waiters := by rw [object.1]
  have guarded : kind = .mutex → entry.Guarded := by
    unfold Entry.Guarded
    rw [object.1, object.2.1, object.2.2]
    exact fun mutex => typed.guarded mutex i
  have passed := scanned.setEntry queue
  have rest := typed.setEntry (i := i) guarded
  cases detached with
  | false =>
    refine ⟨(queued.setEntry queue).setScan, after, passed.advance (by simp [scan]) ?_, rest.kinds,
      rest.guarded⟩
    intro call
    rcases Call.slot_eq_some.mp call with inside | ⟨generation, freeing⟩
    · exact nomatch pinned.mp inside
    · exact free generation freeing
  | true =>
    have place := pinned.mpr rfl
    rw [if_pos ⟨rfl, place⟩] at after ⊢
    have ended : Typed kind ((s.setEntry i entry).setCall t .out) := rest.setCall nofun
    refine ⟨?_, after, passed.finish, ended.kinds, rest.guarded⟩
    refine (queued.setEntry queue).setScan.setCall ?_ (fun busy => absurd rfl busy)
    intro j member
    by_cases here : j = i
    · exact left (queue.subset (by simpa [here] using member))
    · have inside := queued.joined j t (by simpa [here] using member)
      rcases inside with call | call
      · simp [call, Call.place, here] at place
      · simp [call, Call.place, here] at place

theorem Sound.scan (inv : Sound kind s) (reaping : (s.sched.tasks t).state = .reaping)
    (turn : (s.scans t).index = i.val) (orderly : Orderly s (.scan t)) :
    Sound kind (s.detach kind t i (s.scans t).phase) := by
  have rule := orderly i turn
  cases phase : (s.scans t).phase with
  | next => exact inv.scan_next reaping turn phase (by simpa [phase] using rule)
  | pinned => exact inv.scan_pinned reaping turn phase (by simpa [phase] using rule)
  | removed detached =>
    refine inv.scan_removed ?_
    rw [← turn, ← phase]

variable {event : Sched.Label}

theorem State.Allows.acts {cpu : Cpu} (allows : s.Allows event) (ends : event.ender = some cpu) :
    s.Executes (s.current cpu) := by
  cases event <;> cases ends
  · exact allows.1
  · exact allows.1
  · exact allows.1

/-- A slot is cleared once the scan has ended all calls of its task. -/
theorem Sound.clear_out (inv : Sound kind s) (reaping : (s.sched.tasks t).state = .reaping)
    (scanned : 64 ≤ (s.scans t).index) : s.calls t = .out := by
  have passed : ∀ i, (s.calls t).slot ≠ some i := fun i =>
    inv.scanned.passed t i reaping (by have bound := i.isLt; omega)
  cases call : s.calls t with
  | out => rfl
  | op i stage => exact absurd (by simp [call, Call.slot]) (passed i)
  | free i generation stage => exact absurd (by simp [call, Call.slot]) (passed i)

theorem State.follow_eq (s : State) (sched : Sched.State) (event : Sched.Label)
    (clears : ∀ t, event = .clear t → s.calls t = .out) :
    ∃ scans, s.follow sched event = { s with sched := sched, scans := scans } ∧
      ∀ t, scans t = if event = .detach t then ⟨0, .next⟩ else s.scans t := by
  cases event with
  | detach t =>
    refine ⟨_, rfl, fun u => ?_⟩
    simp [eq_comm]
  | clear t =>
    have calls : (fun u => if u = t then Call.out else s.calls u) = s.calls := by
      funext u
      split
      · rename_i same
        rw [same, clears t rfl]
      · rfl
    exact ⟨s.scans, by simp [State.follow, State.setCall, calls], by simp⟩
  | _ => exact ⟨s.scans, rfl, by simp⟩

section

variable (inv : Sound kind s)

include inv

theorem Sound.follow {sched : Sched.State} (allows : s.Allows event)
    (orderly : Orderly s (.sched event)) (taken : Sched.perform s.sched event = some sched) :
    Sound kind (s.follow sched event) := by
  have clears : ∀ t, event = .clear t → s.calls t = .out := by
    rintro t rfl
    exact inv.clear_out (Option.ite_none_right_eq_some.mp taken).1 allows
  have queued := inv.queued.perform event taken (fun cpu ends => (allows.acts ends).not_held) clears orderly
  obtain ⟨scans, same, next⟩ := s.follow_eq sched event clears
  have user := fun u large stays => Sched.user_of_perform (u := u) inv.queued.known inv.queued.killable
    large taken stays fun cpu ends here => here ▸ (allows.acts ends).not_held
  have large : ∀ t, (s.sched.tasks t).state = .reaping → 4 ≤ (s.sched.tasks t).id :=
    fun t reaps => Nat.le_of_not_lt fun small => inv.queued.seated.kept t small reaps
  have idle : ∀ t, event = .detach t → (s.scans t).phase = .next := by
    rintro t rfl
    by_contra inside
    have dead := (Option.ite_none_right_eq_some.mp taken).1.2.1
    simp [(inv.scanned.reaping t inside).1] at dead
  have going : ∀ t, (s.scans t).phase ≠ .next → event ≠ .clear t := by
    rintro t inside rfl
    have short := (inv.scanned.reaping t inside).2
    have long : 64 ≤ (s.scans t).index := allows
    omega
  rw [same]
  refine ⟨queued.shrink rfl rfl fun _ => List.Sublist.refl _, ?_, ?_, inv.typed.kinds, inv.typed.guarded⟩
  · refine inv.counted.congr (fun t => rfl) (fun i => ⟨rfl, rfl, rfl, rfl⟩) fun t i => ?_
    show (scans t).holds i = _
    rw [next]
    split
    · rename_i detached
      simp [Scan.holds, idle t detached]
    · rfl
  · constructor
    · intro t inside
      have scan : scans t = s.scans t := by
        rw [next]
        refine if_neg fun detached => inside ?_
        simp [next, detached]
      have inside : (s.scans t).phase ≠ .next := scan ▸ inside
      obtain ⟨reaps, short⟩ := inv.scanned.reaping t inside
      refine ⟨((user t (large t reaps) (going t inside)).2.2).mpr (Or.inl reaps), ?_⟩
      show (scans t).index < 64
      rwa [scan]
    · intro t i reaps before call
      have busy : s.calls t ≠ .out := fun out => by simp [out, Call.slot] at call
      have stays : event ≠ .clear t := fun cleared => busy (clears t cleared)
      have before : i.val < (scans t).index := before
      rw [next] at before
      split at before
      · exact absurd before (Nat.not_lt_zero _)
      · rename_i other
        have was := ((user t (inv.queued.users t busy) stays).2.2.mp reaps).resolve_right other
        exact inv.scanned.passed t i was before call
    · intro t i detached scan
      have scan : scans t = ⟨i.val, .removed detached⟩ := scan
      rw [next] at scan
      split at scan
      · simp at scan
      · exact inv.scanned.removed t i detached scan

/-- An executing task goes from one stage to the next without entering or leaving a slot. -/
theorem Sound.setCall (executes : s.Executes t) (outside : ∀ i, t ∉ (s.entries i).waiters)
    (place : call.place = (s.calls t).place) (busy : s.calls t ≠ .out)
    (unpinned : ∀ i op, call ≠ .op i (.pinned op)) : Sound kind (s.setCall t call) := by
  refine ⟨inv.queued.setCall outside fun _ => inv.queued.users t busy, ?_,
    inv.scanned.setCall executes.live, inv.typed.setCall fun i op same => absurd same (unpinned i op)⟩
  refine inv.counted.congr (fun u => ?_) (fun i => ⟨rfl, rfl, rfl, rfl⟩) fun u i => rfl
  by_cases same : u = t
  · simp [same, place]
  · simp [same]

/-- The call on the object is over. -/
theorem Sound.left {op : Op} (pinned : s.calls t = .op i (.pinned op)) (executes : s.Executes t)
    (edited : Edited s r i) : Sound kind (r.setCall t (.op i .leaving)) := by
  have after := inv.edit edited
  have call : r.calls t = .op i (.pinned op) := by rw [edited.calls, pinned]
  have going : r.Executes t := by
    unfold State.Executes
    rw [edited.sched]
    exact executes
  exact after.setCall going (after.queued.free fun j => by simp [call]) (by simp [call, Call.place])
    (by simp [call]) nofun

/-- An executing task enters or leaves a slot, or starts or ends its destruction. -/
theorem Sound.change {entry : Entry} (executes : s.Executes t)
    (outside : ∀ i, t ∉ (s.entries i).waiters) (large : 4 ≤ (s.sched.tasks t).id)
    (object : entry.waiters = (s.entries i).waiters ∧ entry.locked = (s.entries i).locked ∧
      entry.owner = (s.entries i).owner)
    (kinds : ∀ j op, call = .op j (.pinned op) → op.kind = kind)
    (counted : Counted ((s.setEntry i entry).setCall t call)) :
    Sound kind ((s.setEntry i entry).setCall t call) := by
  have queue : List.Sublist entry.waiters (s.entries i).waiters := by rw [object.1]
  have guarded : kind = .mutex → entry.Guarded := by
    unfold Entry.Guarded
    rw [object.1, object.2.1, object.2.2]
    exact fun mutex => inv.typed.guarded mutex i
  refine ⟨(inv.queued.setEntry queue).setCall ?_ fun _ => large, counted,
    (inv.scanned.setEntry queue).setCall executes.live, (inv.typed.setEntry guarded).setCall kinds⟩
  intro j member
  by_cases same : j = i
  · exact outside i (queue.subset (by simpa [same] using member))
  · exact outside j (by simpa [same] using member)

theorem Sound.join {op : Op} (pinned : s.calls t = .op i (.pinned op)) (executes : s.Executes t)
    (locked : op.kind = .mutex → (s.entries i).locked = true) :
    Sound kind ((s.setEntry i
      { s.entries i with waiters := (s.entries i).waiters ++ [t] }).setCall t (.op i .waiting)) := by
  have outside := inv.queued.free (t := t) fun j => by simp [pinned]
  refine ⟨inv.queued.join outside (inv.queued.users t (by simp [pinned])), ?_, ?_, ?_⟩
  · refine inv.counted.congr (fun u => ?_) (fun j => ?_) fun u j => rfl
    · by_cases same : u = t
      · simp [same, pinned, Call.place]
      · simp [same]
    · by_cases same : j = i
      · simp [same, Entry.Alike.mk]
      · simp [same, Entry.Alike.mk]
  · refine inv.scanned.congr (fun u => Iff.rfl) rfl (fun u reaps => ?_) fun u j reaps member => ?_
    · have other : u ≠ t := fun same => executes.live (same ▸ reaps)
      simp [other]
    · have other : u ≠ t := fun same => executes.live (same ▸ reaps)
      by_cases same : j = i
      · simpa [same, other] using member
      · simpa [same] using member
  · refine (inv.typed.setEntry fun mutex _ => ?_).setCall (by simp)
    exact locked ((inv.typed.kinds t i op pinned).trans mutex)

theorem Sound.park {cpu : Cpu} (waiting : s.calls (s.current cpu) = .op i .waiting)
    (executes : s.Executes (s.current cpu)) (orderly : Orderly s (.park cpu)) :
    Sound kind (s.park (s.current cpu) i) := by
  have queued := inv.queued.park waiting orderly
  have tasks := fun u => Sched.State.park_tasks (s := s.sched) (t := s.current cpu) (u := u)
  have result : ∃ stage, s.park (s.current cpu) i =
      { s with sched := (s.sched.park (s.current cpu)).2 }.setCall (s.current cpu) (.op i stage) ∧
      ∀ op, stage ≠ .pinned op := by
    unfold State.park
    split
    · rename_i sched parked
      exact ⟨.parked, by rw [parked], nofun⟩
    · rename_i sched parked
      exact ⟨.leaving, by rw [parked], nofun⟩
  obtain ⟨stage, same, unpinned⟩ := result
  rw [same] at queued ⊢
  refine ⟨queued, ?_, ?_, ?_⟩
  · refine inv.counted.congr (fun u => ?_) (fun j => ⟨rfl, rfl, rfl, rfl⟩) fun u j => rfl
    by_cases here : u = s.current cpu
    · simp [here, waiting, Call.place]
    · simp [here]
  · refine inv.scanned.congr (fun u => ?_) rfl (fun u reaps => ?_) fun u j _ => id
    · simp only [State.setCall_sched]
      grind
    · have other : u ≠ s.current cpu := fun here => executes.live (here ▸ reaps)
      simp [other]
  · refine ⟨fun u j op pinned => ?_, inv.typed.guarded⟩
    rw [State.setCall_calls] at pinned
    split at pinned
    · simp at pinned
      exact absurd pinned.2 (unpinned op)
    · exact inv.typed.kinds u j op pinned

theorem Sound.unpark (orderly : Orderly s (.unpark t)) : Sound kind (s.unpark t) := by
  have queued : Queued { s with sched := s.sched.unpark t } := by
    refine inv.queued.perform (.unpark t) rfl nofun nofun fun u woken => ?_
    obtain rfl : u = t := woken.1
    exact orderly woken
  have tasks := fun u => Sched.State.unpark_tasks (s := s.sched) (t := t) (u := u)
  refine ⟨queued.shrink rfl rfl fun _ => List.Sublist.refl _, ?_, ?_, inv.typed.kinds, inv.typed.guarded⟩
  · exact inv.counted.congr (fun u => rfl) (fun j => ⟨rfl, rfl, rfl, rfl⟩) fun u j => rfl
  · refine inv.scanned.congr (fun u => ?_) rfl (fun u _ => rfl) fun u j _ => id
    show ((s.sched.unpark t).tasks u).state = .reaping ↔ _
    grind

theorem Sound.step {label : Label} (orderly : Orderly s label) (taken : step kind s label = some r)
    : Sound kind r := by
  cases move taken with
  | same => exact inv
  | alloc i value unused =>
    refine ⟨inv.queued.setEntry (List.nil_sublist _), inv.counted.alloc unused,
      inv.scanned.setEntry (List.nil_sublist _), inv.typed.setEntry fun _ => ?_⟩
    simp [Entry.Guarded, Entry.fresh]
  | pin t i op enters accepts same =>
    obtain ⟨executes, out, large⟩ := enters
    refine inv.change executes (inv.queued.free fun j => by simp [out]) large ⟨rfl, rfl, rfl⟩ ?_
      (inv.counted.pin out accepts)
    intro j other pinned
    simp only [Call.op.injEq, Stage.pinned.injEq] at pinned
    exact pinned.2 ▸ same
  | left t i op pinned executes edited =>
    exact inv.left pinned executes edited
  | round i edited => exact inv.edit edited
  | join t i op pinned executes fresh locked => exact inv.join pinned executes locked
  | park cpu i waiting executes => exact inv.park waiting executes orderly
  | resume cpu i parked running =>
    refine inv.setCall (Or.inl running) ?_ (by simp [parked, Call.place]) (by simp [parked]) (by simp)
    intro j member
    have here : i = j := by simpa [parked] using inv.queued.joined j _ member
    have held := inv.queued.held j _ member (here ▸ parked)
    simp [Sched.Task.Held, running] at held
  | unpin t i leaving executes =>
    refine inv.change executes (inv.queued.free fun j => by simp [leaving])
      (inv.queued.users t (by simp [leaving])) ?_ (by simp)
      (inv.counted.unpin (by simp [leaving, Call.place]))
    unfold Entry.leave
    split
    · exact ⟨rfl, rfl, rfl⟩
    · exact ⟨rfl, rfl, rfl⟩
  | free t i enters accepts quiet =>
    obtain ⟨executes, out, large⟩ := enters
    exact inv.change executes (inv.queued.free fun j => by simp [out]) large ⟨rfl, rfl, rfl⟩ (by simp)
      (inv.counted.free out accepts quiet)
  | check t i generation before after freeing executes =>
    exact inv.setCall executes (inv.queued.free fun j => by simp [freeing])
      (by simp [freeing, Call.place]) (by simp [freeing]) (by simp)
  | finish t i generation stage freeing executes =>
    exact inv.change executes (inv.queued.free fun j => by simp [freeing])
      (inv.queued.users t (by simp [freeing])) ⟨rfl, rfl, rfl⟩ (by simp)
      (inv.counted.finish (by simp [freeing, Call.place]))
  | unpark t pending => exact inv.unpark orderly
  | scan t i reaping turn => exact inv.scan reaping turn orderly
  | follow event sched allows performed => exact inv.follow allows orderly performed

end

end Steps

theorem init_sound (kind : Kind) : Sound kind init := by
  refine ⟨⟨Sched.init_identified, Sched.init_killable, Sched.init_seated, ?_, ?_, ?_, ?_⟩,
    ⟨?_, ?_, ?_, ?_, ?_, ?_, ?_⟩, ⟨?_, ?_, ?_⟩, ⟨?_, ?_⟩⟩
  · exact fun t busy => absurd rfl busy
  · exact fun i t member => nomatch member
  · exact fun i => List.nodup_nil
  · exact fun i t member => nomatch member
  · exact fun i used => nomatch used
  · exact fun t i inside => nomatch inside
  · exact fun t i inside => nomatch inside
  · exact fun t i generation freeing => nomatch freeing
  · exact fun i destroying => nomatch destroying
  · exact fun t u i g h freeing => nomatch freeing
  · exact fun i used => nomatch used
  · exact fun t inside => absurd rfl inside
  · exact fun t i _ before => absurd before (Nat.not_lt_zero _)
  · exact fun t i detached scan => by simp [init] at scan
  · exact fun t i op pinned => nomatch pinned
  · exact fun _ i => by simp [Entry.Guarded, init]

section Frees

variable {kind : Kind} {s r : State} {i : Index}

theorem decode_makeHandle {generation : Nat} (positive : 0 < generation) :
    decode (makeHandle i generation) = some (i, generation) := by
  have bound := i.isLt
  have quotient : ((generation : Int) * 64 + i.val) / 64 = generation := by omega
  have remainder : ((generation : Int) * 64 + i.val) % 64 = i.val := by omega
  unfold decode makeHandle
  rw [if_neg (by omega), quotient, remainder]
  simp [positive.ne', Fin.ofNat, Nat.mod_eq_of_lt bound]

variable {j : Index}

theorem Edited.used (edited : Edited s r j) : (r.entries i).used = (s.entries i).used := by
  by_cases same : i = j
  · rw [same, edited.alike.used]
  · rw [edited.others i same]

theorem State.setEntry_used {entry : Entry} (kept : entry.used = (s.entries j).used) :
    ((s.setEntry j entry).entries i).used = (s.entries i).used := by
  by_cases same : i = j
  · simp [same, kept]
  · simp [same]

theorem Entry.leave_used (entry : Entry) : entry.leave.used = entry.used := by
  unfold Entry.leave
  split <;> rfl

/-- Scans give no slot up. -/
theorem State.detach_used {t : Slot} {phase : Phase} :
    ((s.detach kind t j phase).entries i).used = (s.entries i).used := by
  cases phase with
  | next =>
    unfold State.detach
    dsimp only
    split
    · rfl
    · exact State.setEntry_used rfl
  | pinned =>
    unfold State.detach
    dsimp only [State.setScan_entries]
    split
    · exact ((s.remove_edited t j).trans ((s.remove t j).release_edited j)).used
    · exact (s.remove_edited t j).used
  | removed detached =>
    have kept : (if detached = true then
        (if kind = .mutex then (s.entries j).drop else (s.entries j).leave).leave
        else if kind = .mutex then (s.entries j).drop else (s.entries j).leave).used =
          (s.entries j).used := by
      cases detached <;> by_cases mutex : kind = .mutex <;>
        simp [mutex, Entry.leave_used, Entry.drop]
    unfold State.detach
    dsimp only
    split
    · exact State.setEntry_used kept
    · exact State.setEntry_used kept

/-- Only `pool_free` gives a slot up. -/
theorem Move.used {label : Label} (moved : Move kind s label r) (used : (s.entries i).used = true)
    (freed : (r.entries i).used = false) : ∃ t generation, (s.calls t).place = .freeing i generation := by
  have kept : (r.entries i).used = (s.entries i).used →
      ∃ t generation, (s.calls t).place = .freeing i generation := by
    intro same
    rw [same, used] at freed
    cases freed
  cases moved with
  | same => exact kept rfl
  | alloc j value unused =>
    by_cases same : i = j
    · simp [same, Entry.fresh] at freed
    · exact kept (by simp [same])
  | pin t j op enters accepts same => exact kept (State.setEntry_used rfl)
  | left t j op pinned executes edited => exact kept edited.used
  | round j edited => exact kept edited.used
  | join t j op pinned executes fresh locked => exact kept (State.setEntry_used rfl)
  | park cpu j waiting executes =>
    refine kept ?_
    unfold State.park
    split <;> rfl
  | resume cpu j parked running => exact kept rfl
  | unpin t j leaving executes => exact kept (State.setEntry_used (Entry.leave_used _))
  | free t j enters accepts quiet => exact kept (State.setEntry_used rfl)
  | check t j generation before after freeing executes => exact kept rfl
  | finish t j generation stage freeing executes =>
    by_cases same : i = j
    · exact ⟨t, generation, by simp [freeing, Call.place, same]⟩
    · exact kept (by simp [State.finish, same])
  | unpark t pending => exact kept rfl
  | scan t j reaping turn => exact kept State.detach_used
  | follow event sched allows performed =>
    refine kept ?_
    cases event <;> rfl

/-- With nobody on the slot all three sections of `pool_free` succeed. -/
theorem Sound.freed {cpu : Cpu} (inv : Sound kind s) (used : (s.entries i).used = true)
    (unlocked : (s.entries i).locked = false) (empty : s.inside i = 0)
    (kept : ∀ t generation, (s.calls t).place ≠ .freeing i generation)
    (enters : s.Enters (s.current cpu)) :
    ∃ r, Transition.run (Pool.step kind) s
      [.free cpu (makeHandle i (s.entries i).generation), .check cpu, .finish cpu] = some r ∧
      (r.entries i).used = false := by
  obtain ⟨executes, out, large⟩ := enters
  have settled : (s.entries i).destroying = false := by
    refine Bool.eq_false_iff.mpr fun destroying => ?_
    obtain ⟨t, generation, freeing⟩ := inv.counted.freer i destroying
    exact kept t generation freeing
  have quiet : (s.entries i).activeOps = 0 := (inv.counted.count i used).trans empty
  have unqueued : (s.entries i).waiters = [] := by
    refine List.eq_nil_iff_forall_not_mem.mpr fun t member => ?_
    have inside : (s.calls t).place = .inside i := by
      rcases inv.queued.joined i t member with call | call
      · simp [call, Call.place]
      · simp [call, Call.place]
    have positive := State.inside_pos inside
    omega
  have idle : ¬ (s.entries i).Busy kind := by
    cases kind with
    | mutex =>
      have unowned : (s.entries i).owner = none := by
        by_contra owned
        have locked := inv.typed.guarded rfl i (Or.inr owned)
        simp [unlocked] at locked
      simp [Entry.Busy, unlocked, unowned, unqueued]
    | semaphore => simp [Entry.Busy, unqueued]
    | condvar => simp [Entry.Busy, unqueued]
  have positive := (inv.counted.ranged i used).1
  generalize generation : (s.entries i).generation = g at positive
  let first := (s.setEntry i { s.entries i with destroying := true }).setCall (s.current cpu)
    (.free i g .checking)
  let second := first.setCall (s.current cpu) (.free i g .closing)
  have started : Pool.step kind s (.free cpu (makeHandle i g)) = some first := by
    have accepts : (s.entries i).Accepts g ∧ (s.entries i).activeOps = 0 :=
      ⟨⟨used, generation, settled⟩, quiet⟩
    simp only [Pool.step]
    rw [if_pos (show s.Enters (s.current cpu) from ⟨executes, out, large⟩)]
    simp only [State.free, decode_makeHandle positive]
    rw [if_pos accepts]
  have checked : Pool.step kind first (.check cpu) = some second := by
    have calls : first.calls (first.current cpu) = .free i g .checking := if_pos rfl
    have object : (first.entries i).Busy kind ↔ (s.entries i).Busy kind := by
      cases kind <;> simp [first, Entry.Busy]
    simp only [Pool.step, calls]
    rw [if_pos (show first.Executes (first.current cpu) from executes)]
    simp only [State.check]
    rw [if_neg (object.not.mpr idle)]
    rfl
  have finished : Pool.step kind second (.finish cpu) =
      some (second.finish (s.current cpu) i g .closing) := by
    have calls : second.calls (second.current cpu) = .free i g .closing := if_pos rfl
    simp only [Pool.step, calls]
    rw [if_pos (show second.Executes (second.current cpu) from executes)]
    rfl
  refine ⟨second.finish (s.current cpu) i g .closing, ?_, ?_⟩
  · simp only [Transition.run, started, checked, finished, Option.bind_some]
  · simp [State.finish, second, first, used, generation]

end Frees

/-- The counter of a used slot is the number of operations and scans inside it. So no decrement finds
it too small, no step gives up a slot with somebody inside, and a slot that is unlocked and has
nobody on it can be freed with its handle. -/
theorem run_pins (kind : Kind) (s : State) (i : Index)
    (reached : Transition.Reachable (· = init) (step kind) Orderly s) :
    ((s.entries i).used = true → (s.entries i).activeOps = s.inside i) ∧
    (∀ t, s.calls t = .op i .leaving → 0 < (s.entries i).activeOps) ∧
    (∀ t detached, s.scans t = ⟨i.val, .removed detached⟩ →
      (if detached = true then 1 else 0) < (s.entries i).activeOps) ∧
    (∀ label r, step kind s label = some r → (s.entries i).used = true →
      (r.entries i).used = false → s.inside i = 0) ∧
    ∀ cpu, (s.entries i).used = true → (s.entries i).locked = false → s.inside i = 0 →
      (∀ t generation, (s.calls t).place ≠ .freeing i generation) → s.Enters (s.current cpu) →
      ∃ r, Transition.run (step kind) s
        [.free cpu (makeHandle i (s.entries i).generation), .check cpu, .finish cpu] = some r ∧
        (r.entries i).used = false := by
  have inv : Sound kind s := reached.invariant (fun s initial => initial ▸ init_sound kind)
    (fun s r label inv orderly taken => inv.step orderly taken)
  refine ⟨inv.counted.count i, ?_, ?_, ?_, ?_⟩
  · intro t leaving
    have inside : (s.calls t).place = .inside i := by simp [leaving, Call.place]
    rw [inv.counted.count i (inv.counted.used t i inside)]
    exact State.inside_pos inside
  · intro t detached scan
    have holds : (s.scans t).holds i = true := by simp [scan, Scan.holds]
    rw [inv.counted.count i (inv.counted.scanned t i holds)]
    split
    · rename_i queued
      exact State.inside_both ((inv.scanned.removed t i detached scan).1.mpr queued) holds
    · exact State.inside_pos_scan holds
  · intro label r taken used freed
    obtain ⟨t, generation, freeing⟩ := (move taken).used used freed
    exact (inv.counted.freeing t i generation freeing).2.2.2
  · intro cpu used unlocked empty kept enters
    exact inv.freed used unlocked empty kept enters

/-- Tasks 4, 5 and 6 on CPUs 0, 1 and 2. -/
def crew : List Label :=
  [.sched (.create false), .sched (.schedule 0), .sched (.create false), .sched (.schedule 1),
    .sched (.create false), .sched (.schedule 2)]

/-- Task 4 has locked the mutex in slot 0 and task 5 waits for it. -/
def contended : List Label :=
  crew ++ [.alloc 0 0, .pin 0 64 .lock, .act 0, .unpin 0, .pin 1 64 .lock, .act 1, .park 1,
    .sched (.schedule 1)]

/-- Task 5 is killed on the queue, and its scan of slot 0 has taken it off. -/
def reapedWaiter : List Label :=
  contended ++ [.sched (.kill 2 5), .sched (.detach 5), .scan 5, .scan 5]

theorem run_pins_reapedWaiter :
    ∃ s, Transition.run (step .mutex) init reapedWaiter = some s ∧ (s.entries 0).used = true ∧
    s.scans 5 = ⟨0, .removed true⟩ ∧ s.inside 0 = 2 ∧
    ((s.entries 0).used = true → (s.entries 0).activeOps = s.inside 0) ∧
    (∀ t, s.calls t = .op 0 .leaving → 0 < (s.entries 0).activeOps) ∧
    (∀ t detached, s.scans t = ⟨(0 : Index).val, .removed detached⟩ →
      (if detached = true then 1 else 0) < (s.entries 0).activeOps) ∧
    (∀ label r, step .mutex s label = some r → (s.entries 0).used = true →
      (r.entries 0).used = false → s.inside 0 = 0) ∧
    ∀ cpu, (s.entries 0).used = true → (s.entries 0).locked = false → s.inside 0 = 0 →
      (∀ t generation, (s.calls t).place ≠ .freeing 0 generation) → s.Enters (s.current cpu) →
      ∃ r, Transition.run (step .mutex) s
        [.free cpu (makeHandle 0 (s.entries 0).generation), .check cpu, .finish cpu] = some r ∧
        (r.entries 0).used = false := by
  have guarded : Transition.Guarded (step .mutex) Orderly init reapedWaiter := by decide +kernel
  refine Transition.ends_imp (Q := fun s => (s.entries 0).used = true ∧
    s.scans 5 = ⟨0, .removed true⟩ ∧ s.inside 0 = 2) (by decide +kernel) ?_
  rintro s ran ⟨used, scan, inside⟩
  exact ⟨used, scan, inside, run_pins .mutex s 0 (.of_run _ (.start rfl) guarded ran)⟩

/-- Task 4 has handed the mutex to task 5, which is killed before it runs again, and reaped. -/
def abandoned : List Label :=
  contended ++ [.pin 0 64 .unlock, .act 0, .unpin 0, .unpark 5, .sched (.kill 2 5),
    .sched (.detach 5)] ++ List.replicate 66 (.scan 5) ++ [.sched (.clear 5)]

/-- Task 4 has started to destroy slot 0 when the scan of the killed task 5 enters it, ends, and gets
the slot again for a new mutex. -/
def recycled : List Label :=
  crew ++ [.alloc 0 0, .sched (.kill 2 5), .sched (.schedule 1), .sched (.detach 5), .free 0 64,
    .scan 5, .check 0, .finish 0, .alloc 0 0, .scan 5, .scan 5]

/-- A pin is left for good on an unlocked mutex that nobody uses, which can no longer be freed; and the
counter of a new mutex wraps below 0. -/
theorem run_pins_abandoned :
    (∃ s, Transition.run (step .mutex) init abandoned = some s ∧ (s.entries 0).used = true ∧
      (s.entries 0).activeOps = 1 ∧ s.inside 0 = 0 ∧ (s.entries 0).locked = false ∧
      (step .mutex s (.free 0 64)).map (fun r => r.calls 4) = some .out) ∧
    ∃ s, Transition.run (step .mutex) init recycled = some s ∧ (s.entries 0).used = true ∧
      s.inside 0 = 0 ∧ (s.entries 0).activeOps = 2 ^ 32 - 1 := by
  decide +kernel

end OsArmv8a.Pool
