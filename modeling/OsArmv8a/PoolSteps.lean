import OsArmv8a.Pool
import OsArmv8a.SchedStep

/-! What a step does to the pool: the calls of one task, one slot, or one scan. -/

set_option autoImplicit false

namespace OsArmv8a.Pool

def Call.slot : Call → Option Index
  | .out => none
  | .op i _ | .free i _ _ => some i

/-- What the pool knows about a slot, its object apart. -/
structure Entry.Alike (before after : Entry) : Prop where
  used : after.used = before.used
  generation : after.generation = before.generation
  activeOps : after.activeOps = before.activeOps
  destroying : after.destroying = before.destroying

/-- A mutex with an owner or waiters is locked. -/
def Entry.Guarded (entry : Entry) : Prop :=
  entry.waiters ≠ [] ∨ entry.owner ≠ none → entry.locked = true

/-- Only the object of one slot has changed, and tasks have only left its queue. -/
structure Edited (s r : State) (i : Index) : Prop where
  sched : r.sched = s.sched
  calls : r.calls = s.calls
  scans : r.scans = s.scans
  others : ∀ j, j ≠ i → r.entries j = s.entries j
  alike : (s.entries i).Alike (r.entries i)
  fewer : List.Sublist (r.entries i).waiters (s.entries i).waiters
  guarded : (s.entries i).Guarded → (r.entries i).Guarded

section Fields

variable (s : State) (i j : Index) (entry : Entry) (t u : Slot) (call : Call) (scan : Scan)

@[simp] theorem State.setEntry_entries :
    (s.setEntry i entry).entries j = if j = i then entry else s.entries j := rfl

@[simp] theorem State.setEntry_calls : (s.setEntry i entry).calls = s.calls := rfl

@[simp] theorem State.setEntry_scans : (s.setEntry i entry).scans = s.scans := rfl

@[simp] theorem State.setEntry_sched : (s.setEntry i entry).sched = s.sched := rfl

@[simp] theorem State.setCall_entries : (s.setCall t call).entries = s.entries := rfl

@[simp] theorem State.setCall_calls :
    (s.setCall t call).calls u = if u = t then call else s.calls u := rfl

@[simp] theorem State.setCall_scans : (s.setCall t call).scans = s.scans := rfl

@[simp] theorem State.setCall_sched : (s.setCall t call).sched = s.sched := rfl

@[simp] theorem State.setScan_entries : (s.setScan t scan).entries = s.entries := rfl

@[simp] theorem State.setScan_calls : (s.setScan t scan).calls = s.calls := rfl

@[simp] theorem State.setScan_scans :
    (s.setScan t scan).scans u = if u = t then scan else s.scans u := rfl

@[simp] theorem State.setScan_sched : (s.setScan t scan).sched = s.sched := rfl

end Fields

section Edits

variable {s r : State} {t : Slot} {i : Index}

theorem Edited.rfl : Edited s s i :=
  ⟨Eq.refl _, Eq.refl _, Eq.refl _, fun _ _ => Eq.refl _, ⟨Eq.refl _, Eq.refl _, Eq.refl _, Eq.refl _⟩,
    List.Sublist.refl _, id⟩

theorem Edited.trans {q : State} (first : Edited s r i) (second : Edited r q i) : Edited s q i where
  sched := second.sched.trans first.sched
  calls := second.calls.trans first.calls
  scans := second.scans.trans first.scans
  others j other := (second.others j other).trans (first.others j other)
  alike := ⟨second.alike.used.trans first.alike.used,
    second.alike.generation.trans first.alike.generation,
    second.alike.activeOps.trans first.alike.activeOps,
    second.alike.destroying.trans first.alike.destroying⟩
  fewer := second.fewer.trans first.fewer
  guarded := second.guarded ∘ first.guarded

theorem Edited.of_entry {entry : Entry} (alike : (s.entries i).Alike entry)
    (fewer : List.Sublist entry.waiters (s.entries i).waiters)
    (guarded : (s.entries i).Guarded → entry.Guarded) : Edited s (s.setEntry i entry) i where
  sched := Eq.refl _
  calls := Eq.refl _
  scans := Eq.refl _
  others j other := if_neg other
  alike := by simpa using alike
  fewer := by simpa using fewer
  guarded := by simpa using guarded

theorem State.dequeue_cases (s : State) (i : Index) :
    (s.entries i).waiters = [] ∧ s.dequeue i = (none, s) ∨
      ∃ t rest, (s.entries i).waiters = t :: rest ∧ s.dequeue i =
        (some t, { s.setEntry i { s.entries i with waiters := rest } with wakes := s.wakes ++ [t] }) := by
  unfold State.dequeue
  cases list : (s.entries i).waiters with
  | nil => simp [list]
  | cons t rest => simp [list]

theorem State.dequeue_edited (s : State) (i : Index) : Edited s (s.dequeue i).2 i := by
  rcases s.dequeue_cases i with ⟨_, same⟩ | ⟨t, rest, first, same⟩
  · rw [same]
    exact .rfl
  · rw [same]
    have edited : Edited s (s.setEntry i { s.entries i with waiters := rest }) i := by
      refine .of_entry ⟨rfl, rfl, rfl, rfl⟩ ?_ ?_
      · rw [first]
        exact List.sublist_cons_self t rest
      · intro guarded _
        exact guarded (Or.inl (by simp [first]))
    exact edited.trans ⟨rfl, rfl, rfl, fun _ _ => rfl, ⟨rfl, rfl, rfl, rfl⟩, List.Sublist.refl _, id⟩

theorem State.release_edited (s : State) (i : Index) : Edited s (s.release i) i := by
  unfold State.release
  rcases s.dequeue_cases i with ⟨empty, same⟩ | ⟨t, rest, first, same⟩
  · rw [same]
    refine .of_entry ⟨rfl, rfl, rfl, rfl⟩ (List.Sublist.refl _) ?_
    simp [Entry.Guarded, empty]
  · rw [same]
    refine ⟨rfl, rfl, rfl, ?_, ⟨?_, ?_, ?_, ?_⟩, ?_, ?_⟩
    · intro j other
      simp [other]
    · simp
    · simp
    · simp
    · simp
    · simp [first]
    · intro guarded _
      have locked := guarded (Or.inl (by simp [first]))
      simpa using locked

theorem State.post_edited (s : State) (i : Index) : Edited s (s.post i) i := by
  have taken := s.dequeue_edited i
  unfold State.post
  rcases s.dequeue_cases i with ⟨_, same⟩ | ⟨t, rest, _, same⟩
  · rw [same]
    exact .of_entry ⟨rfl, rfl, rfl, rfl⟩ (List.Sublist.refl _) id
  · rw [same] at taken ⊢
    exact taken

theorem State.remove_edited (s : State) (t : Slot) (i : Index) : Edited s (s.remove t i) i := by
  refine .of_entry ⟨rfl, rfl, rfl, rfl⟩ List.erase_sublist ?_
  intro guarded busy
  refine guarded (busy.imp ?_ id)
  intro some none
  exact some (by simp [none])

/-- Joining a queue and leaving it again changes nothing. -/
theorem State.withdraw_edited (s : State) (fresh : t ∉ (s.entries i).waiters) :
    Edited s ((s.setEntry i
      { s.entries i with waiters := (s.entries i).waiters ++ [t] }).remove t i) i := by
  have back : ((s.entries i).waiters ++ [t]).erase t = (s.entries i).waiters := by
    simp [List.erase_append_right _ fresh]
  unfold State.remove
  refine ⟨rfl, rfl, rfl, ?_, ⟨?_, ?_, ?_, ?_⟩, ?_, ?_⟩
  · intro j other
    simp [other]
  · simp
  · simp
  · simp
  · simp
  · simp [back]
  · simp [Entry.Guarded, back]

end Edits

/-- The outcomes of a step. -/
inductive Move (kind : Kind) (s : State) : Label → State → Prop
  | same {label : Label} : Move kind s label s
  | alloc {label : Label} (i : Index) (value : Nat) (unused : (s.entries i).used = false) :
      Move kind s label (s.setEntry i (.fresh (nextGeneration (s.entries i).generation) value))
  | pin {label : Label} (t : Slot) (i : Index) (op : Op) (enters : s.Enters t)
      (accepts : (s.entries i).Accepts (s.entries i).generation) (same : op.kind = kind) :
      Move kind s label ((s.setEntry i (s.entries i).enter).setCall t (.op i (.pinned op)))
  | left {label : Label} {r : State} (t : Slot) (i : Index) (op : Op)
      (pinned : s.calls t = .op i (.pinned op)) (executes : s.Executes t) (edited : Edited s r i) :
      Move kind s label (r.setCall t (.op i .leaving))
  | round {label : Label} {r : State} (i : Index) (edited : Edited s r i) : Move kind s label r
  | join {label : Label} (t : Slot) (i : Index) (op : Op)
      (pinned : s.calls t = .op i (.pinned op)) (executes : s.Executes t)
      (fresh : t ∉ (s.entries i).waiters)
      (locked : op.kind = .mutex → (s.entries i).locked = true) :
      Move kind s label ((s.setEntry i
        { s.entries i with waiters := (s.entries i).waiters ++ [t] }).setCall t (.op i .waiting))
  | park (cpu : Cpu) (i : Index) (waiting : s.calls (s.current cpu) = .op i .waiting)
      (executes : s.Executes (s.current cpu)) : Move kind s (.park cpu) (s.park (s.current cpu) i)
  | resume (cpu : Cpu) (i : Index) (parked : s.calls (s.current cpu) = .op i .parked)
      (running : (s.sched.tasks (s.current cpu)).state = .running) :
      Move kind s (.resume cpu) (s.setCall (s.current cpu) (.op i .leaving))
  | unpin {label : Label} (t : Slot) (i : Index) (leaving : s.calls t = .op i .leaving)
      (executes : s.Executes t) : Move kind s label (s.unpin t i)
  | free {label : Label} (t : Slot) (i : Index) (enters : s.Enters t)
      (accepts : (s.entries i).Accepts (s.entries i).generation) (quiet : (s.entries i).activeOps = 0) :
      Move kind s label ((s.setEntry i { s.entries i with destroying := true }).setCall t
        (.free i (s.entries i).generation .checking))
  | check {label : Label} (t : Slot) (i : Index) (generation : Nat) (before after : FreeStage)
      (freeing : s.calls t = .free i generation before) (executes : s.Executes t) :
      Move kind s label (s.setCall t (.free i generation after))
  | finish {label : Label} (t : Slot) (i : Index) (generation : Nat) (stage : FreeStage)
      (freeing : s.calls t = .free i generation stage) (executes : s.Executes t) :
      Move kind s label (s.finish t i generation stage)
  | unpark (t : Slot) (pending : t ∈ s.wakes) : Move kind s (.unpark t) (s.unpark t)
  | scan (t : Slot) (i : Index) (reaping : (s.sched.tasks t).state = .reaping)
      (turn : (s.scans t).index = i.val) :
      Move kind s (.scan t) (s.detach kind t i (s.scans t).phase)
  | follow (event : Sched.Label) (sched : Sched.State) (allows : s.Allows event)
      (taken : Sched.perform s.sched event = some sched) :
      Move kind s (.sched event) (s.follow sched event)

section Moves

variable {kind : Kind} {s r : State} {t : Slot} {i : Index} {label : Label}

theorem State.join_move {op : Op} (pinned : s.calls t = .op i (.pinned op)) (executes : s.Executes t)
    (locked : op.kind = .mutex → (s.entries i).locked = true) : Move kind s label (s.join t i) := by
  unfold State.join State.enqueue
  by_cases member : t ∈ (s.entries i).waiters
  · rw [if_pos member]
    exact .left t i op pinned executes .rfl
  · rw [if_neg member]
    exact .join t i op pinned executes member locked

theorem State.act_move {op : Op} (pinned : s.calls t = .op i (.pinned op)) (executes : s.Executes t) :
    Move kind s label (s.act t i op) := by
  have left : ∀ r, Edited s r i → Move kind s label (r.setCall t (.op i .leaving)) :=
    fun r edited => .left t i op pinned executes edited
  have acquired : Edited s (s.setEntry i { s.entries i with locked := true, owner := some t }) i :=
    .of_entry ⟨rfl, rfl, rfl, rfl⟩ (List.Sublist.refl _) fun _ _ => rfl
  have counted : ∀ value, Edited s (s.setEntry i { s.entries i with value := value }) i :=
    fun value => .of_entry ⟨rfl, rfl, rfl, rfl⟩ (List.Sublist.refl _) id
  unfold State.act
  cases op with
  | lock =>
    dsimp only
    split
    · exact left _ acquired
    · rename_i busy
      exact State.join_move pinned executes fun _ => Bool.eq_true_of_not_eq_false busy
  | trylock =>
    dsimp only
    split
    · exact left _ acquired
    · exact left _ .rfl
  | unlock => exact left _ (s.release_edited i)
  | wait =>
    dsimp only
    split
    · exact left _ (counted _)
    · exact State.join_move pinned executes nofun
  | trywait =>
    dsimp only
    split
    · exact left _ .rfl
    · exact left _ (counted _)
  | post => exact left _ (s.post_edited i)
  | condWait accepted =>
    unfold State.enqueue
    by_cases member : t ∈ (s.entries i).waiters
    · rw [if_pos member]
      exact left _ .rfl
    · rw [if_neg member]
      cases accepted with
      | true => exact .join t i _ pinned executes member nofun
      | false => exact left _ (s.withdraw_edited member)
  | signal => exact left _ (s.dequeue_edited i)
  | broadcast =>
    have taken := s.dequeue_edited i
    rcases s.dequeue_cases i with ⟨_, same⟩ | ⟨u, rest, _, same⟩
    · rw [same]
      exact left _ .rfl
    · rw [same] at taken ⊢
      exact .round i taken

theorem State.pin_move {handle : Int} {op : Op} (enters : s.Enters t) (same : op.kind = kind) :
    Move kind s label (s.pin t handle op) := by
  unfold State.pin
  split
  · exact .same
  · rename_i i generation _
    split
    · rename_i accepts
      obtain ⟨used, rfl, kept⟩ := accepts
      exact .pin t i op enters ⟨used, rfl, kept⟩ same
    · exact .same

theorem State.free_move {handle : Int} (enters : s.Enters t) : Move kind s label (s.free t handle) := by
  unfold State.free
  split
  · exact .same
  · rename_i i generation _
    split
    · rename_i accepts
      obtain ⟨⟨used, rfl, kept⟩, quiet⟩ := accepts
      exact .free t i enters ⟨used, rfl, kept⟩ quiet
    · exact .same

theorem State.alloc_move (value : Nat) : Move kind s label (s.alloc value) := by
  unfold State.alloc
  split
  · exact .same
  · rename_i i found
    exact .alloc i value (by simpa using List.find?_some found)

theorem move (taken : step kind s label = some r) : Move kind s label r := by
  cases label with
  | alloc cpu value =>
    obtain ⟨_, rfl⟩ := Transition.of_guard taken
    exact State.alloc_move value
  | pin cpu handle op =>
    obtain ⟨enters, rfl⟩ := Transition.of_guard taken
    exact State.pin_move enters.1 enters.2
  | act cpu =>
    simp only [step] at taken
    split at taken
    · rename_i i op pinned
      obtain ⟨executes, rfl⟩ := Transition.of_guard taken
      exact State.act_move pinned executes
    · cases taken
  | park cpu =>
    simp only [step] at taken
    split at taken
    · rename_i i waiting
      obtain ⟨executes, rfl⟩ := Transition.of_guard taken
      exact .park cpu i waiting executes
    · cases taken
  | resume cpu =>
    simp only [step] at taken
    split at taken
    · rename_i i parked
      obtain ⟨running, rfl⟩ := Transition.of_guard taken
      exact .resume cpu i parked running
    · cases taken
  | unpin cpu =>
    simp only [step] at taken
    split at taken
    · rename_i i leaving
      obtain ⟨executes, rfl⟩ := Transition.of_guard taken
      exact .unpin _ i leaving executes
    · cases taken
  | free cpu handle =>
    obtain ⟨enters, rfl⟩ := Transition.of_guard taken
    exact State.free_move enters
  | check cpu =>
    simp only [step] at taken
    split at taken
    · rename_i i generation checking
      obtain ⟨executes, rfl⟩ := Transition.of_guard taken
      exact .check _ i generation _ _ checking executes
    · cases taken
  | finish cpu =>
    simp only [step] at taken
    split at taken
    · cases taken
    · rename_i i generation stage _ freeing
      obtain ⟨executes, rfl⟩ := Transition.of_guard taken
      exact .finish _ i generation stage freeing executes
    · cases taken
  | unpark t =>
    obtain ⟨pending, rfl⟩ := Transition.of_guard taken
    exact .unpark t pending
  | scan t =>
    obtain ⟨reaping, taken⟩ := Option.ite_none_right_eq_some.mp taken
    split at taken
    · rename_i bound
      cases taken
      exact .scan t ⟨(s.scans t).index, bound⟩ reaping rfl
    · cases taken
  | sched event =>
    obtain ⟨allows, taken⟩ := Option.ite_none_right_eq_some.mp taken
    obtain ⟨sched, stepped, same⟩ := Option.map_eq_some_iff.mp taken
    cases same
    exact .follow event sched allows (Option.ite_none_left_eq_some.mp stepped).2

end Moves

end OsArmv8a.Pool
