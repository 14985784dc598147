import OsArmv8a.PoolPins

/-! Handles of the pools. A handle packs the slot and its generation into a non-negative `int`; a
slot gets the next generation whenever it is given out, and generation 0 is skipped. -/

set_option autoImplicit false

namespace OsArmv8a.Pool

/-- `mutex_make_handle` on machine words. -/
def handleBits (i : Index) (generation : Nat) : BitVec 32 :=
  BitVec.ofNat 32 generation <<< 6 ||| BitVec.ofNat 32 i.val

/-- Within the range of generations the packing loses nothing and the sign bit stays clear. -/
theorem toInt_handleBits (i : Index) {generation : Nat} (small : generation ≤ generationMax) :
    (handleBits i generation).toInt = makeHandle i generation ∧
      0 ≤ makeHandle i generation ∧ makeHandle i generation < 2 ^ 31 := by
  unfold generationMax at small
  have packed : (handleBits i generation).toNat = generation * 64 + i.val := by
    have shifted : generation <<< 6 % 2 ^ 32 = generation <<< 6 := by
      omega
    unfold handleBits
    rw [BitVec.toNat_or, BitVec.toNat_shiftLeft, BitVec.toNat_ofNat, BitVec.toNat_ofNat,
      Nat.mod_eq_of_lt (show generation < 2 ^ 32 by omega), shifted,
      Nat.mod_eq_of_lt (show i.val < 2 ^ 32 by omega),
      ← Nat.shiftLeft_add_eq_or_of_lt (show i.val < 2 ^ 6 by omega), Nat.shiftLeft_eq]
  unfold makeHandle
  refine ⟨?_, by omega, by omega⟩
  rw [BitVec.toInt_eq_toNat_of_lt (by omega), packed]
  omega

/-- The generation of a slot that was given out so many times since it had generation `g`. -/
def generationAfter (g turns : Nat) : Nat := (g - 1 + turns) % generationMax + 1

theorem nextGeneration_after (g turns : Nat) :
    nextGeneration (generationAfter g turns) = generationAfter g (turns + 1) := by
  unfold nextGeneration generationAfter generationMax
  dsimp only
  split
  · omega
  · omega

theorem generationAfter_zero {g : Nat} (positive : 0 < g) (small : g ≤ generationMax) :
    generationAfter g 0 = g := by
  unfold generationAfter
  unfold generationMax at *
  omega

/-- A generation comes back after as many turns as there are generations, not before. -/
theorem generationAfter_ne {g turns : Nat} (positive : 0 < g) (some : 0 < turns)
    (few : turns < generationMax) : generationAfter g turns ≠ g := by
  unfold generationAfter
  unfold generationMax at *
  omega

namespace State

/-- The handle of a slot in use. -/
def handle (s : State) (i : Index) : Int := makeHandle i (s.entries i).generation

/-- The result of `mutex_pool_alloc`. -/
def allocResult (s : State) : Int :=
  match (List.finRange 64).find? (fun i => (s.entries i).used = false) with
  | none => -1
  | some i => makeHandle i (nextGeneration (s.entries i).generation)

/-- The result of `mutex_pool_pin`; every operation returns 0 when there is none, and
`mutex_pool_free` makes the same checks. -/
def pinned (s : State) (handle : Int) : Option Index :=
  (decode handle).bind fun place =>
    if (s.entries place.1).Accepts place.2 then some place.1 else none

variable {generation : Nat}

theorem pinned_eq_some {s : State} {i : Index} (positive : 0 < generation)
    (accepts : (s.entries i).Accepts generation) : s.pinned (makeHandle i generation) = some i := by
  unfold pinned
  rw [decode_makeHandle positive, Option.bind_some]
  exact if_pos accepts

theorem pinned_eq_none {s : State} {i : Index} (positive : 0 < generation)
    (refuses : ¬ (s.entries i).Accepts generation) :
    s.pinned (makeHandle i generation) = none ∧
      ∀ t, (∀ op, s.pin t (makeHandle i generation) op = s) ∧
        s.free t (makeHandle i generation) = s := by
  unfold pinned pin free
  rw [decode_makeHandle positive, Option.bind_some]
  refine ⟨if_neg refuses, fun t => ⟨fun op => if_neg refuses, if_neg fun both => refuses both.1⟩⟩

end State

/-- What a step can do to the use of a slot. -/
inductive Turn (before after : Entry) : Prop
  | kept (used : after.used = before.used) (generation : after.generation = before.generation)
  | given (unused : before.used = false) (used : after.used = true)
      (generation : after.generation = nextGeneration before.generation)
  | freed (used : before.used = true) (unused : after.used = false)
      (generation : after.generation = before.generation)

section Turns

variable {kind : Kind} {s r : State} {label : Label} {i : Index}
variable {entry : Entry}

theorem Turn.rfl : Turn entry entry := .kept (Eq.refl _) (Eq.refl _)

variable {j : Index}

theorem Edited.turn (edited : Edited s r j) : Turn (s.entries i) (r.entries i) := by
  by_cases same : i = j
  · rw [same]
    exact .kept edited.alike.used edited.alike.generation
  · rw [edited.others i same]
    exact .rfl

theorem turn_setEntry (turn : Turn (s.entries j) entry) :
    Turn (s.entries i) ((s.setEntry j entry).entries i) := by
  by_cases same : i = j
  · simpa [same] using turn
  · simpa [same] using Turn.rfl

theorem Entry.enter_turn (entry : Entry) : Turn entry entry.enter := by
  exact .kept (Eq.refl _) (Eq.refl _)

theorem Entry.drop_turn (entry : Entry) : Turn entry entry.drop := by
  unfold Entry.drop
  exact .kept (Eq.refl _) (Eq.refl _)

theorem Turn.leave {before after : Entry} (turn : Turn before after) : Turn before after.leave := by
  unfold Entry.leave
  split
  · cases turn with
    | kept used generation => exact .kept used generation
    | given unused used generation => exact .given unused used generation
    | freed used unused generation => exact .freed used unused generation
  · exact turn

variable {t : Slot}

theorem State.detach_turn {phase : Phase} :
    Turn (s.entries i) ((s.detach kind t j phase).entries i) := by
  cases phase with
  | next =>
    unfold State.detach
    dsimp only
    split
    · exact .rfl
    · exact turn_setEntry (Entry.enter_turn _)
  | pinned =>
    unfold State.detach
    dsimp only [State.setScan_entries]
    split
    · exact ((s.remove_edited t j).trans ((s.remove t j).release_edited j)).turn
    · exact (s.remove_edited t j).turn
  | removed detached =>
    have scanned : Turn (s.entries j)
        (if kind = .mutex then (s.entries j).drop else (s.entries j).leave) := by
      split
      · exact Entry.drop_turn _
      · exact Turn.rfl.leave
    have both : Turn (s.entries j) (if detached = true then
        (if kind = .mutex then (s.entries j).drop else (s.entries j).leave).leave
        else if kind = .mutex then (s.entries j).drop else (s.entries j).leave) := by
      cases detached with
      | true => exact scanned.leave
      | false => exact scanned
    unfold State.detach
    dsimp only
    split
    · exact turn_setEntry both
    · exact turn_setEntry both

/-- Only `pool_alloc` and the end of `pool_free` change the use of a slot. -/
theorem Move.turn (moved : Move kind s label r) : Turn (s.entries i) (r.entries i) := by
  cases moved with
  | same => exact .rfl
  | alloc j value unused => exact turn_setEntry (.given unused rfl rfl)
  | pin t j op enters accepts same => exact turn_setEntry (Entry.enter_turn _)
  | left t j op pinned executes edited => exact edited.turn
  | round j edited => exact edited.turn
  | join t j op pinned executes fresh locked => exact turn_setEntry (.kept rfl rfl)
  | park cpu j waiting executes =>
    unfold State.park
    split
    · exact .rfl
    · exact .rfl
  | resume cpu j parked running => exact .rfl
  | unpin t j leaving executes => exact turn_setEntry Turn.rfl.leave
  | free t j enters accepts quiet => exact turn_setEntry (.kept rfl rfl)
  | check t j generation before after freeing executes => exact .rfl
  | finish t j generation stage freeing executes =>
    refine turn_setEntry ?_
    by_cases kept : stage = .failing ∨ (s.entries j).used = false ∨
        (s.entries j).generation ≠ generation
    · exact .kept (if_pos kept) rfl
    · have used : (s.entries j).used = true := by
        simp only [not_or] at kept
        simpa using kept.2.1
      exact .freed used (if_neg kept) rfl
  | unpark t pending => exact .rfl
  | scan t j reaping turn => exact State.detach_turn
  | follow event sched allows performed => cases event <;> exact .rfl

/-- A slot that is marked for destruction has a task that destroys it. -/
def Attended (s : State) (i : Index) : Prop :=
  (s.entries i).destroying = true → ∃ t generation, (s.calls t).place = .freeing i generation

theorem Attended.setCall {call : Call} (attended : Attended s i)
    (other : ∀ generation, (s.calls t).place ≠ .freeing i generation) :
    Attended (s.setCall t call) i := by
  intro destroying
  obtain ⟨u, generation, freeing⟩ := attended destroying
  have different : u ≠ t := by
    rintro rfl
    exact other generation freeing
  exact ⟨u, generation, by simpa [different] using freeing⟩

theorem Attended.setEntry (attended : Attended s i)
    (kept : entry.destroying = true → (s.entries j).destroying = true) :
    Attended (s.setEntry j entry) i := by
  intro destroying
  refine attended ?_
  by_cases same : i = j
  · subst same
    exact kept (by simpa using destroying)
  · simpa [same] using destroying

theorem Attended.setScan {scan : Scan} (attended : Attended s i) :
    Attended (s.setScan t scan) i := attended

theorem Attended.edit (attended : Attended s i) (edited : Edited s r j) : Attended r i := by
  intro destroying
  rw [edited.calls]
  refine attended ?_
  by_cases same : i = j
  · subst same
    rwa [edited.alike.destroying] at destroying
  · rwa [edited.others i same] at destroying

theorem Entry.leave_destroying (entry : Entry) : entry.leave.destroying = entry.destroying := by
  unfold Entry.leave
  split <;> rfl

theorem Entry.enter_destroying (entry : Entry) : entry.enter.destroying = entry.destroying := by
  exact Eq.refl _

theorem Entry.drop_destroying (entry : Entry) : entry.drop.destroying = entry.destroying := by
  unfold Entry.drop
  exact Eq.refl _

theorem Attended.detach {phase : Phase} (attended : Attended s i) :
    Attended (s.detach kind t j phase) i := by
  cases phase with
  | next =>
    unfold State.detach
    dsimp only
    split
    · exact attended
    · have kept : Attended (s.setEntry j (s.entries j).enter) i :=
        attended.setEntry fun destroying => Entry.enter_destroying _ ▸ destroying
      exact kept
  | pinned =>
    unfold State.detach
    dsimp only
    split
    · have edited := (s.remove_edited t j).trans ((s.remove t j).release_edited j)
      exact (attended.edit edited).setScan
    · exact (attended.edit (s.remove_edited t j)).setScan
  | removed detached =>
    have same : (if detached = true then
        (if kind = .mutex then (s.entries j).drop else (s.entries j).leave).leave
        else if kind = .mutex then (s.entries j).drop else (s.entries j).leave).destroying =
          (s.entries j).destroying := by
      cases detached <;> by_cases mutex : kind = .mutex <;>
        simp [mutex, Entry.leave_destroying, Entry.drop_destroying]
    have kept := attended.setEntry (j := j) (fun destroying => same ▸ destroying)
    unfold State.detach
    dsimp only
    split
    · rename_i inside
      refine Attended.setCall kept fun generation freeing => ?_
      cases freeing.symm.trans inside.2
    · exact kept

/-- The task that destroys a slot goes on to do so unless it is cleared away. -/
theorem Move.attended (moved : Move kind s label r)
    (cleared : ∀ t, label = .sched (.clear t) → ∀ generation,
      (s.calls t).place ≠ .freeing i generation)
    (attended : Attended s i) : Attended r i := by
  have elsewhere : ∀ {t : Slot} {call : Call}, s.calls t = call →
      (∀ generation, call.place ≠ .freeing i generation) →
      ∀ generation, (s.calls t).place ≠ .freeing i generation := by
    rintro t call rfl other
    exact other
  cases moved with
  | same => exact attended
  | alloc j value unused => exact attended.setEntry (by simp [Entry.fresh])
  | pin t j op enters accepts same =>
    exact Attended.setCall
      (attended.setEntry fun destroying => Entry.enter_destroying _ ▸ destroying)
      (elsewhere enters.2.1 (by simp [Call.place]))
  | left t j op pinned executes edited =>
    exact Attended.setCall (attended.edit edited) (edited.calls ▸ elsewhere pinned (by simp [Call.place]))
  | round j edited => exact attended.edit edited
  | join t j op pinned executes fresh locked =>
    exact Attended.setCall (attended.setEntry id) (elsewhere pinned (by simp [Call.place]))
  | park cpu j waiting executes =>
    unfold State.park
    split
    · exact Attended.setCall (s := { s with sched := _ }) attended (elsewhere waiting (by simp [Call.place]))
    · exact Attended.setCall (s := { s with sched := _ }) attended (elsewhere waiting (by simp [Call.place]))
  | resume cpu j parked running => exact attended.setCall (elsewhere parked (by simp [Call.place]))
  | unpin t j leaving executes =>
    exact Attended.setCall
      (attended.setEntry fun destroying => Entry.leave_destroying _ ▸ destroying)
      (elsewhere leaving (by simp [Call.place]))
  | free t j enters accepts quiet =>
    by_cases same : i = j
    · subst same
      exact fun _ => ⟨t, (s.entries i).generation, by simp [Call.place]⟩
    · intro destroying
      have before : Attended (s.setCall t (.free j (s.entries j).generation .checking)) i :=
        attended.setCall (elsewhere enters.2.1 (by simp [Call.place]))
      exact before (by simpa [same] using destroying)
  | check t j generation before after freeing executes =>
    intro destroying
    obtain ⟨u, g, place⟩ := attended destroying
    refine ⟨u, g, ?_⟩
    by_cases same : u = t
    · subst same
      simpa [freeing, Call.place] using place
    · simpa [same] using place
  | finish t j generation stage freeing executes =>
    by_cases same : i = j
    · subst same
      intro destroying
      simp [State.finish] at destroying
    · refine Attended.setCall (attended.setEntry (by simp)) (elsewhere freeing ?_)
      intro g place
      simp only [Call.place, Place.freeing.injEq] at place
      exact same place.1.symm
  | unpark t pending => exact attended
  | scan t j reaping turn => exact attended.detach
  | follow event sched allows performed =>
    cases event with
    | clear t =>
      exact Attended.setCall (s := { s with sched := sched }) attended (cleared t rfl)
    | _ => exact attended

end Turns

section Runs

variable {kind : Kind} {s r u : State} {label : Label} {i : Index}

/-- The step does not give the slot up, and no task is cleared away that was destroying it. -/
def Keeps (kind : Kind) (i : Index) (s : State) (label : Label) : Prop :=
  (∀ r, step kind s label = some r → (r.entries i).used = true) ∧
    ∀ t, label = .sched (.clear t) → ∀ generation, (s.calls t).place ≠ .freeing i generation

/-- How often a run gives the slot out. -/
def reuses (kind : Kind) (i : Index) : State → List Label → Nat
  | _, [] => 0
  | s, label :: rest =>
    match step kind s label with
    | none => 0
    | some r =>
      (if (s.entries i).used = false ∧ (r.entries i).used = true then 1 else 0) +
        reuses kind i r rest

/-- Generations in use fit into a handle and are never 0. -/
def Ranged (s : State) : Prop :=
  ∀ i, (s.entries i).used = true →
    0 < (s.entries i).generation ∧ (s.entries i).generation ≤ generationMax

theorem Ranged.step (ranged : Ranged s) (taken : Pool.step kind s label = some r) : Ranged r := by
  intro i used
  cases (move taken).turn (i := i) with
  | kept same generation =>
    rw [generation]
    exact ranged i (same ▸ used)
  | given _ _ generation =>
    rw [generation]
    exact nextGeneration_range _
  | freed _ unused _ => cases unused.symm.trans used

theorem reachable_ranged
    (reached : Transition.Reachable (· = init) (step kind) Transition.always s) : Ranged s := by
  have inv : Ranged s := reached.invariant (fun s initial => initial ▸ nofun)
    (fun s r label ranged _ taken => ranged.step taken)
  exact inv

/-- The slot is in use with this generation, and its mark only means that somebody is destroying
it. -/
structure Lasting (i : Index) (generation : Nat) (s : State) : Prop where
  used : (s.entries i).used = true
  generation : (s.entries i).generation = generation
  attended : Attended s i

theorem Lasting.step {generation : Nat} (lasting : Lasting i generation s)
    (keeps : Keeps kind i s label) (taken : Pool.step kind s label = some r) :
    Lasting i generation r := by
  have still := keeps.1 r taken
  refine ⟨still, ?_, (move taken).attended keeps.2 lasting.attended⟩
  cases (move taken).turn (i := i) with
  | kept _ same => exact same.trans lasting.generation
  | given unused _ _ => cases unused.symm.trans lasting.used
  | freed _ unused _ => cases unused.symm.trans still

/-- The generation of a slot counts how often it has been given out. -/
theorem reuses_run {g : Nat} (labels : List Label) : ∀ {s : State} {turns : Nat},
    (s.entries i).generation = generationAfter g turns →
    ((s.entries i).used = true → 0 < turns) → Transition.run (step kind) s labels = some u →
    (u.entries i).generation = generationAfter g (turns + reuses kind i s labels) ∧
      ((u.entries i).used = true → 0 < turns + reuses kind i s labels) := by
  induction labels with
  | nil =>
    intro s turns generation used ran
    cases Option.some.inj ran
    exact ⟨generation, used⟩
  | cons label rest ih =>
    intro s turns generation used ran
    obtain ⟨r, taken, tail⟩ := Option.bind_eq_some_iff.mp ran
    have count : reuses kind i s (label :: rest) =
        (if (s.entries i).used = false ∧ (r.entries i).used = true then 1 else 0) +
          reuses kind i r rest := by
      simp only [reuses, taken]
    rw [count, ← Nat.add_assoc]
    cases (move taken).turn (i := i) with
    | kept same kept =>
      have idle : ¬ ((s.entries i).used = false ∧ (r.entries i).used = true) := by
        rw [same]
        exact fun both => absurd (both.1.symm.trans both.2) Bool.false_ne_true
      rw [if_neg idle, Nat.add_zero]
      exact ih (kept.trans generation) (fun again => used (same ▸ again)) tail
    | given unused given next =>
      rw [if_pos ⟨unused, given⟩]
      refine ih ?_ (fun _ => Nat.succ_pos turns) tail
      rw [next, generation, nextGeneration_after]
    | freed held unused kept =>
      rw [if_neg (by simp [held]), Nat.add_zero]
      exact ih (kept.trans generation)
        (fun again => absurd (unused.symm.trans again) Bool.false_ne_true) tail

/-- What `mutex_pool_alloc` returns is the handle of the slot it has given out. -/
theorem alloc_handle {cpu : Cpu} {value : Nat} (taken : step kind s (.alloc cpu value) = some r)
    (success : s.allocResult ≠ -1) : ∃ i, s.allocResult = r.handle i ∧
      (r.entries i).used = true ∧ (r.entries i).destroying = false := by
  obtain ⟨_, rfl⟩ := Transition.of_guard taken
  unfold State.allocResult at success ⊢
  split at success
  · exact absurd rfl success
  rename_i i found
  have given : s.alloc value =
      s.setEntry i (.fresh (nextGeneration (s.entries i).generation) value) := by
    unfold State.alloc
    rw [found]
  rw [given]
  refine ⟨i, ?_, by simp [Entry.fresh], by simp [Entry.fresh]⟩
  simp [State.handle, Entry.fresh]

end Runs

/-- Task 4 takes a mutex from the pool and begins to free it. -/
def discarded : List Label := crew ++ [.alloc 0 0, .free 0 64, .check 0]

end OsArmv8a.Pool
