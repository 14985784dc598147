import OsArmv8a.Sync
import OsArmv8a.Lib.Transition

/-! The mailboxes of `ipc.c` with their buffers. `ipc_send` and `ipc_receive` copy bytes under the
lock of the channel; who calls them when is decided by the tasks of `OsArmv8a.Sync`. -/

set_option autoImplicit false

namespace OsArmv8a.Ipc

/-- `struct ipc_channel` without its lock and queue. -/
structure Mailbox where
  hasMessage : Bool
  length : Nat
  buffer : Nat → UInt8

/-- `buffer[index] = data[index]` for each index below the length. -/
def copyIn (buffer : Nat → UInt8) (data : List UInt8) : Nat → UInt8 :=
  (List.range data.length).foldl
    (fun buffer index i => if i = index then data.getD index 0 else buffer i) buffer

/-- `data[index] = buffer[index]` for each index below the length. -/
def copyOut (buffer : Nat → UInt8) (length : Nat) : List UInt8 := (List.range length).map buffer

/-- What a call leaves: `IPC_RESULT_ERROR`, a message stored or taken, or nothing there to take. -/
inductive Outcome where
  | error
  | accepted (data : List UInt8)
  | delivered (data : List UInt8)
  | empty

namespace Mailbox

/-- The critical section of `ipc_send` with its checks. -/
def send (box : Mailbox) (data : List UInt8) : Outcome × Mailbox :=
  if data.length = 0 ∨ 64 < data.length then (.error, box)
  else if box.hasMessage = true then (.error, box)
  else
    (.accepted data,
      { hasMessage := true, length := data.length, buffer := copyIn box.buffer data })

/-- The critical section of `ipc_receive` with its checks. -/
def receive (box : Mailbox) (capacity : Nat) : Outcome × Mailbox :=
  if capacity = 0 ∨ 64 < capacity then (.error, box)
  else if box.hasMessage = true then
    if capacity < box.length then (.error, box)
    else
      (.delivered (copyOut box.buffer box.length), { box with hasMessage := false, length := 0 })
  else (.empty, box)

/-- The message a mailbox holds. -/
def message (box : Mailbox) : Option (List UInt8) :=
  if box.hasMessage = true then some (copyOut box.buffer box.length) else none

end Mailbox

/-- The copy loop leaves the data in the first bytes and the rest as it was. -/
theorem copyIn_apply (buffer : Nat → UInt8) (data : List UInt8) (i : Nat) :
    copyIn buffer data i = if i < data.length then data.getD i 0 else buffer i := by
  unfold copyIn
  generalize data.length = n
  induction n with
  | zero => simp
  | succ n ih =>
    rw [List.range_succ, List.foldl_append, List.foldl_cons, List.foldl_nil, ih]
    by_cases last : i = n
    · rw [if_pos last, if_pos (by omega), last]
    · rw [if_neg last]
      by_cases before : i < n
      · rw [if_pos before, if_pos (by omega)]
      · rw [if_neg before, if_neg (by omega)]

theorem copyOut_copyIn (buffer : Nat → UInt8) (data : List UInt8) :
    copyOut (copyIn buffer data) data.length = data := by
  apply List.ext_getElem
  · simp [copyOut]
  · intro i _ inside
    simp [copyOut, copyIn_apply, inside]

section Calls

variable {box after : Mailbox} {data : List UInt8} {capacity : Nat}

theorem Mailbox.send_cases (box : Mailbox) (data : List UInt8) :
    box.send data = (.error, box) ∨
      box.message = none ∧ ∃ after, box.send data = (.accepted data, after) ∧
        after.message = some data := by
  unfold Mailbox.send
  split
  · exact Or.inl rfl
  split
  · exact Or.inl rfl
  · rename_i _ free
    refine Or.inr ⟨if_neg free, _, rfl, ?_⟩
    simp [Mailbox.message, copyOut_copyIn]

theorem Mailbox.receive_cases (box : Mailbox) (capacity : Nat) :
    box.receive capacity = (.error, box) ∨ box.receive capacity = (.empty, box) ∨
      ∃ data after, box.message = some data ∧ box.receive capacity = (.delivered data, after) ∧
        after.message = none := by
  unfold Mailbox.receive
  split
  · exact Or.inl rfl
  split
  · rename_i _ full
    split
    · exact Or.inl rfl
    · exact Or.inr (Or.inr ⟨_, _, if_pos full, rfl, rfl⟩)
  · exact Or.inr (Or.inl rfl)

theorem Mailbox.length_of_message (held : box.message = some data) : data.length = box.length := by
  obtain ⟨_, same⟩ := Option.ite_none_right_eq_some.mp held
  rw [← Option.some.inj same]
  simp [copyOut]

theorem Mailbox.send_message (box : Mailbox) (data : List UInt8) :
    (box.send data).2.message =
      if data.length = 0 ∨ 64 < data.length ∨ box.message.isSome = true then box.message
      else some data := by
  have full : box.message.isSome = box.hasMessage := by
    unfold Mailbox.message
    split <;> simp_all
  unfold Mailbox.send
  by_cases size : data.length = 0 ∨ 64 < data.length
  · rw [if_pos size, if_pos (by omega)]
  · rw [if_neg size, full]
    by_cases held : box.hasMessage = true
    · rw [if_pos held, if_pos (Or.inr (Or.inr held))]
    · rw [if_neg held, if_neg (by simp_all)]
      simp [Mailbox.message, copyOut_copyIn]

theorem Mailbox.receive_message (box : Mailbox) (capacity : Nat) :
    (box.receive capacity).2.message =
      if ¬ (capacity = 0 ∨ 64 < capacity) ∧
          ∃ data, box.message = some data ∧ data.length ≤ capacity then none
      else box.message := by
  unfold Mailbox.receive
  split
  · rename_i refused
    rw [if_neg fun both => both.1 refused]
  rename_i valid
  split
  · rename_i held
    have message : box.message = some (copyOut box.buffer box.length) := if_pos held
    have length := Mailbox.length_of_message message
    split
    · rw [if_neg]
      rintro ⟨-, data, found, fits⟩
      cases Option.some.inj (message.symm.trans found)
      omega
    · rw [if_pos ⟨valid, _, message, by omega⟩]
      rfl
  · rename_i free
    have none : box.message = none := if_neg free
    rw [if_neg]
    rintro ⟨-, data, found, -⟩
    cases none.symm.trans found

end Calls

/-- The tasks with the mailboxes, and for each channel the messages that successful sends have
stored and successful receives have returned. -/
structure State where
  sync : Sync.State
  boxes : Fin 8 → Mailbox
  accepted : Fin 8 → List (List UInt8)
  delivered : Fin 8 → List (List UInt8)

/-- A call on one channel. -/
inductive Call where
  | send (k : Fin 8) (data : List UInt8)
  | receive (k : Fin 8) (capacity : Nat)

namespace State

/-- The call of `ipc.c` that a step makes: a send, the first attempt of a receive, or a later one of
`sys_ipc_recv`. -/
def call (s : State) : Sync.Label → Option Call
  | .send _ k data => some (.send k data)
  | .receive _ k capacity => some (.receive k capacity)
  | .retry cpu =>
    match s.sync.pc (s.sync.current cpu) with
    | .again (.channel k capacity) => some (.receive k capacity)
    | _ => none
  | _ => none

def setBox (s : State) (k : Fin 8) (box : Mailbox) : State :=
  { s with boxes := fun j => if j = k then box else s.boxes j }

/-- The outcome of a call and the mailboxes after it. -/
def perform (s : State) : Call → Fin 8 × Outcome × Mailbox
  | .send k data => (k, (s.boxes k).send data)
  | .receive k capacity => (k, (s.boxes k).receive capacity)

/-- The records after a call. -/
def record (s : State) (k : Fin 8) : Outcome → State
  | .accepted data =>
    { s with accepted := fun j => if j = k then s.accepted k ++ [data] else s.accepted j }
  | .delivered data =>
    { s with delivered := fun j => if j = k then s.delivered k ++ [data] else s.delivered j }
  | .error | .empty => s

def apply (s : State) (call : Call) : State :=
  match s.perform call with
  | (k, outcome, box) => (s.setBox k box).record k outcome

end State

def step (s : State) (label : Sync.Label) : Option State :=
  (Sync.step s.sync label).map fun sync =>
    match s.call label with
    | none => { s with sync := sync }
    | some call => { s.apply call with sync := sync }

/-- `ipc_init`. -/
def init (values : Fin 64 → Nat) : State :=
  { sync := Sync.init values
    boxes := fun _ => { hasMessage := false, length := 0, buffer := fun _ => 0 }
    accepted := fun _ => []
    delivered := fun _ => [] }

section Channels

variable {s r : Sync.State} {t : Sync.Slot}

theorem enqueue_channels {w : Sync.Wait} {joined : Bool} (taken : s.enqueue t w = some (joined, r)) :
    r.channels = s.channels := by
  obtain ⟨⟨added, queues⟩, _, same⟩ := Option.map_eq_some_iff.mp taken
  dsimp only at same
  split at same
  · cases same
    rfl
  · cases same
    rfl

theorem dequeue_channels (s : Sync.State) (o : Sync.Obj) : (s.dequeue o).2.channels = s.channels := by
  unfold Sync.State.dequeue
  split <;> rfl

theorem remove_channels {o : Sync.Obj} (taken : s.remove t o = some r) :
    r.channels = s.channels := by
  obtain ⟨_, _, same⟩ := Option.map_eq_some_iff.mp taken
  cases same
  rfl

theorem returns_channels (s : Sync.State) (t : Sync.Slot) (w : Sync.Wait) :
    (s.returns t w).channels = s.channels := by
  cases w <;> rfl

theorem lock_channels {m : Fin 64} (taken : s.lock t m = some r) : r.channels = s.channels := by
  unfold Sync.State.lock at taken
  split at taken
  · cases taken
    exact returns_channels _ t _
  · obtain ⟨⟨joined, after⟩, enqueued, same⟩ := Option.map_eq_some_iff.mp taken
    have kept := enqueue_channels enqueued
    dsimp only at same
    split at same
    · exact same ▸ kept
    · rw [← same, returns_channels]
      exact kept

theorem release_channels (s : Sync.State) (m : Fin 64) : (s.release m).channels = s.channels := by
  have kept := dequeue_channels s (.mutex m)
  unfold Sync.State.release
  split
  · rename_i after found
    rw [found] at kept
    exact kept
  · rename_i next after found
    rw [found] at kept
    exact kept

theorem post_channels (s : Sync.State) (x : Fin 64) : (s.post x).channels = s.channels := by
  have kept := dequeue_channels s (.semaphore x)
  unfold Sync.State.post
  split
  · rename_i after found
    rw [found] at kept
    exact kept
  · rename_i next after found
    rw [found] at kept
    exact kept

theorem wait_channels {x : Fin 64} (taken : s.wait t x = some r) : r.channels = s.channels := by
  unfold Sync.State.wait at taken
  dsimp only at taken
  split at taken
  · cases taken
    rfl
  · obtain ⟨⟨joined, after⟩, enqueued, same⟩ := Option.map_eq_some_iff.mp taken
    exact same ▸ enqueue_channels enqueued

theorem condWait_channels {d : Fin 64} {m : Option (Fin 64)} (taken : s.condWait t d m = some r) :
    r.channels = s.channels := by
  unfold Sync.State.condWait at taken
  split at taken
  · obtain ⟨⟨joined, after⟩, enqueued, same⟩ := Option.map_eq_some_iff.mp taken
    have kept := enqueue_channels enqueued
    dsimp only at same
    split at same
    · rw [← same]
      exact (release_channels after _).trans kept
    · exact same ▸ kept
  · obtain ⟨⟨joined, after⟩, enqueued, same⟩ := Option.bind_eq_some_iff.mp taken
    have kept := enqueue_channels enqueued
    dsimp only at same
    split at same
    · obtain ⟨left, removed, same⟩ := Option.map_eq_some_iff.mp same
      rw [← same]
      exact (remove_channels removed).trans kept
    · cases same
      exact kept

theorem park_channels (s : Sync.State) (t : Sync.Slot) (w : Sync.Wait) :
    (s.park t w).channels = s.channels := by
  unfold Sync.State.park
  split
  · rfl
  · exact returns_channels _ t w

theorem clean_channels {o : Sync.Obj} (taken : s.clean t o = some r) : r.channels = s.channels := by
  obtain ⟨left, removed, same⟩ := Option.map_eq_some_iff.mp taken
  have kept := remove_channels removed
  cases o with
  | mutex m =>
    dsimp only at same
    split at same
    · rw [← same]
      exact (release_channels _ m).trans kept
    · exact same ▸ kept
  | channel k => exact same ▸ kept
  | semaphore x => exact same ▸ kept
  | condvar d => exact same ▸ kept

theorem send_channels (s : Sync.State) (k : Fin 8) (data : List UInt8) (j : Fin 8) :
    (s.send k data).channels j =
      if j = k ∧ ¬ (data.length = 0 ∨ 64 < data.length ∨ (s.channels k).isSome = true) then
        some data
      else s.channels j := by
  unfold Sync.State.send
  split
  · rename_i refused
    rw [if_neg fun both => both.2 refused]
  · rename_i free
    rw [dequeue_channels]
    by_cases same : j = k
    · rw [if_pos ⟨same, free⟩]
      exact if_pos same
    · rw [if_neg fun both => same both.1]
      exact if_neg same

theorem receive_channels {k : Fin 8} {capacity : Nat} (taken : s.receive t k capacity = some r)
    (j : Fin 8) :
    r.channels j =
      if j = k ∧ ¬ (capacity = 0 ∨ 64 < capacity) ∧
          ∃ data, s.channels k = some data ∧ data.length ≤ capacity then none
      else s.channels j := by
  unfold Sync.State.receive at taken
  split at taken
  · rename_i refused
    cases taken
    rw [if_neg fun all => all.2.1 refused]
    rfl
  rename_i valid
  split at taken
  · rename_i message full
    split at taken
    · cases taken
      rw [if_neg]
      · rfl
      · rintro ⟨-, -, data, found, fits⟩
        cases Option.some.inj (full.symm.trans found)
        omega
    · cases taken
      by_cases same : j = k
      · rw [if_pos ⟨same, valid, message, full, by omega⟩]
        exact if_pos same
      · rw [if_neg fun all => same all.1]
        exact if_neg same
  · rename_i empty
    obtain ⟨⟨joined, after⟩, enqueued, same⟩ := Option.map_eq_some_iff.mp taken
    cases same
    rw [if_neg]
    · exact congrFun (enqueue_channels enqueued) j
    · rintro ⟨-, -, data, found, -⟩
      cases empty.symm.trans found

end Channels

section Runs

variable {s r : State} {label : Sync.Label} {sync : Sync.State}

/-- Only the calls of `ipc.c` touch the channels. -/
theorem channels_of_quiet (quiet : s.call label = none)
    (taken : Sync.step s.sync label = some sync) : sync.channels = s.sync.channels := by
  cases label with
  | lock cpu m => exact lock_channels (Option.ite_none_right_eq_some.mp taken).2
  | trylock cpu m =>
    cases (Option.ite_none_right_eq_some.mp taken).2
    unfold Sync.State.trylock
    split
    · exact returns_channels _ _ _
    · rfl
  | unlock cpu m =>
    cases (Option.ite_none_right_eq_some.mp taken).2
    exact release_channels s.sync m
  | wait cpu x => exact wait_channels (Option.ite_none_right_eq_some.mp taken).2
  | trywait cpu x =>
    cases (Option.ite_none_right_eq_some.mp taken).2
    unfold Sync.State.trywait
    dsimp only
    split <;> rfl
  | post cpu x =>
    cases (Option.ite_none_right_eq_some.mp taken).2
    exact post_channels s.sync x
  | condWait cpu d m => exact condWait_channels (Option.ite_none_right_eq_some.mp taken).2
  | signal cpu d =>
    cases (Option.ite_none_right_eq_some.mp taken).2
    exact dequeue_channels s.sync _
  | send cpu k data => cases quiet
  | receive cpu k capacity => cases quiet
  | retry cpu =>
    simp only [Sync.step] at taken
    split at taken
    · rename_i w again
      have retried := (Option.ite_none_right_eq_some.mp taken).2
      cases w with
      | condvar d m => exact lock_channels retried
      | channel k capacity => simp [State.call, again] at quiet
      | mutex m => cases retried
      | semaphore x => cases retried
    · cases taken
  | park cpu =>
    simp only [Sync.step] at taken
    split at taken
    · cases (Option.ite_none_right_eq_some.mp taken).2
      exact park_channels s.sync _ _
    · cases taken
  | resume cpu =>
    simp only [Sync.step] at taken
    split at taken
    · cases (Option.ite_none_right_eq_some.mp taken).2
      exact returns_channels s.sync _ _
    · cases taken
  | unpark t =>
    cases (Option.ite_none_right_eq_some.mp taken).2
    rfl
  | clean t =>
    simp only [Sync.step] at taken
    split at taken
    · exact clean_channels (Option.ite_none_right_eq_some.mp taken).2
    · cases taken
  | sched event =>
    obtain ⟨_, taken⟩ := Option.ite_none_right_eq_some.mp taken
    obtain ⟨sched, _, same⟩ := Option.map_eq_some_iff.mp taken
    cases same
    cases event <;> rfl

theorem sync_of_send {k : Fin 8} {data : List UInt8} (calls : s.call label = some (.send k data))
    (taken : Sync.step s.sync label = some sync) : sync = s.sync.send k data := by
  cases label with
  | send cpu j bytes =>
    cases calls
    exact (Option.some.inj (Option.ite_none_right_eq_some.mp taken).2).symm
  | retry cpu =>
    simp only [State.call] at calls
    split at calls <;> cases calls
  | _ => cases calls

theorem sync_of_receive {k : Fin 8} {capacity : Nat}
    (calls : s.call label = some (.receive k capacity))
    (taken : Sync.step s.sync label = some sync) :
    ∃ t, s.sync.receive t k capacity = some sync := by
  cases label with
  | receive cpu j room =>
    cases calls
    exact ⟨_, (Option.ite_none_right_eq_some.mp taken).2⟩
  | retry cpu =>
    simp only [State.call] at calls
    split at calls
    · rename_i j room again
      cases calls
      simp only [Sync.step, again] at taken
      exact ⟨_, (Option.ite_none_right_eq_some.mp taken).2⟩
    · cases calls
  | _ => cases calls

/-- The mailboxes hold what the channels of the tasks' model hold. -/
def Matches (s : State) : Prop := ∀ k, s.sync.channels k = (s.boxes k).message

/-- Nothing is lost, duplicated or reordered. -/
def Conserved (s : State) : Prop :=
  ∀ k, s.delivered k ++ (s.boxes k).message.toList = s.accepted k

theorem record_boxes (s : State) (k : Fin 8) (outcome : Outcome) :
    (s.record k outcome).boxes = s.boxes := by
  cases outcome <;> rfl

theorem apply_boxes (s : State) (call : Call) (j : Fin 8) :
    (s.apply call).boxes j =
      if j = (s.perform call).1 then (s.perform call).2.2 else s.boxes j := by
  unfold State.apply
  rw [record_boxes]
  rfl

theorem Conserved.apply (conserved : Conserved s) (call : Call) : Conserved (s.apply call) := by
  intro j
  have before := conserved j
  have unchanged : ∀ k outcome, outcome = Outcome.error ∨ outcome = Outcome.empty →
      s.perform call = (k, outcome, s.boxes k) →
      (s.apply call).delivered j ++ ((s.apply call).boxes j).message.toList =
        (s.apply call).accepted j := by
    intro k outcome none performed
    have boxes := apply_boxes s call j
    rw [performed] at boxes
    have same : (s.apply call).boxes j = s.boxes j := by
      rw [boxes]
      split
      · rename_i here
        rw [here]
      · rfl
    rw [same]
    unfold State.apply
    rw [performed]
    rcases none with rfl | rfl
    · exact before
    · exact before
  cases call with
  | send k data =>
    rcases (s.boxes k).send_cases data with failed | ⟨free, after, stored, full⟩
    · exact unchanged k .error (Or.inl rfl) (congrArg (Prod.mk k) failed)
    · have performed : s.perform (.send k data) = (k, .accepted data, after) :=
        congrArg (Prod.mk k) stored
      have boxes := apply_boxes s (.send k data) j
      rw [boxes]
      unfold State.apply
      rw [performed]
      show s.delivered j ++ _ = if j = k then s.accepted k ++ [data] else s.accepted j
      by_cases here : j = k
      · subst here
        rw [free] at before
        simp only [if_true, full, ← before]
        simp
      · simp only [if_neg here]
        exact before
  | receive k capacity =>
    rcases (s.boxes k).receive_cases capacity with failed | none | ⟨data, after, full, taken, free⟩
    · exact unchanged k .error (Or.inl rfl) (congrArg (Prod.mk k) failed)
    · exact unchanged k .empty (Or.inr rfl) (congrArg (Prod.mk k) none)
    · have performed : s.perform (.receive k capacity) = (k, .delivered data, after) :=
        congrArg (Prod.mk k) taken
      have boxes := apply_boxes s (.receive k capacity) j
      rw [boxes]
      unfold State.apply
      rw [performed]
      show (if j = k then s.delivered k ++ [data] else s.delivered j) ++ _ = s.accepted j
      by_cases here : j = k
      · subst here
        rw [full] at before
        simp only [if_true, free, ← before]
        simp
      · simp only [if_neg here]
        exact before

theorem Matches.step (matched : Matches s) (taken : Ipc.step s label = some r) : Matches r := by
  obtain ⟨sync, stepped, same⟩ := Option.map_eq_some_iff.mp taken
  intro j
  cases calls : s.call label with
  | none =>
    rw [calls] at same
    cases same
    rw [channels_of_quiet calls stepped]
    exact matched j
  | some call =>
    rw [calls] at same
    cases same
    rw [apply_boxes]
    cases call with
    | send k data =>
      rw [sync_of_send calls stepped, send_channels]
      show _ = (if j = k then ((s.boxes k).send data).2 else s.boxes j).message
      by_cases here : j = k
      · subst here
        rw [if_pos rfl, Mailbox.send_message, ← matched j]
        by_cases refused : data.length = 0 ∨ 64 < data.length ∨
            (s.sync.channels j).isSome = true
        · rw [if_pos refused, if_neg fun both => both.2 refused]
        · rw [if_neg refused, if_pos ⟨rfl, refused⟩]
      · rw [if_neg here, if_neg fun both => here both.1]
        exact matched j
    | receive k capacity =>
      obtain ⟨t, received⟩ := sync_of_receive calls stepped
      rw [receive_channels received]
      show _ = (if j = k then ((s.boxes k).receive capacity).2 else s.boxes j).message
      by_cases here : j = k
      · subst here
        rw [if_pos rfl, Mailbox.receive_message, ← matched j]
        simp only [true_and]
      · rw [if_neg here, if_neg fun all => here all.1]
        exact matched j

theorem Conserved.step (conserved : Conserved s) (taken : Ipc.step s label = some r) :
    Conserved r := by
  obtain ⟨sync, _, same⟩ := Option.map_eq_some_iff.mp taken
  cases calls : s.call label with
  | none =>
    rw [calls] at same
    cases same
    exact conserved
  | some call =>
    rw [calls] at same
    cases same
    exact conserved.apply call

theorem perform_error {call : Call} (failed : (s.perform call).2.1 = .error) :
    (s.perform call).2.2 = s.boxes (s.perform call).1 := by
  cases call with
  | send k data =>
    rcases (s.boxes k).send_cases data with same | ⟨_, after, stored, _⟩
    · exact congrArg Prod.snd same
    · have outcome : ((s.boxes k).send data).1 = .error := failed
      rw [stored] at outcome
      cases outcome
  | receive k capacity =>
    rcases (s.boxes k).receive_cases capacity with same | same | ⟨data, after, _, taken, _⟩
    · exact congrArg Prod.snd same
    · exact congrArg Prod.snd same
    · have outcome : ((s.boxes k).receive capacity).1 = .error := failed
      rw [taken] at outcome
      cases outcome

end Runs

/-- In every run, on every channel, the messages that receives have returned, followed by the one
that is pending, are the messages that sends have stored, byte by byte and in order. A call that
fails leaves every mailbox as it is, and the mailboxes are the channels that the tasks see. -/
theorem run_mailboxes (values : Fin 64 → Nat) {s : State}
    (reached : Transition.Reachable (· = init values) step Transition.always s) :
    (∀ k, s.delivered k ++ (s.boxes k).message.toList = s.accepted k) ∧
    (∀ label call r, s.call label = some call → (s.perform call).2.1 = .error →
      step s label = some r → r.boxes = s.boxes) ∧
    ∀ k, s.sync.channels k = (s.boxes k).message := by
  have conserved : Conserved s := reached.invariant (fun s initial => initial ▸ fun _ => rfl)
    (fun s r label conserved _ taken => conserved.step taken)
  have matched : Matches s := reached.invariant (fun s initial => initial ▸ fun _ => rfl)
    (fun s r label matched _ taken => matched.step taken)
  refine ⟨conserved, ?_, matched⟩
  intro label call r calls failed taken
  obtain ⟨sync, _, same⟩ := Option.map_eq_some_iff.mp taken
  rw [calls] at same
  cases same
  funext j
  rw [apply_boxes, perform_error failed]
  split
  · rename_i here
    rw [here]
  · rfl

/-- Tasks 4 and 5 on CPUs 0 and 1. Task 5 waits for a message on channel 0, task 4 sends two and
a third one that is refused, and task 5 takes the first. -/
def exchange : List Sync.Label :=
  [.sched (.create false), .sched (.schedule 0), .sched (.create false), .sched (.schedule 1),
    .receive 1 0 8, .park 1, .sched (.schedule 1), .send 0 0 [1, 2], .unpark 5,
    .sched (.schedule 1), .resume 1, .retry 1, .send 0 0 [3], .send 0 0 [4]]

theorem run_mailboxes_exchange :
    ∃ s, Transition.run step (init fun _ => 0) exchange = some s ∧ s.delivered 0 = [[1, 2]] ∧
      (s.boxes 0).message = some [3] ∧ s.accepted 0 = [[1, 2], [3]] := by
  refine Transition.ends_imp (Q := fun s => s.delivered 0 = [[1, 2]] ∧
    (s.boxes 0).message = some [3]) (by decide +kernel) ?_
  rintro s ran ⟨delivered, message⟩
  have conserved := (run_mailboxes _ (.of_ran rfl ran)).1 0
  rw [delivered, message] at conserved
  exact ⟨delivered, message, conserved.symm⟩

end OsArmv8a.Ipc
