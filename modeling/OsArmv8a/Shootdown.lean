import OsArmv8a.MmLifecycle

/-! The TLB shootdown of `mmu_vmsa.c`: `mmu_context_shootdown` on one CPU and
`mmu_handle_shootdown_ipi` on the others. Every critical section, every TLB invalidation and
the sending of the SGI is one step. -/

set_option autoImplicit false

namespace OsArmv8a.Shootdown

open MmLifecycle.Lifecycle (cpuBit)

/-- Where a request is once it has read `active_cpu_mask`. -/
inductive Stage where
  | sampled
  | published
  /-- The requester has invalidated its own TLB. -/
  | flushed
  | waiting
  /-- The loop has read an empty pending mask. -/
  | leaving
  /-- The call has returned 1. -/
  | returned
  deriving DecidableEq, Repr

/-- Where a CPU is in `mmu_context_shootdown`. -/
inductive Request where
  | idle
  /-- In `spin_lock_irqsave(&mmu_shootdown_lock)`, with interrupts masked already. -/
  | spinning (mm : Nat)
  | locked (mm : Nat)
  | running (stage : Stage) (mm : Nat) (mask : BitVec 32)
  deriving DecidableEq, Repr

/-- Where a CPU is in `mmu_handle_shootdown_ipi`. -/
inductive Handler where
  | none
  | entered
  | read (asid : Nat)
  | flushed
  deriving DecidableEq, Repr

/-- `since c` are the ASID invalidations executed on any CPU since the last call of
`mmu_context_shootdown` on `c` started. -/
structure State where
  asid : Nat → Nat
  active : Nat → BitVec 32
  lock : Option (Fin 4)
  shootdownAsid : Nat
  pendingMask : BitVec 32
  sgi : Fin 4 → Bool
  request : Fin 4 → Request
  handler : Fin 4 → Handler
  since : Fin 4 → List (Fin 4 × Nat)

inductive Label where
  /-- A context is installed or given up somewhere. -/
  | lifecycle (mm : Nat) (mask : BitVec 32)
  | call (cpu : Fin 4) (mm : Nat)
  /-- The next step of the call a CPU is in. -/
  | advance (cpu : Fin 4)
  /-- An SGI is taken, whether or not one was sent. -/
  | interrupt (cpu : Fin 4)
  | handle (cpu : Fin 4)
  deriving DecidableEq, Repr

/-- `mm->active_cpu_mask & MMU_CPU_MASK_ALL & ~local_bit`. -/
def targetMask (cpu : Fin 4) (mask : BitVec 32) : BitVec 32 := mask &&& 0xf#32 &&& ~~~cpuBit cpu

/-- The CPU is between `spin_lock_irqsave` and `spin_unlock_irqrestore`, with interrupts masked. -/
@[grind] def Request.inside : Request → Bool
  | .idle => false
  | .running .returned _ _ => false
  | _ => true

namespace State

@[grind] def pending (s : State) (cpu : Fin 4) : Bool := s.pendingMask.getLsbD cpu.val

@[grind] def setRequest (s : State) (cpu : Fin 4) (request : Request) : State :=
  { s with request := fun other => if other = cpu then request else s.request other }

@[grind] def setHandler (s : State) (cpu : Fin 4) (handler : Handler) : State :=
  { s with handler := fun other => if other = cpu then handler else s.handler other }

/-- `mmu_tlbi_asid` on one CPU. -/
@[grind] def tlbi (s : State) (cpu : Fin 4) (asid : Nat) : State :=
  { s with since := fun requester => (cpu, asid) :: s.since requester }

/-- `mmu_shootdown_asid` and `mmu_shootdown_pending_mask` are set together. -/
@[grind] def publish (s : State) (asid : Nat) (mask : BitVec 32) : State :=
  { s with shootdownAsid := asid, pendingMask := mask }

/-- `gic_send_ipi`. -/
@[grind] def send (s : State) (mask : BitVec 32) : State :=
  { s with sgi := fun cpu => s.sgi cpu || mask.getLsbD cpu.val }

/-- A new call starts to be followed. -/
@[grind] def restart (s : State) (cpu : Fin 4) : State :=
  { s with since := fun other => if other = cpu then [] else s.since other }

@[grind] def acknowledge (s : State) (cpu : Fin 4) : State :=
  { s with sgi := fun other => if other = cpu then false else s.sgi other }

@[grind] def setActive (s : State) (mm : Nat) (mask : BitVec 32) : State :=
  { s with active := fun other => if other = mm then mask else s.active other }

@[grind] def setLock (s : State) (holder : Option (Fin 4)) : State := { s with lock := holder }

end State

/-- The next step of `mmu_context_shootdown`; a CPU that finds the lock taken keeps spinning. -/
def advance (s : State) (cpu : Fin 4) : Option State :=
  match s.request cpu with
  | .idle => none
  | .spinning mm =>
    if s.lock = none then some ((s.setLock (some cpu)).setRequest cpu (.locked mm)) else none
  | .locked mm => some (s.setRequest cpu (.running .sampled mm (s.active mm)))
  | .running .sampled mm mask =>
    some ((s.publish (s.asid mm) (targetMask cpu mask)).setRequest cpu (.running .published mm mask))
  | .running .published mm mask =>
    some ((s.tlbi cpu (s.asid mm)).setRequest cpu (.running .flushed mm mask))
  | .running .flushed mm mask =>
    some ((s.send (targetMask cpu mask)).setRequest cpu (.running .waiting mm mask))
  | .running .waiting mm mask =>
    if s.pendingMask = 0 then some (s.setRequest cpu (.running .leaving mm mask)) else some s
  | .running .leaving mm mask =>
    some ((s.setLock none).setRequest cpu (.running .returned mm mask))
  | .running .returned _ _ => none

/-- The next step of `mmu_handle_shootdown_ipi`. -/
def handle (s : State) (cpu : Fin 4) : Option State :=
  match s.handler cpu with
  | .none => none
  | .entered =>
    if s.pending cpu = true then some (s.setHandler cpu (.read s.shootdownAsid))
    else some (s.setHandler cpu .none)
  | .read asid => some ((s.tlbi cpu asid).setHandler cpu .flushed)
  | .flushed =>
    some ((s.publish s.shootdownAsid (s.pendingMask &&& ~~~cpuBit cpu)).setHandler cpu .none)

/-- A CPU that is inside a call has its interrupts masked, and one that runs the handler does
nothing else. -/
def step (s : State) : Label → Option State
  | .lifecycle mm mask => some (s.setActive mm mask)
  | .call cpu mm =>
    if (s.request cpu).inside = false ∧ s.handler cpu = .none then
      some ((s.restart cpu).setRequest cpu (.spinning mm))
    else none
  | .advance cpu => advance s cpu
  | .interrupt cpu =>
    if (s.request cpu).inside = false ∧ s.handler cpu = .none then
      some ((s.acknowledge cpu).setHandler cpu .entered)
    else none
  | .handle cpu => handle s cpu

/-- No request has been made; contexts may be active anywhere. -/
structure Start (s : State) : Prop where
  lock : s.lock = none
  pendingMask : s.pendingMask = 0
  request : ∀ cpu, s.request cpu = .idle
  handler : ∀ cpu, s.handler cpu = .none

/-- How far a request has come. -/
@[grind] def Stage.rank : Stage → Nat
  | .sampled => 0
  | .published => 1
  | .flushed => 2
  | .waiting => 3
  | .leaving => 4
  | .returned => 5

/-- The CPU holds `mmu_shootdown_lock`. -/
@[grind] def Request.holds : Request → Bool
  | .locked _ => true
  | .running stage _ _ => stage.rank < 5
  | _ => false

/-- What holds between steps. An acknowledgement that is still to come belongs to the request
that set the pending bit, because that request cannot end before it. -/
structure Invariant (s : State) : Prop where
  lock : ∀ c, s.lock = some c ↔ (s.request c).holds = true
  open' : ∀ k, s.pending k = true → ∃ c stage mm mask, s.request c = .running stage mm mask ∧
    1 ≤ stage.rank ∧ stage.rank ≤ 3 ∧ s.shootdownAsid = s.asid mm ∧
    (targetMask c mask).getLsbD k.val = true
  reading : ∀ k asid, s.handler k = .read asid → s.pending k = true ∧ asid = s.shootdownAsid
  acking : ∀ k, s.handler k = .flushed → s.pending k = true ∧
    ∀ c, s.lock = some c → (k, s.shootdownAsid) ∈ s.since c
  answered : ∀ c stage mm mask, s.request c = .running stage mm mask → 1 ≤ stage.rank →
    ∀ k, (targetMask c mask).getLsbD k.val = true →
      (s.pending k = true ∧ stage.rank ≤ 3) ∨ (k, s.asid mm) ∈ s.since c
  own : ∀ c stage mm mask, s.request c = .running stage mm mask → 2 ≤ stage.rank →
    (c, s.asid mm) ∈ s.since c

section Steps

variable {s t : State} {cpu : Fin 4}

theorem Start.invariant (start : Start s) : Invariant s := by
  constructor
  · intro c
    simp [start.lock, start.request c, Request.holds]
  · intro k pending
    simp [State.pending, start.pendingMask] at pending
  · intro k asid reading
    simp [start.handler k] at reading
  · intro k flushed
    simp [start.handler k] at flushed
  · intro c stage mm mask running
    simp [start.request c] at running
  · intro c stage mm mask running
    simp [start.request c] at running

theorem Request.not_holds_of_outside {request : Request} (outside : request.inside = false) :
    request.holds = false := by
  cases request with
  | running stage mm mask => cases stage <;> simp_all [Request.inside, Request.holds, Stage.rank]
  | _ => simp_all [Request.inside, Request.holds]

/-- The bits of a request that can still be pending belong to CPUs other than its own. -/
theorem targetMask_getLsbD (mask : BitVec 32) (k : Fin 4) :
    (targetMask cpu mask).getLsbD k.val = (mask.getLsbD k.val && !decide (k = cpu)) := by
  have small : k.val < 32 := by omega
  have low : (0xf#32).getLsbD k.val = true := by revert k; decide
  unfold targetMask
  rw [BitVec.getLsbD_and, BitVec.getLsbD_and, BitVec.getLsbD_not, MmLifecycle.getLsbD_cpuBit, low]
  simp [small, Fin.ext_iff]

theorem acked_getLsbD (mask : BitVec 32) (k : Fin 4) :
    (mask &&& ~~~cpuBit cpu).getLsbD k.val = (mask.getLsbD k.val && !decide (k = cpu)) := by
  have small : k.val < 32 := by omega
  rw [BitVec.getLsbD_and, BitVec.getLsbD_not, MmLifecycle.getLsbD_cpuBit]
  simp [small, Fin.ext_iff]

theorem call_invariant (inv : Invariant s) (outside : (s.request cpu).inside = false) (mm : Nat) :
    Invariant ((s.restart cpu).setRequest cpu (.spinning mm)) := by
  have free := Request.not_holds_of_outside outside
  obtain ⟨lock, open', reading, acking, answered, own⟩ := inv
  unfold State.restart State.setRequest
  constructor
  · grind
  · intro k pending
    obtain ⟨c, stage, mm', mask, request, started⟩ := open' k pending
    exact ⟨c, stage, mm', mask, by grind, started⟩
  · grind
  · grind
  · grind
  · grind

/-- A pending bit keeps its request inside the lock. -/
theorem Invariant.holder (inv : Invariant s) {k : Fin 4} (pending : s.pending k = true) :
    ∃ c stage mm mask, s.lock = some c ∧ s.request c = .running stage mm mask ∧ 1 ≤ stage.rank ∧
      stage.rank ≤ 3 ∧ s.shootdownAsid = s.asid mm ∧ (targetMask c mask).getLsbD k.val = true := by
  obtain ⟨c, stage, mm, mask, request, started, unfinished, asid⟩ := inv.open' k pending
  have held : s.lock = some c := by
    rw [inv.lock c, request]
    exact decide_eq_true (by omega)
  exact ⟨c, stage, mm, mask, held, request, started, unfinished, asid⟩

theorem tlbi_invariant (inv : Invariant s) (asid : Nat) : Invariant (s.tlbi cpu asid) := by
  obtain ⟨lock, open', reading, acking, answered, own⟩ := inv
  unfold State.tlbi
  constructor
  · exact lock
  · exact open'
  · exact reading
  · grind
  · grind
  · grind

variable {mm : Nat} {mask : BitVec 32}

section

variable (inv : Invariant s)

include inv

/-- Steps after the publication that touch nothing the other CPUs read. -/
theorem progress_invariant {before after : Stage}
    (request : s.request cpu = .running before mm mask) (later : after.rank = before.rank + 1)
    (inside : 1 ≤ before.rank) (short : after.rank ≤ 4) (flushed : (cpu, s.asid mm) ∈ s.since cpu)
    (drained : 4 ≤ after.rank → s.pendingMask = 0) :
    Invariant (s.setRequest cpu (.running after mm mask)) := by
  have quiet : 4 ≤ after.rank → ∀ k, s.pending k = false := by
    intro last k
    unfold State.pending
    rw [drained last]
    exact BitVec.getLsbD_zero
  obtain ⟨lock, open', reading, acking, answered, own⟩ := inv
  constructor
  · grind
  · intro k pending
    obtain ⟨c, stage, mm', mask', requestC, started, unfinished, asid⟩ := open' k pending
    by_cases here : c = cpu
    · subst here
      rw [request] at requestC
      cases requestC
      refine ⟨c, after, mm, mask, if_pos rfl, by omega, ?_, asid⟩
      by_contra last
      have none := quiet (by omega) k
      exact absurd (none.symm.trans pending) (by decide)
    · exact ⟨c, stage, mm', mask', (if_neg here).trans requestC, started, unfinished, asid⟩
  · exact reading
  · exact acking
  · intro c stage mm' mask' requestC started k target
    by_cases here : c = cpu
    · subst here
      cases (if_pos rfl).symm.trans requestC
      grind
    · exact answered c stage mm' mask' ((if_neg here).symm.trans requestC) started k target
  · grind

theorem lock_invariant (free : s.lock = none) (mm : Nat) :
    Invariant ((s.setLock (some cpu)).setRequest cpu (.locked mm)) := by
  have quiet : ∀ k, ¬ s.pending k = true := by
    intro k pending
    obtain ⟨c, _, _, _, held, _⟩ := inv.holder pending
    rw [free] at held
    cases held
  obtain ⟨lock, open', reading, acking, answered, own⟩ := inv
  unfold State.setLock State.setRequest
  constructor
  · grind
  · exact fun k pending => absurd pending (quiet k)
  · exact reading
  · exact fun k flushed => absurd (acking k flushed).1 (quiet k)
  · grind
  · grind

theorem sample_invariant (request : s.request cpu = .locked mm) :
    Invariant (s.setRequest cpu (.running .sampled mm mask)) := by
  obtain ⟨lock, open', reading, acking, answered, own⟩ := inv
  constructor
  · grind
  · intro k pending
    obtain ⟨c, stage, mm', mask', requestC, started⟩ := open' k pending
    exact ⟨c, stage, mm', mask', by grind, started⟩
  · exact reading
  · exact acking
  · grind
  · grind

/-- The publication finds no bit pending, so it overwrites nothing a handler has read. -/
theorem publish_invariant (request : s.request cpu = .running .sampled mm mask) :
    Invariant ((s.publish (s.asid mm) (targetMask cpu mask)).setRequest cpu
      (.running .published mm mask)) := by
  have held : s.lock = some cpu := (inv.lock cpu).mpr (by rw [request]; rfl)
  have quiet : ∀ k, ¬ s.pending k = true := by
    intro k pending
    obtain ⟨c, stage, mm', mask', heldC, requestC, started, _⟩ := inv.holder pending
    cases Option.some.inj (held.symm.trans heldC)
    rw [request] at requestC
    cases requestC
    exact absurd started (by decide)
  obtain ⟨lock, open', reading, acking, answered, own⟩ := inv
  unfold State.publish State.setRequest
  constructor
  · grind
  · exact fun k pending =>
      ⟨cpu, .published, mm, mask, if_pos rfl, by decide, by decide, rfl, pending⟩
  · exact fun k asid read => absurd (reading k asid read).1 (quiet k)
  · exact fun k flushed => absurd (acking k flushed).1 (quiet k)
  · intro c stage mm' mask' requestC started k target
    by_cases here : c = cpu
    · subst here
      cases (if_pos rfl).symm.trans requestC
      exact Or.inl ⟨target, by decide⟩
    · have old := answered c stage mm' mask' ((if_neg here).symm.trans requestC) started k target
      exact Or.inr (old.resolve_left fun pending => quiet k pending.1)
  · grind

theorem unlock_invariant (request : s.request cpu = .running .leaving mm mask) :
    Invariant ((s.setLock none).setRequest cpu (.running .returned mm mask)) := by
  have held : s.lock = some cpu := (inv.lock cpu).mpr (by rw [request]; rfl)
  have quiet : ∀ k, ¬ s.pending k = true := by
    intro k pending
    obtain ⟨c, stage, mm', mask', heldC, requestC, _, unfinished, _⟩ := inv.holder pending
    cases Option.some.inj (held.symm.trans heldC)
    rw [request] at requestC
    cases requestC
    exact absurd unfinished (by decide)
  obtain ⟨lock, open', reading, acking, answered, own⟩ := inv
  unfold State.setLock State.setRequest
  constructor
  · grind
  · exact fun k pending => absurd pending (quiet k)
  · exact reading
  · exact fun k flushed => absurd (acking k flushed).1 (quiet k)
  · grind
  · grind

theorem advance_invariant (taken : advance s cpu = some t) : Invariant t := by
  unfold advance at taken
  split at taken
  · cases taken
  · rename_i mm _
    obtain ⟨free, rfl⟩ := Transition.of_guard taken
    exact lock_invariant inv free mm
  · rename_i mm request
    cases taken
    exact sample_invariant inv request
  · rename_i mm mask request
    cases taken
    exact publish_invariant inv request
  · rename_i mm mask request
    cases taken
    exact progress_invariant (tlbi_invariant inv (s.asid mm)) request rfl (by decide) (by decide)
      List.mem_cons_self fun last => absurd last (by decide)
  · rename_i mm mask request
    cases taken
    have own := inv.own cpu .flushed mm mask request (by decide)
    have sent : Invariant (s.send (targetMask cpu mask)) :=
      ⟨inv.lock, inv.open', inv.reading, inv.acking, inv.answered, inv.own⟩
    exact progress_invariant sent request rfl (by decide) (by decide) own
      fun last => absurd last (by decide)
  · rename_i mm mask request
    split at taken
    · rename_i empty
      cases taken
      exact progress_invariant inv request rfl (by decide) (by decide)
        (inv.own cpu .waiting mm mask request (by decide)) fun _ => empty
    · cases taken
      exact inv
  · rename_i mm mask request
    cases taken
    exact unlock_invariant inv request
  · cases taken

/-- The acknowledgement clears the bit of the request whose ASID the handler invalidated. -/
theorem ack_invariant (handler : s.handler cpu = .flushed) :
    Invariant ((s.publish s.shootdownAsid (s.pendingMask &&& ~~~cpuBit cpu)).setHandler cpu .none) := by
  have bit : ∀ k, (s.publish s.shootdownAsid (s.pendingMask &&& ~~~cpuBit cpu)).pending k =
      (s.pending k && !decide (k = cpu)) := acked_getLsbD s.pendingMask
  have acked := inv.acking cpu handler
  have holder := inv.holder acked.1
  obtain ⟨lock, open', reading, acking, answered, own⟩ := inv
  have still : ∀ {k}, (s.publish s.shootdownAsid (s.pendingMask &&& ~~~cpuBit cpu)).pending k = true →
      s.pending k = true := by
    intro k pending
    rw [bit, Bool.and_eq_true] at pending
    exact pending.1
  constructor
  · exact lock
  · exact fun k pending => open' k (still pending)
  · intro k asid read
    have other : k ≠ cpu := by
      rintro rfl
      cases (if_pos rfl).symm.trans read
    have old := reading k asid ((if_neg other).symm.trans read)
    exact ⟨(bit k).trans (by simp [old.1, other]), old.2⟩
  · intro k flushed
    have other : k ≠ cpu := by
      rintro rfl
      cases (if_pos rfl).symm.trans flushed
    have old := acking k ((if_neg other).symm.trans flushed)
    exact ⟨(bit k).trans (by simp [old.1, other]), old.2⟩
  · intro c stage mm mask request started k target
    change s.request c = .running stage mm mask at request
    rcases answered c stage mm mask request started k target with ⟨pending, unfinished⟩ | done
    · by_cases here : k = cpu
      · -- The only open request is the one the handler answered.
        subst here
        have held : s.lock = some c := by
          rw [lock c, request]
          exact decide_eq_true (by omega)
        obtain ⟨c', stage', mm', mask', held', request', _, _, asid, _⟩ := holder
        cases Option.some.inj (held.symm.trans held')
        cases request.symm.trans request'
        exact Or.inr (asid ▸ acked.2 c held)
      · exact Or.inl ⟨(bit k).trans (by simp [pending, here]), unfinished⟩
    · exact Or.inr done
  · exact own

theorem handle_invariant (taken : handle s cpu = some t) : Invariant t := by
  unfold handle at taken
  split at taken
  · cases taken
  · split at taken
    · cases taken
      obtain ⟨lock, open', reading, acking, answered, own⟩ := inv
      unfold State.setHandler
      exact ⟨lock, open', by grind, by grind, answered, own⟩
    · cases taken
      obtain ⟨lock, open', reading, acking, answered, own⟩ := inv
      unfold State.setHandler
      exact ⟨lock, open', by grind, by grind, answered, own⟩
  · rename_i asid read
    cases taken
    have old := inv.reading cpu asid read
    have flushedTlb : Invariant (s.tlbi cpu asid) := tlbi_invariant inv asid
    obtain ⟨lock, open', reading, acking, answered, own⟩ := flushedTlb
    refine ⟨lock, open', by grind, ?_, answered, own⟩
    intro k flushed
    by_cases here : k = cpu
    · subst here
      exact ⟨old.1, fun c _ => old.2 ▸ List.mem_cons_self⟩
    · exact acking k ((if_neg here).symm.trans flushed)
  · rename_i flushed
    cases taken
    exact ack_invariant inv flushed

theorem step_invariant {label : Label} (taken : step s label = some t) : Invariant t := by
  cases label with
  | lifecycle mm mask =>
    cases taken
    exact ⟨inv.lock, inv.open', inv.reading, inv.acking, inv.answered, inv.own⟩
  | call cpu mm =>
    obtain ⟨⟨outside, _⟩, rfl⟩ := Transition.of_guard taken
    exact call_invariant inv outside mm
  | advance cpu => exact advance_invariant inv taken
  | interrupt cpu =>
    obtain ⟨_, rfl⟩ := Transition.of_guard taken
    obtain ⟨lock, open', reading, acking, answered, own⟩ := inv
    unfold State.acknowledge State.setHandler
    exact ⟨lock, open', by grind, by grind, answered, own⟩
  | handle cpu => exact handle_invariant inv taken

end

end Steps

/-- When `mmu_context_shootdown` has returned 1, its own CPU and every CPU of the mask it sampled
have invalidated the ASID since the call started. -/
theorem run_complete {s : State} (reached : Transition.Reachable Start step Transition.always s)
    {cpu k : Fin 4} {mm : Nat} {mask : BitVec 32}
    (returned : s.request cpu = .running .returned mm mask)
    (member : k = cpu ∨ mask.getLsbD k.val = true) : (k, s.asid mm) ∈ s.since cpu := by
  have inv : Invariant s := by
    apply reached.invariant
    · exact fun start first => first.invariant
    · exact fun before after label inv _ taken => step_invariant inv taken
  by_cases own : k = cpu
  · subst own
    exact inv.own k .returned mm mask returned (by decide)
  · have target : (targetMask cpu mask).getLsbD k.val = true := by
      rw [targetMask_getLsbD, member.resolve_left own]
      simp [own]
    have answer := inv.answered cpu .returned mm mask returned (by decide) k target
    exact answer.resolve_left fun open' => absurd open'.2 (by decide)

/-- Two contexts, each active on the other CPU as well. -/
def twoContexts : State :=
  { asid := fun mm => mm + 10, active := fun _ => 3#32, lock := none, shootdownAsid := 0,
    pendingMask := 0, sgi := fun _ => false, request := fun _ => .idle, handler := fun _ => .none,
    since := fun _ => [] }

theorem twoContexts_start : Start twoContexts := ⟨rfl, rfl, fun _ => rfl, fun _ => rfl⟩

/-- One request on CPU 0 that CPU 1 answers. -/
def oneRequest : List Label :=
  [.call 0 1, .advance 0, .advance 0, .advance 0, .interrupt 1, .handle 1, .advance 0, .handle 1,
    .advance 0, .handle 1, .advance 0, .advance 0]

theorem run_complete_remote :
    ∃ s, Transition.run step twoContexts oneRequest = some s ∧ (1, 11) ∈ s.since 0 := by
  refine Transition.ends_imp (Q := fun s => s.request 0 = .running .returned 1 3#32 ∧ s.asid 1 = 11)
    (by decide) ?_
  rintro s ran ⟨returned, asid⟩
  exact asid ▸ run_complete (.of_ran twoContexts_start ran) returned (Or.inr (by decide))

section Progress

/-- A request that has sampled its mask and not published it yet will wait for the CPU. -/
@[grind] def Request.aims (requester k : Fin 4) : Request → Bool
  | .running .sampled _ mask => (targetMask requester mask).getLsbD k.val
  | _ => false

/-- The next step of the request reads a mask that contains the CPU. -/
@[grind] def Request.samples (active : Nat → BitVec 32) (requester k : Fin 4) : Request → Bool
  | .locked mm => (targetMask requester (active mm)).getLsbD k.val
  | _ => false

/-- The request has published its mask and sends the SGI later. -/
@[grind] def Request.sends : Request → Bool
  | .running .published _ _ | .running .flushed _ _ => true
  | _ => false

/-- No CPU starts a call while another request waits or is about to wait for it, and no request
samples a CPU that is inside a call of its own. -/
def Apart (s : State) : Label → Prop
  | .call cpu _ => s.pending cpu = false ∧ ∀ c, (s.request c).aims c cpu = false
  | .advance cpu => ∀ k, (s.request cpu).samples s.active cpu k = true → (s.request k).inside = false
  | _ => True

instance (s : State) : (label : Label) → Decidable (Apart s label)
  | .call cpu _ => inferInstanceAs (Decidable (_ ∧ ∀ c, (s.request c).aims c cpu = false))
  | .advance cpu => inferInstanceAs (Decidable (∀ k,
      (s.request cpu).samples s.active cpu k = true → (s.request k).inside = false))
  | .lifecycle _ _ | .interrupt _ | .handle _ => isTrue trivial

/-- A CPU whose bit is pending is outside every call, so its interrupts are not masked, and it is
in the handler, has the SGI pending, or will be sent it. -/
structure Responsive (s : State) : Prop where
  waits : ∀ c mm mask k, s.request c = .running .waiting mm mask → s.pending k = true →
    (s.request k).inside = false
  served : ∀ k, s.pending k = true → (s.request k).inside = false ∧
    (s.handler k ≠ .none ∨ s.sgi k = true ∨ ∃ c, (s.request c).sends = true)

/-- What the condition keeps true. -/
structure Calm (s : State) : Prop where
  inv : Invariant s
  aimed : ∀ c k, (s.request c).aims c k = true → (s.request k).inside = false
  outside : ∀ k, s.pending k = true → (s.request k).inside = false
  delivered : ∀ k, s.pending k = true →
    s.handler k ≠ .none ∨ s.sgi k = true ∨ ∃ c, (s.request c).sends = true

variable {s t : State} {cpu : Fin 4}
variable {request : Request}

@[grind →] theorem Request.inside_of_sends (sends : request.sends = true) :
    request.inside = true := by
  unfold Request.sends at sends
  split at sends <;> first | rfl | cases sends

theorem Start.calm (start : Start s) : Calm s := by
  have quiet : ∀ k, s.pending k = false := by
    intro k
    unfold State.pending
    rw [start.pendingMask]
    exact BitVec.getLsbD_zero
  refine ⟨start.invariant, ?_, ?_, ?_⟩
  · intro c k aims
    rw [start.request c] at aims
    cases aims
  · exact fun k pending => absurd ((quiet k).symm.trans pending) (by decide)
  · exact fun k pending => absurd ((quiet k).symm.trans pending) (by decide)

theorem call_calm (calm : Calm s) (outside : (s.request cpu).inside = false) (mm : Nat)
    (apart : Apart s (.call cpu mm)) : Calm ((s.restart cpu).setRequest cpu (.spinning mm)) := by
  have after := call_invariant calm.inv outside mm
  obtain ⟨unasked, unaimed⟩ := apart
  obtain ⟨_, aimed, free, delivered⟩ := calm
  refine ⟨after, ?_, ?_, ?_⟩
  · unfold State.restart State.setRequest
    grind
  · unfold State.restart State.setRequest
    grind
  · intro k pending
    unfold State.restart State.setRequest
    grind

/-- A step that opens no request, publishes nothing and lets no CPU into a call. -/
theorem Calm.carry (calm : Calm s) (after : Invariant t)
    (asked : ∀ k, t.pending k = true → s.pending k = true)
    (aims : ∀ c k, (t.request c).aims c k = true → (s.request c).aims c k = true)
    (inside : ∀ k, (s.request k).inside = false → (t.request k).inside = false)
    (delivered : ∀ k, t.pending k = true →
      t.handler k ≠ .none ∨ t.sgi k = true ∨ ∃ c, (t.request c).sends = true) : Calm t where
  inv := after
  aimed c k aim := inside k (calm.aimed c k (aims c k aim))
  outside k pending := inside k (calm.outside k (asked k pending))
  delivered := delivered

/-- A request that goes on inside its call, with no SGI still to send for a pending bit. -/
theorem Calm.proceed (calm : Calm s) (after : Invariant t)
    (moved : t.request = (s.setRequest cpu request).request)
    (frame : (t.pendingMask, t.sgi, t.handler) = (s.pendingMask, s.sgi, s.handler))
    (inside : (s.request cpu).inside = true) (aims : ∀ k, request.aims cpu k = false)
    (sent : (s.request cpu).sends = true → request.sends = true) : Calm t := by
  obtain ⟨mask, sgi, handler⟩ : t.pendingMask = s.pendingMask ∧ t.sgi = s.sgi ∧
      t.handler = s.handler := by
    simpa using frame
  have pendings : ∀ k, t.pending k = s.pending k := by
    intro k
    rw [State.pending, State.pending, mask]
  apply calm.carry after
  · intro k pending
    rwa [pendings k] at pending
  · grind
  · grind
  · intro k pending
    have old := calm.delivered k ((pendings k).symm.trans pending)
    rw [moved, sgi, handler]
    unfold State.setRequest
    grind

variable {mm : Nat}

/-- The mask is sampled: the condition keeps its CPUs out of calls. -/
theorem sample_calm (calm : Calm s) (apart : Apart s (.advance cpu))
    (request : s.request cpu = .locked mm)
    (after : Invariant (s.setRequest cpu (.running .sampled mm (s.active mm)))) :
    Calm (s.setRequest cpu (.running .sampled mm (s.active mm))) := by
  have apart : ∀ k, (s.request cpu).samples s.active cpu k = true → (s.request k).inside = false :=
    apart
  obtain ⟨_, aimed, outside, delivered⟩ := calm
  refine ⟨after, ?_, ?_, ?_⟩
  · grind [targetMask_getLsbD]
  · grind
  · intro k pending
    unfold State.setRequest
    grind

variable {mask : BitVec 32}

/-- The bits that become pending are those the request aimed at. -/
theorem publish_calm (calm : Calm s) (request : s.request cpu = .running .sampled mm mask)
    (after : Invariant ((s.publish (s.asid mm) (targetMask cpu mask)).setRequest cpu
      (.running .published mm mask))) :
    Calm ((s.publish (s.asid mm) (targetMask cpu mask)).setRequest cpu
      (.running .published mm mask)) := by
  obtain ⟨_, aimed, outside, delivered⟩ := calm
  refine ⟨after, ?_, ?_, ?_⟩
  · unfold State.publish State.setRequest
    grind
  · intro k pending
    unfold State.publish State.setRequest
    grind
  · exact fun k _ => Or.inr (Or.inr ⟨cpu, by simp [State.setRequest, Request.sends]⟩)

/-- Every pending bit belongs to the holder of the lock, which sends the SGI to it. -/
theorem send_calm (calm : Calm s) (request : s.request cpu = .running .flushed mm mask)
    (after : Invariant ((s.send (targetMask cpu mask)).setRequest cpu (.running .waiting mm mask)))
    : Calm ((s.send (targetMask cpu mask)).setRequest cpu (.running .waiting mm mask)) := by
  apply calm.carry after (fun _ pending => pending)
  · unfold State.send State.setRequest
    grind
  · unfold State.send State.setRequest
    grind
  · intro k pending
    obtain ⟨c, stage, mm', mask', held, running, _, _, _, target⟩ := calm.inv.holder pending
    have mine : c = cpu := by
      have lock := calm.inv.lock
      grind
    subst mine
    cases request.symm.trans running
    refine Or.inr (Or.inl ?_)
    show (s.sgi k || (targetMask c mask).getLsbD k.val) = true
    rw [target, Bool.or_true]

theorem advance_calm (calm : Calm s) (apart : Apart s (.advance cpu))
    (taken : advance s cpu = some t) : Calm t := by
  have after := advance_invariant calm.inv taken
  unfold advance at taken
  split at taken
  · cases taken
  · rename_i mm request
    obtain ⟨_, rfl⟩ := Transition.of_guard taken
    exact calm.proceed after rfl rfl (by simp [request, Request.inside]) (fun _ => rfl)
      (by simp [request, Request.sends])
  · rename_i mm request
    cases taken
    exact sample_calm calm apart request after
  · rename_i mm mask request
    cases taken
    exact publish_calm calm request after
  · rename_i mm mask request
    cases taken
    exact calm.proceed after rfl rfl (by simp [request, Request.inside]) (fun _ => rfl)
      (fun _ => rfl)
  · rename_i mm mask request
    cases taken
    exact send_calm calm request after
  · rename_i mm mask request
    split at taken
    · cases taken
      exact calm.proceed after rfl rfl (by simp [request, Request.inside]) (fun _ => rfl)
        (by simp [request, Request.sends])
    · cases taken
      exact calm
  · rename_i mm mask request
    cases taken
    exact calm.proceed after rfl rfl (by simp [request, Request.inside]) (fun _ => rfl)
      (by simp [request, Request.sends])
  · cases taken

theorem handle_calm (calm : Calm s) (taken : handle s cpu = some t) : Calm t := by
  have after := handle_invariant calm.inv taken
  have delivered := calm.delivered
  unfold handle at taken
  split at taken
  · cases taken
  · split at taken
    · cases taken
      exact calm.carry after (fun _ pending => pending) (fun _ _ aims => aims)
        (fun _ inside => inside) (by unfold State.setHandler; grind)
    · cases taken
      exact calm.carry after (fun _ pending => pending) (fun _ _ aims => aims)
        (fun _ inside => inside) (by unfold State.setHandler; grind)
  · cases taken
    exact calm.carry after (fun _ pending => pending) (fun _ _ aims => aims)
      (fun _ inside => inside) (by unfold State.setHandler State.tlbi; grind)
  · cases taken
    have cleared : ∀ k, (s.pendingMask &&& ~~~cpuBit cpu).getLsbD k.val = true →
        s.pending k = true ∧ k ≠ cpu := by
      intro k pending
      rw [acked_getLsbD] at pending
      simpa [State.pending] using pending
    apply calm.carry after (fun k pending => (cleared k pending).1) (fun _ _ aims => aims)
      (fun _ inside => inside)
    intro k pending
    unfold State.setHandler State.publish
    grind

theorem step_calm {label : Label} (calm : Calm s) (apart : Apart s label)
    (taken : step s label = some t) : Calm t := by
  have after := step_invariant calm.inv taken
  cases label with
  | lifecycle mm mask =>
    cases taken
    exact calm.carry after (fun _ pending => pending) (fun _ _ aims => aims)
      (fun _ inside => inside) calm.delivered
  | call cpu mm =>
    obtain ⟨⟨outside, _⟩, rfl⟩ := Transition.of_guard taken
    exact call_calm calm outside mm apart
  | advance cpu => exact advance_calm calm apart taken
  | interrupt cpu =>
    obtain ⟨_, rfl⟩ := Transition.of_guard taken
    have delivered := calm.delivered
    exact calm.carry after (fun _ pending => pending) (fun _ _ aims => aims)
      (fun _ inside => inside) (by unfold State.setHandler State.acknowledge; grind)
  | handle cpu => exact handle_calm calm taken

end Progress

/-- As long as no CPU calls `mmu_context_shootdown` while another request counts on it, a CPU whose
bit is pending is never inside a call, so it is in the handler or can take the SGI. -/
theorem run_responsive {s : State} (reached : Transition.Reachable Start step Apart s) :
    Responsive s := by
  have calm : Calm s := by
    apply reached.invariant
    · exact fun start first => first.calm
    · exact fun before after label calm apart taken => step_calm calm apart taken
  exact ⟨fun _ _ _ k _ pending => calm.outside k pending,
    fun k pending => ⟨calm.outside k pending, calm.delivered k pending⟩⟩

theorem run_responsive_remote :
    ∃ s, Transition.run step twoContexts (oneRequest.take 7) = some s ∧ s.pending 1 = true ∧
      Responsive s := by
  have guarded : Transition.Guarded step Apart twoContexts (oneRequest.take 7) := by decide
  refine Transition.ends_imp (Q := fun s => s.pending 1 = true) (by decide) ?_
  intro s ran pending
  exact ⟨pending, run_responsive (.of_run _ (.start twoContexts_start) guarded ran)⟩

/-- CPU 1 calls while CPU 0 is on its way to waiting for it. -/
def crossedRequests : List Label :=
  [.call 0 1, .advance 0, .call 1 2, .advance 0, .advance 0, .advance 0, .advance 0]

/-- CPU 0 waits for the acknowledgement of CPU 1, which spins for the lock of CPU 0 with its
interrupts masked: neither can take another step. -/
theorem run_responsive_crossed :
    ∃ s, Transition.Reachable Start step Transition.always s ∧
      s.request 0 = .running .waiting 1 3#32 ∧ s.pending 1 = true ∧ s.request 1 = .spinning 2 ∧
      step s (.advance 0) = some s ∧ step s (.advance 1) = none ∧ step s (.interrupt 1) = none ∧
      ¬ Responsive s := by
  obtain ⟨s, ran, waiting, mask, spinning, held⟩ : ∃ s,
      Transition.run step twoContexts crossedRequests = some s ∧
        s.request 0 = .running .waiting 1 3#32 ∧ s.pendingMask = 2#32 ∧ s.request 1 = .spinning 2 ∧
        s.lock = some 0 := by
    decide
  have pending : s.pending 1 = true := by
    rw [State.pending, mask]
    decide
  refine ⟨s, .of_ran twoContexts_start ran, waiting, pending, spinning, ?_, ?_, ?_, ?_⟩
  · simp [step, advance, waiting, mask]
  · simp [step, advance, spinning, held]
  · simp [step, spinning, Request.inside]
  · intro responsive
    have outside := responsive.waits 0 1 3#32 1 waiting pending
    simp [spinning, Request.inside] at outside

end OsArmv8a.Shootdown
