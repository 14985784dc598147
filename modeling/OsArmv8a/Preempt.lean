import OsArmv8a.Lib.SlotTable
import OsArmv8a.Lib.Transition

/-! `spin_lock_irqsave` and `spin_unlock_irqrestore` on four CPUs, with the interrupt mask, the
`preempt_count` of the tasks, and `schedule`, which holds `sched_lock` across `switch_context`: the
task that is switched to releases it. -/

set_option autoImplicit false

namespace OsArmv8a.Preempt

open Function (update)

abbrev Cpu := Fin 4

inductive Lock where
  | sched
  | other (k : Nat)
  deriving DecidableEq

/-- An open section: its lock, the interrupt mask that is restored at its end, and whether the task
counted it. -/
structure Section where
  lock : Lock
  saved : Bool
  counted : Bool

/-- A new task releases the `sched_lock` of the task before it and unmasks interrupts. -/
def trampoline : Section := ⟨.sched, false, false⟩

/-- The open sections of each CPU, innermost first, and the one in which a task that is on no CPU
waits. Tasks are numbered in the order of their creation. -/
structure State where
  word : Lock → Bool
  masked : Cpu → Bool
  current : Cpu → Nat
  preemptCount : Nat → Nat
  sections : Cpu → List Section
  suspended : Nat → Section

inductive Label where
  | enter (c : Cpu) (l : Lock)
  | leave (c : Cpu)
  | switch (c : Cpu) (next : Nat)
  | exception (c : Cpu)
  | unmask (c : Cpu)

def step (s : State) : Label → Option State
  -- `spin_lock_irqsave`; a CPU that spins has masked its interrupts and does nothing else
  | .enter c l =>
    if s.word l = false ∧ ∀ x ∈ (s.sections c).head?, x.counted = true then
      some { s with
        word := update s.word l true
        masked := update s.masked c true
        preemptCount := update s.preemptCount (s.current c) (s.preemptCount (s.current c) + 1)
        sections := update s.sections c (⟨l, s.masked c, true⟩ :: s.sections c) }
    else none
  -- `spin_unlock_irqrestore` or the trampoline; `sched_preempt_enable` counts in the task that is
  -- current by now
  | .leave c =>
    match s.sections c with
    | [] => none
    | x :: rest =>
      some { s with
        word := update s.word x.lock false
        masked := update s.masked c x.saved
        preemptCount := update s.preemptCount (s.current c)
          (s.preemptCount (s.current c) - if x.counted = true then 1 else 0)
        sections := update s.sections c rest }
  -- `schedule`, which is called outside all sections, from `arch_set_current_task` to the end of
  -- `switch_context`
  | .switch c next =>
    match s.sections c with
    | [x] =>
      if x.lock = .sched ∧ x.counted = true then
        some { s with
          current := update s.current c next
          sections := update s.sections c [s.suspended next]
          suspended := update s.suspended (s.current c) x }
      else none
    | _ => none
  | .exception c =>
    if s.masked c = false then some { s with masked := update s.masked c true } else none
  -- the `eret` of a handler, and `arch_local_irq_enable`
  | .unmask c =>
    if s.sections c = [] then some { s with masked := update s.masked c false } else none

/-- A task that is switched to is on no CPU. -/
def Apart (s : State) : Label → Prop
  | .switch _ next => ∀ d, s.current d ≠ next
  | _ => True

instance (s : State) (label : Label) : Decidable (Apart s label) := by
  unfold Apart
  cases label <;> infer_instance

/-- The idle tasks run, outside all sections. -/
def init : State :=
  { word := fun _ => false, masked := fun _ => false, current := fun c => c.val
    preemptCount := fun _ => 0, sections := fun _ => [], suspended := fun _ => trampoline }

/-- Only the outermost section may restore an open mask. -/
def Nested (sections : List Section) : Prop :=
  sections.Pairwise fun inner outer => inner.saved = true ∧ inner.lock ≠ outer.lock

structure Inv (owner : Lock → Option Cpu) (s : State) : Prop where
  apart : Function.Injective s.current
  word : ∀ l, s.word l = (owner l).isSome
  owned : ∀ c l, l ∈ (s.sections c).map (·.lock) ↔ owner l = some c
  nested : ∀ c, Nested (s.sections c)
  masked : ∀ c, s.masked c = false → s.sections c = []
  running : ∀ c, s.preemptCount (s.current c) = (s.sections c).countP (·.counted)
  waiting : ∀ t, (∀ c, s.current c ≠ t) → (s.suspended t).lock = .sched ∧
    s.preemptCount t = [s.suspended t].countP (·.counted)

section Steps

variable {owner : Lock → Option Cpu} {s r : State} {c : Cpu}

/-- A CPU opens or closes a section. -/
theorem Inv.change (inv : Inv owner s) {l : Lock} {o : Option Cpu} {mask : Bool}
    {count : Nat} {now : List Section}
    (others : ∀ d, d ≠ c → owner l ≠ some d ∧ o ≠ some d)
    (owned : ∀ k, k ∈ now.map (·.lock) ↔ update owner l o k = some c) (nested : Nested now)
    (masked : mask = false → now = []) (counted : count = now.countP (·.counted)) :
    Inv (update owner l o) { s with
      word := update s.word l o.isSome
      masked := update s.masked c mask
      preemptCount := update s.preemptCount (s.current c) count
      sections := update s.sections c now } := by
  refine ⟨inv.apart, fun k => ?_, fun d k => ?_, fun d => ?_, fun d => ?_, fun d => ?_,
    fun t off => ?_⟩
  · by_cases same : k = l
    · simp [same]
    · simpa [same] using inv.word k
  · by_cases same : d = c
    · simpa [same] using owned k
    · by_cases lock : k = l
      · simpa [same, lock, others d same] using inv.owned d l
      · simpa [same, lock] using inv.owned d k
  · by_cases same : d = c
    · simpa [same] using nested
    · simpa [same] using inv.nested d
  · by_cases same : d = c
    · simpa [same] using masked
    · simpa [same] using inv.masked d
  · by_cases same : d = c
    · simpa [same] using counted
    · simpa [same, inv.apart.ne same] using inv.running d
  · simpa [Ne.symm (off c)] using inv.waiting t off

theorem Inv.enter (inv : Inv owner s) {l : Lock} (taken : step s (.enter c l) = some r) :
    ∃ owner, Inv owner r := by
  obtain ⟨⟨free, -⟩, rfl⟩ := Transition.of_guard taken
  have unowned : owner l = none := by simpa [free] using inv.word l
  refine ⟨_, inv.change (l := l) (o := some c) ?_ ?_ ?_ nofun (by simp [inv.running])⟩
  · exact fun d other => ⟨by simp [unowned], by simpa using other.symm⟩
  · intro k
    by_cases lock : k = l
    · simp [lock]
    · simpa [lock] using inv.owned c k
  · refine List.pairwise_cons.mpr ⟨fun x member => ⟨?_, ?_⟩, inv.nested c⟩
    · cases mask : s.masked c with
      | false => cases inv.masked c mask ▸ member
      | true => rfl
    · rintro rfl
      cases unowned.symm.trans ((inv.owned c _).mp (List.mem_map_of_mem member))

theorem Inv.leave (inv : Inv owner s) (taken : step s (.leave c) = some r) :
    ∃ owner, Inv owner r := by
  simp only [step] at taken
  split at taken
  · cases taken
  · rename_i x rest top
    cases taken
    obtain ⟨first, nested⟩ := List.pairwise_cons.mp (top ▸ inv.nested c)
    have mine : owner x.lock = some c := (inv.owned c x.lock).mp (by simp [top])
    refine ⟨_, inv.change (l := x.lock) (o := none) ?_ ?_ nested ?_ ?_⟩
    · exact fun d other => ⟨by simpa [mine] using other.symm, nofun⟩
    · intro k
      by_cases lock : k = x.lock
      · simpa [lock] using fun y member => (first y member).2.symm
      · simpa [lock, top] using inv.owned c k
    · intro unmasked
      refine List.eq_nil_iff_forall_not_mem.mpr fun y member => ?_
      cases unmasked.symm.trans (first y member).1
    · have counted := inv.running c
      rw [top, List.countP_cons] at counted
      omega

theorem Inv.switch (inv : Inv owner s) {next : Nat} (off : ∀ d, s.current d ≠ next)
    (taken : step s (.switch c next) = some r) : Inv owner r := by
  simp only [step] at taken
  split at taken
  · rename_i x only
    obtain ⟨⟨sched, counted⟩, rfl⟩ := Transition.of_guard taken
    obtain ⟨lock, count⟩ := inv.waiting next off
    refine ⟨?_, inv.word, ?_, ?_, ?_, ?_, ?_⟩
    · intro d e
      by_cases first : d = c <;> by_cases second : e = c
      · exact fun _ => first.trans second.symm
      · simpa [first, second] using fun same => absurd same.symm (off e)
      · simpa [first, second] using fun same => absurd same (off d)
      · simpa [first, second] using fun same => inv.apart same
    · intro d l
      by_cases same : d = c
      -- both tasks have `sched_lock` to release and nothing else
      · simpa [same, lock, only, sched] using inv.owned c l
      · simpa [same] using inv.owned d l
    · intro d
      by_cases same : d = c
      · simp [same, Nested]
      · simpa [same] using inv.nested d
    · intro d
      by_cases same : d = c
      · simpa [same, only] using inv.masked c
      · simpa [same] using inv.masked d
    · intro d
      by_cases same : d = c
      · simpa [same] using count
      · simpa [same] using inv.running d
    · intro t away
      by_cases left : t = s.current c
      · simpa [left, sched, only] using inv.running c
      · have before : ∀ d, s.current d ≠ t := by
          intro d same
          by_cases here : d = c
          · exact left (here ▸ same.symm)
          · exact away d (by simpa [here] using same)
        simpa [left] using inv.waiting t before
  · cases taken

theorem Inv.mask (inv : Inv owner s) {mask : Bool} (safe : mask = false → s.sections c = []) :
    Inv owner { s with masked := update s.masked c mask } := by
  refine ⟨inv.apart, inv.word, inv.owned, inv.nested, fun d => ?_, inv.running, inv.waiting⟩
  by_cases same : d = c
  · simpa [same] using safe
  · simpa [same] using inv.masked d

theorem Inv.step {label : Label} (inv : Inv owner s) (apart : Apart s label)
    (taken : step s label = some r) : ∃ owner, Inv owner r := by
  cases label with
  | enter c l => exact inv.enter taken
  | leave c => exact inv.leave taken
  | switch c next => exact ⟨owner, inv.switch apart taken⟩
  | exception c =>
    obtain ⟨-, rfl⟩ := Transition.of_guard taken
    exact ⟨owner, inv.mask nofun⟩
  | unmask c =>
    obtain ⟨outside, rfl⟩ := Transition.of_guard taken
    exact ⟨owner, inv.mask fun _ => outside⟩

theorem init_inv : Inv (fun _ => none) init where
  apart _ _ same := Fin.ext same
  word _ := rfl
  owned _ _ := by simp [init]
  nested _ := List.Pairwise.nil
  masked _ _ := rfl
  running _ := rfl
  waiting _ _ := ⟨rfl, rfl⟩

end Steps

/-- Under any interleaving two CPUs are never in sections of one lock, though another task releases
`sched_lock` than took it; a CPU that takes interrupts is in no section, and its task has
`preempt_count` zero; and every count is that of the task's open sections. -/
theorem run_sections {s : State} (reached : Transition.Reachable (· = init) step Apart s) :
    (∀ c d, ∀ x ∈ s.sections c, ∀ y ∈ s.sections d, x.lock = y.lock → c = d) ∧
    (∀ c, s.masked c = false → s.sections c = [] ∧ s.preemptCount (s.current c) = 0) ∧
    (∀ c, s.preemptCount (s.current c) = (s.sections c).countP (·.counted)) ∧
    ∀ t, (∀ c, s.current c ≠ t) → s.preemptCount t = if (s.suspended t).counted = true then 1 else 0 := by
  obtain ⟨owner, inv⟩ : ∃ owner, Inv owner s := by
    apply reached.invariant
    · exact fun start initial => ⟨_, initial ▸ init_inv⟩
    · exact fun before after label ⟨_, inv⟩ apart taken => inv.step apart taken
  refine ⟨fun c d x first y second same => ?_, fun c unmasked => ?_, inv.running, fun t off => ?_⟩
  · have mine := (inv.owned c _).mp (List.mem_map_of_mem first)
    have also := (inv.owned d _).mp (List.mem_map_of_mem second)
    exact Option.some.inj (mine.symm.trans (same ▸ also))
  · have none := inv.masked c unmasked
    exact ⟨none, (inv.running c).trans (none ▸ rfl)⟩
  · simpa [List.countP_cons] using (inv.waiting t off).2

/-- CPU 0 goes from its idle task to the new task 4, is interrupted there, and goes back. -/
def roundTrip : List Label :=
  [.enter 0 .sched, .switch 0 4, .leave 0, .exception 0, .enter 0 .sched, .switch 0 0, .leave 0]

theorem run_sections_roundTrip : ∃ s, Transition.run step init roundTrip = some s ∧
    s.preemptCount 4 = 1 ∧ s.masked 0 = false ∧ s.preemptCount (s.current 0) = 0 := by
  have guarded : Transition.Guarded step Apart init roundTrip := by decide
  refine Transition.ends_imp (Q := fun s => s.preemptCount 4 = 1 ∧ s.masked 0 = false)
    (by decide) ?_
  rintro s ran ⟨away, unmasked⟩
  have sections := run_sections (.of_run _ (.start rfl) guarded ran)
  exact ⟨away, unmasked, (sections.2.1 0 unmasked).2⟩

end OsArmv8a.Preempt
