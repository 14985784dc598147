import Mathlib

set_option autoImplicit false

namespace Transition

universe u v

variable {σ : Type u} {ℓ : Type v}

/-- States reached from an initial state by steps that each meet `cond` in the
state they are taken from. A label that is not enabled has no successor. -/
inductive Reachable (init : σ → Prop) (step : σ → ℓ → Option σ)
    (cond : σ → ℓ → Prop) : σ → Prop
  | start {s : σ} (initial : init s) : Reachable init step cond s
  | next {s t : σ} {label : ℓ} (before : Reachable init step cond s)
      (meets : cond s label) (taken : step s label = some t) :
      Reachable init step cond t

/-- The condition every step meets. -/
def always (_ : σ) (_ : ℓ) : Prop := True

variable {init : σ → Prop} {step : σ → ℓ → Option σ} {cond : σ → ℓ → Prop} {s : σ}

theorem Reachable.invariant {inv : σ → Prop} (base : ∀ s, init s → inv s)
    (preserved : ∀ s t label, inv s → cond s label → step s label = some t → inv t)
    {s : σ} (reached : Reachable init step cond s) : inv s := by
  induction reached with
  | start initial => exact base _ initial
  | next _ meets taken ih => exact preserved _ _ _ ih meets taken

/-- A step that is taken has met its guard. -/
theorem of_guard {guard : Prop} [Decidable guard] {t : σ}
    (taken : (if guard then some s else none) = some t) : guard ∧ s = t := by
  obtain ⟨meets, same⟩ := Option.ite_none_right_eq_some.mp taken
  exact ⟨meets, Option.some.inj same⟩

/-- Executes a list of labels in order. -/
def run (step : σ → ℓ → Option σ) : σ → List ℓ → Option σ
  | s, [] => some s
  | s, label :: rest => (step s label).bind fun t => run step t rest

/-- Every label of the list meets `cond` in the state it is executed from. -/
def Guarded (step : σ → ℓ → Option σ) (cond : σ → ℓ → Prop) : σ → List ℓ → Prop
  | _, [] => True
  | s, label :: rest => cond s label ∧ ∀ t, step s label = some t → Guarded step cond t rest

theorem guarded_cons_some {t : σ} {label : ℓ} {rest : List ℓ} (taken : step s label = some t) :
    Guarded step cond s (label :: rest) ↔ cond s label ∧ Guarded step cond t rest := by
  constructor
  · intro guarded
    exact ⟨guarded.1, guarded.2 t taken⟩
  · intro guarded
    apply And.intro guarded.1
    intro next same
    cases Option.some.inj (taken.symm.trans same)
    exact guarded.2

theorem guarded_cons_none {label : ℓ} {rest : List ℓ} (stuck : step s label = none) :
    Guarded step cond s (label :: rest) ↔ cond s label := by
  constructor
  · intro guarded
    exact guarded.1
  · intro meets
    apply And.intro meets
    intro next same
    cases stuck.symm.trans same

instance decidableGuarded (step : σ → ℓ → Option σ) (cond : σ → ℓ → Prop)
    [∀ s label, Decidable (cond s label)] : ∀ s labels, Decidable (Guarded step cond s labels)
  | _, [] => isTrue trivial
  | s, label :: rest =>
    match taken : step s label with
    | none => decidable_of_iff _ (guarded_cons_none taken).symm
    | some t =>
      have := decidableGuarded step cond t rest
      decidable_of_iff _ (guarded_cons_some taken).symm

theorem guarded_always (step : σ → ℓ → Option σ) (labels : List ℓ) :
    ∀ s, Guarded step always s labels := by
  induction labels with
  | nil => intro s; exact trivial
  | cons label rest ih => intro s; exact ⟨trivial, fun t _ => ih t⟩

theorem Reachable.of_run (labels : List ℓ) : ∀ {s t : σ},
    Reachable init step cond s → Guarded step cond s labels →
    run step s labels = some t → Reachable init step cond t := by
  induction labels with
  | nil =>
    intro s t reached _ ran
    cases Option.some.inj ran
    exact reached
  | cons label rest ih =>
    intro s t reached guarded ran
    obtain ⟨middle, taken, tail⟩ := Option.bind_eq_some_iff.mp ran
    exact ih (.next reached guarded.1 taken) (guarded.2 middle taken) tail

theorem Reachable.of_ran {labels : List ℓ} {t : σ} (initial : init s)
    (ran : run step s labels = some t) : Reachable init step always t :=
  .of_run labels (.start initial) (guarded_always step labels s) ran

/-- Whether a computation ends in a state with `P` is evaluated by running it. -/
instance decidableEnds {P : σ → Prop} [DecidablePred P] :
    ∀ result : Option σ, Decidable (∃ s, result = some s ∧ P s)
  | none => isFalse nofun
  | some s =>
    decidable_of_iff (P s) ⟨fun holds => ⟨s, rfl, holds⟩, fun ⟨_, same, holds⟩ =>
      Option.some.inj same ▸ holds⟩

/-- What was evaluated of the state a computation ends in gives the rest. -/
theorem ends_imp {P Q : σ → Prop} {result : Option σ} (ended : ∃ s, result = some s ∧ Q s)
    (implies : ∀ s, result = some s → Q s → P s) : ∃ s, result = some s ∧ P s := by
  obtain ⟨s, ran, holds⟩ := ended
  exact ⟨s, ran, implies s ran holds⟩

end Transition
