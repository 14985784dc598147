import Mathlib

/-! How many elements of a finite type pass a test, and how one change of the test moves the number. -/

set_option autoImplicit false

namespace Tally

variable {α : Type} [Fintype α] {p q : α → Bool} {a : α}

def tally (p : α → Bool) : Nat := (Finset.univ.filter fun a => p a = true).card

theorem tally_congr (same : ∀ a, p a = q a) : tally p = tally q := by
  rw [funext same]

theorem tally_eq_zero : tally p = 0 ↔ ∀ a, p a = false := by
  simp [tally, Finset.filter_eq_empty_iff]

theorem tally_pos (on : p a = true) : 0 < tally p :=
  Finset.card_pos.mpr ⟨a, by simp [on]⟩

theorem tally_le (p : α → Bool) : tally p ≤ Fintype.card α := Finset.card_filter_le _ _

/-- The test changes at one element only. -/
theorem tally_change [DecidableEq α] (a : α) (others : ∀ b, b ≠ a → q b = p b) :
    tally q + (p a).toNat = tally p + (q a).toNat := by
  have split : ∀ r : α → Bool, tally r =
      ((Finset.univ.erase a).filter fun b => r b = true).card + (r a).toNat := by
    intro r
    rw [tally, ← Finset.insert_erase (Finset.mem_univ a), Finset.filter_insert]
    cases r a <;> simp
  have rest : ((Finset.univ.erase a).filter fun b => q b = true) =
      (Finset.univ.erase a).filter fun b => p b = true :=
    Finset.filter_congr fun b member => by rw [others b (Finset.ne_of_mem_erase member)]
  rw [split p, split q, rest]
  omega

section References

variable {β : Type} [DecidableEq β] {f g : α → Option β} {b : α} {x y : β}

/-- How many places refer to `x`. -/
def count (f : α → Option β) (x : β) : Nat := tally fun a => decide (f a = some x)

theorem count_congr (same : ∀ a, g a = f a) (x : β) : count g x = count f x := by
  rw [funext same]

theorem count_pos (refers : f a = some x) : 0 < count f x :=
  tally_pos (a := a) (by simp [refers])

theorem count_eq_zero : count f x = 0 ↔ ∀ a, f a ≠ some x := by
  simp [count, tally_eq_zero]

theorem count_le (f : α → Option β) (x : β) : count f x ≤ Fintype.card α := tally_le _

variable [DecidableEq α]

/-- One place changes, which did not refer to `x` and does not now. -/
theorem count_other (others : ∀ b, b ≠ a → g b = f b) (before : f a ≠ some x) (after : g a ≠ some x) :
    count g x = count f x := by
  refine tally_congr fun b => ?_
  by_cases same : b = a
  · simp [same, before, after]
  · rw [others b same]

/-- One place changes, which refers to `x` or to nothing. -/
theorem count_own (others : ∀ b, b ≠ a → g b = f b) (before : ∀ y, y ≠ x → f a ≠ some y)
    (after : ∀ y, y ≠ x → g a ≠ some y) :
    count g x + (f a).toList.length = count f x + (g a).toList.length := by
  have lone : ∀ h : Option β, (∀ y, y ≠ x → h ≠ some y) →
      h.toList.length = (decide (h = some x)).toNat := by
    intro h only
    cases h with
    | none => rfl
    | some y =>
      obtain rfl : y = x := by_contra fun other => only y other rfl
      simp
  rw [lone _ before, lone _ after]
  exact tally_change (p := fun a => decide (f a = some x)) (q := fun a => decide (g a = some x)) a
    fun b other => by rw [others b other]

/-- Two places exchange what they refer to. -/
theorem count_swap (first : g a = f b) (second : g b = f a)
    (others : ∀ c, c ≠ a → c ≠ b → g c = f c) (x : β) : count g x = count f x := by
  have swapped : g = f ∘ Equiv.swap a b := by
    funext c
    by_cases left : c = a
    · simp [left, first]
    · by_cases right : c = b
      · simp [right, second]
      · simp [Equiv.swap_apply_of_ne_of_ne left right, others c left right]
  rw [swapped]
  refine Finset.card_equiv (Equiv.swap a b) fun c => ?_
  simp

/-- Two places that refer to the same thing are counted twice. -/
theorem two_le_count (other : a ≠ b) (first : f a = some x) (second : f b = some x) :
    2 ≤ count f x := by
  have pair : ({a, b} : Finset α) ⊆ Finset.univ.filter fun c => decide (f c = some x) = true := by
    intro c member
    rcases Finset.mem_insert.mp member with rfl | last
    · simp [first]
    · rw [Finset.mem_singleton.mp last]
      simp [second]
  have cards := Finset.card_le_card pair
  rwa [Finset.card_pair other] at cards

end References

end Tally
