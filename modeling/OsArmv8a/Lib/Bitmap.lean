import Mathlib

/-! Sets of numbers packed into 64-bit words. -/

set_option autoImplicit false

namespace Bitmap

def test (words : Nat → BitVec 64) (n : Nat) : Bool := words (n / 64) &&& 1#64 <<< (n % 64) ≠ 0

def update (words : Nat → BitVec 64) (i : Nat) (word : BitVec 64) : Nat → BitVec 64 :=
  fun j => if j = i then word else words j

def set (words : Nat → BitVec 64) (n : Nat) : Nat → BitVec 64 :=
  update words (n / 64) (words (n / 64) ||| 1#64 <<< (n % 64))

def clear (words : Nat → BitVec 64) (n : Nat) : Nat → BitVec 64 :=
  update words (n / 64) (words (n / 64) &&& ~~~(1#64 <<< (n % 64)))

theorem getLsbD_bit (i j : Nat) (small : j < 64) : (1#64 <<< i).getLsbD j = decide (j = i) := by
  by_cases below : j < i
  · simp [below]
    omega
  · by_cases same : j = i
    · simp [same] at small ⊢
      omega
    · have apart : ¬ j - i = 0 := by omega
      simp [apart, same]

theorem test_eq_getLsbD (words : Nat → BitVec 64) (n : Nat) :
    test words n = (words (n / 64)).getLsbD (n % 64) := by
  have inside : n % 64 < 64 := Nat.mod_lt n (by decide)
  have only : ∀ j, j < 64 → (words (n / 64) &&& 1#64 <<< (n % 64)).getLsbD j =
      ((words (n / 64)).getLsbD (n % 64) && decide (j = n % 64)) := by
    intro j small
    rw [BitVec.getLsbD_and, getLsbD_bit _ _ small]
    by_cases same : j = n % 64 <;> simp [same]
  cases bit : (words (n / 64)).getLsbD (n % 64) with
  | true =>
    refine decide_eq_true fun zero => ?_
    have here := only (n % 64) inside
    rw [zero, bit] at here
    simp at here
  | false =>
    refine decide_eq_false (not_not_intro ?_)
    apply BitVec.eq_of_getLsbD_eq
    intro j small
    rw [only j small, bit]
    simp

theorem same_bit {m n : Nat} (word : m / 64 = n / 64) : m % 64 = n % 64 ↔ m = n := by
  omega

@[simp] theorem test_set (words : Nat → BitVec 64) (n m : Nat) :
    test (set words n) m = (decide (m = n) || test words m) := by
  have inside : m % 64 < 64 := Nat.mod_lt m (by decide)
  simp only [test_eq_getLsbD, set, update]
  by_cases word : m / 64 = n / 64
  · rw [if_pos word, BitVec.getLsbD_or, getLsbD_bit _ _ inside, word, Bool.or_comm]
    congr 1
    exact decide_eq_decide.mpr (same_bit word)
  · have other : m ≠ n := fun same => word (by rw [same])
    simp [word, other]

@[simp] theorem test_clear (words : Nat → BitVec 64) (n m : Nat) :
    test (clear words n) m = (decide (m ≠ n) && test words m) := by
  have inside : m % 64 < 64 := Nat.mod_lt m (by decide)
  simp only [test_eq_getLsbD, clear, update]
  by_cases word : m / 64 = n / 64
  · rw [if_pos word, BitVec.getLsbD_and, BitVec.getLsbD_not, getLsbD_bit _ _ inside, word,
      Bool.and_comm]
    congr 1
    rw [decide_eq_true inside, Bool.true_and, ← decide_not]
    exact decide_eq_decide.mpr (not_congr (same_bit word))
  · have other : m ≠ n := fun same => word (by rw [same])
    simp [word, other]

@[simp] theorem test_empty (n : Nat) : test (fun _ => 0#64) n = false := by
  rw [test_eq_getLsbD]
  exact BitVec.getLsbD_zero

end Bitmap
