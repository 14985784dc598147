import Mathlib

set_option autoImplicit false

namespace Word64

/-- Unsigned 64-bit arithmetic on natural numbers; results are always below `2^64`. -/
def add (a b : Nat) : Nat := (a + b) % 2 ^ 64

def sub (a b : Nat) : Nat := (a + (2 ^ 64 - b % 2 ^ 64)) % 2 ^ 64

def mul (a b : Nat) : Nat := a * b % 2 ^ 64

/-- `(value + alignment - 1) & ~(alignment - 1)` for a power of two `alignment`. -/
def alignUp (value alignment : Nat) : Nat := add value (alignment - 1) / alignment * alignment

/-- `value & ~(alignment - 1)` for a power of two `alignment`. -/
def alignDown (value alignment : Nat) : Nat := value / alignment * alignment

theorem add_lt (a b : Nat) : add a b < 2 ^ 64 := Nat.mod_lt _ (Nat.two_pow_pos 64)

theorem sub_lt (a b : Nat) : sub a b < 2 ^ 64 := Nat.mod_lt _ (Nat.two_pow_pos 64)

theorem add_assoc (a b c : Nat) : add (add a b) c = add a (add b c) := by
  unfold add
  omega

theorem add_of_lt {a b : Nat} (small : a + b < 2 ^ 64) : add a b = a + b :=
  Nat.mod_eq_of_lt small

theorem mul_of_lt {a b : Nat} (small : a * b < 2 ^ 64) : mul a b = a * b :=
  Nat.mod_eq_of_lt small

theorem sub_of_le {a b : Nat} (ordered : b ≤ a) (small : a < 2 ^ 64) : sub a b = a - b := by
  unfold sub
  omega

theorem add_eq_of_gt {a b : Nat} (left : a < 2 ^ 64) (right : b < 2 ^ 64) (grows : a < add a b) :
    add a b = a + b := by
  simp only [add] at grows ⊢
  omega

/-- Moving an address from `low` to `base`; the sum may pass through a wrap-around. -/
theorem add_sub_rebase {base low x y : Nat} (small : low < 2 ^ 64) (same : y = x % 2 ^ 64)
    (above : low ≤ base + x) (fits : base + x - low < 2 ^ 64) :
    add (sub base low) y = base + x - low := by
  simp only [add, sub]
  omega

theorem alignUp_page (value : Nat) :
    alignUp value 4096 = 4096 * ((value + 4095) / 4096) % 2 ^ 64 := by
  simp only [alignUp, add]
  omega

attribute [irreducible] add sub mul

end Word64
