import Mathlib

set_option autoImplicit false

namespace Intrusive

variable {α : Type}

/-- `Chain next head xs`: the nodes linked from `head` through `next` are exactly
`xs`, in order, and the last of them has no successor. -/
def Chain (next : α → Option α) : Option α → List α → Prop
  | head, [] => head = none
  | head, x :: xs => head = some x ∧ Chain next (next x) xs

variable {next : α → Option α} {head : Option α}

@[simp] theorem chain_nil : Chain next head [] ↔ head = none := Iff.rfl

variable {xs : List α}

@[simp] theorem chain_cons {x : α} :
    Chain next head (x :: xs) ↔ head = some x ∧ Chain next (next x) xs := Iff.rfl

theorem Chain.head_eq (chain : Chain next head xs) : head = xs.head? := by
  cases xs with
  | nil => exact chain
  | cons x xs => exact chain.1

theorem Chain.unique : ∀ {head : Option α} {ys : List α},
    Chain next head xs → Chain next head ys → xs = ys := by
  induction xs with
  | nil =>
    intro head ys left right
    cases ys with
    | nil => rfl
    | cons y ys =>
      have impossible := left.symm.trans right.1
      cases impossible
  | cons x xs ih =>
    intro head ys left right
    cases ys with
    | nil =>
      have impossible := left.1.symm.trans right
      cases impossible
    | cons y ys =>
      have same : x = y := Option.some.inj (left.1.symm.trans right.1)
      subst same
      rw [ih left.2 right.2]

/-- Links outside the listed nodes do not matter. -/
theorem Chain.congr {fresh : α → Option α} : ∀ {head : Option α},
    Chain next head xs → (∀ x ∈ xs, fresh x = next x) → Chain fresh head xs := by
  induction xs with
  | nil => intro head chain _; exact chain
  | cons x xs ih =>
    intro head chain same
    refine ⟨chain.1, ?_⟩
    rw [same x List.mem_cons_self]
    exact ih chain.2 (fun y member => same y (List.mem_cons_of_mem x member))

theorem Chain.suffix {front : List α} : ∀ {head : Option α}
    {x : α} {back : List α}, Chain next head (front ++ x :: back) →
    Chain next (next x) back := by
  induction front with
  | nil => intro head x back chain; exact chain.2
  | cons y front ih => intro head x back chain; exact ih chain.2

/-- Every link of a listed node leads to a listed node or ends the chain. -/
theorem Chain.next_mem : ∀ {head : Option α},
    Chain next head xs → ∀ x ∈ xs, ∀ y, next x = some y → y ∈ xs := by
  induction xs with
  | nil => intro head _ x member; cases member
  | cons z xs ih =>
    intro head chain x member y linked
    rcases List.mem_cons.mp member with rfl | later
    · rw [chain.2.head_eq] at linked
      exact List.mem_cons_of_mem x (List.mem_of_head? linked)
    · exact List.mem_cons_of_mem z (ih chain.2 x later y linked)

/-- A chain that ends cannot visit a node twice: the rest after both visits
would be the same list. -/
theorem Chain.nodup : ∀ {head : Option α},
    Chain next head xs → xs.Nodup := by
  induction xs with
  | nil => intro head _; exact List.nodup_nil
  | cons x xs ih =>
    intro head chain
    refine List.nodup_cons.mpr ⟨?_, ih chain.2⟩
    intro member
    obtain ⟨front, back, split⟩ := List.append_of_mem member
    have whole : Chain next (next x) (front ++ x :: back) := split ▸ chain.2
    have same := chain.2.unique whole.suffix
    rw [split] at same
    have lengths := congrArg List.length same
    simp only [List.length_append, List.length_cons] at lengths
    omega

/-- Following the links for more steps than there are nodes reaches the end. -/
def count (next : α → Option α) : Nat → Option α → Option Nat
  | 0, _ => none
  | _ + 1, none => some 0
  | fuel + 1, some x => (count next fuel (next x)).map (· + 1)

theorem Chain.count_eq : ∀ {head : Option α} {fuel : Nat},
    Chain next head xs → xs.length < fuel → count next fuel head = some xs.length := by
  induction xs with
  | nil =>
    intro head fuel chain enough
    obtain ⟨fuel, rfl⟩ := Nat.exists_eq_succ_of_ne_zero (Nat.ne_of_gt enough)
    rw [chain_nil.mp chain]
    rfl
  | cons x xs ih =>
    intro head fuel chain enough
    obtain ⟨fuel, rfl⟩ := Nat.exists_eq_succ_of_ne_zero
      (Nat.ne_of_gt (Nat.lt_of_le_of_lt (Nat.zero_le _) enough))
    rw [chain.1]
    simp only [count]
    rw [ih chain.2 (by simp only [List.length_cons] at enough; omega)]
    rfl

end Intrusive
