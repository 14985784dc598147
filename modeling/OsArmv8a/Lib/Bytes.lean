import Mathlib

/-! Byte memories, some of whose cells may not have been written, and the little-endian words in them. -/

set_option autoImplicit false

namespace Bytes

def wordAt (mem : Nat → BitVec 8) (address : Nat) : Nat :=
  (List.range 8).foldr (fun i rest => (mem (address + i)).toNat + 256 * rest) 0

def wordByte (word i : Nat) : BitVec 8 := BitVec.ofNat 8 (word / 256 ^ i)

def wordBytes (word : Nat) : List (BitVec 8) := (List.range 8).map (wordByte word)

@[simp] theorem length_wordBytes (word : Nat) : (wordBytes word).length = 8 := by
  simp [wordBytes]

theorem getElem?_wordBytes (word : Nat) {i : Nat} (small : i < 8) :
    (wordBytes word)[i]? = some (wordByte word i) := by
  simp [wordBytes, small]

theorem wordAt_eq {mem : Nat → BitVec 8} {address word : Nat} (small : word < 2 ^ 64)
    (bytes : ∀ i, i < 8 → mem (address + i) = wordByte word i) : wordAt mem address = word := by
  have range : List.range 8 = [0, 1, 2, 3, 4, 5, 6, 7] := rfl
  simp only [wordAt, range, List.foldr_cons, List.foldr_nil, bytes 0 (by decide), bytes 1 (by decide),
    bytes 2 (by decide), bytes 3 (by decide), bytes 4 (by decide), bytes 5 (by decide),
    bytes 6 (by decide), bytes 7 (by decide), wordByte, BitVec.toNat_ofNat]
  omega

/-- Writes bytes at an address; cells that were never written are `none`. -/
def write (cells : Nat → Option (BitVec 8)) (address : Nat) (bytes : List (BitVec 8)) :
    Nat → Option (BitVec 8) :=
  fun k => if address ≤ k ∧ k < address + bytes.length then bytes[k - address]? else cells k

section Write

variable {cells : Nat → Option (BitVec 8)} {address : Nat} {bytes : List (BitVec 8)}

theorem write_inside {i : Nat} (small : i < bytes.length) :
    write cells address bytes (address + i) = bytes[i]? := by
  unfold write
  rw [if_pos (by omega)]
  congr 1
  omega

theorem write_outside {k : Nat} (outside : k < address ∨ address + bytes.length ≤ k) :
    write cells address bytes k = cells k := by
  unfold write
  rw [if_neg (by omega)]

theorem write_isSome {k : Nat} : (write cells address bytes k).isSome = true ↔
    address ≤ k ∧ k < address + bytes.length ∨ (cells k).isSome = true := by
  by_cases inside : address ≤ k ∧ k < address + bytes.length
  · obtain ⟨i, rfl⟩ := Nat.exists_eq_add_of_le inside.1
    rw [write_inside (by omega), List.getElem?_eq_getElem (by omega)]
    simp [inside]
  · rw [write_outside (by omega)]
    simp [inside]

/-- Writes to disjoint places can be exchanged. -/
theorem write_comm {above : Nat} {others : List (BitVec 8)} (apart : address + bytes.length ≤ above) :
    write (write cells address bytes) above others = write (write cells above others) address bytes := by
  funext k
  by_cases inside : above ≤ k ∧ k < above + others.length
  · obtain ⟨i, rfl⟩ := Nat.exists_eq_add_of_le inside.1
    rw [write_inside (by omega), write_outside (by omega), write_inside (by omega)]
  · rw [write_outside (by omega)]
    unfold write
    rw [if_neg inside]

end Write

end Bytes
