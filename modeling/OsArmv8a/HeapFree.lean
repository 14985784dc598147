import OsArmv8a.HeapStats

/-! Frees of pointers that are not live. `kfree` looks the arena up and then believes the word where
the `is_free` field of a header would be, whatever that word is. -/

set_option autoImplicit false

namespace OsArmv8a.Heap

open Tiling State Intrusive

/-- What `kfree` refuses: null, a pointer outside all arenas, and one with a word that is not zero
where its header would have `is_free`. -/
def Refused (s : State) (ptr : Nat) : Prop :=
  ptr = 0 ∨ (∀ page ∈ s.arenas, ptr < page ∨ page + 4096 * s.load (page + 8) ≤ ptr) ∨
    s.load (ptr - 24) ≠ 0

instance (s : State) (ptr : Nat) : Decidable (Refused s ptr) :=
  inferInstanceAs (Decidable (_ ∨ (∀ page ∈ s.arenas, _) ∨ _))

section Overwrite

variable {s m : State} {block va value a : Nat}

theorem load_store (small : value < 2 ^ 64) : (s.store va value).load a =
    if a - kernelVaOffset = va - kernelVaOffset then value else s.load a := by
  unfold State.load
  rw [store_mem, Mem.set]
  split
  · rw [BitVec.toNat_ofNat, Nat.mod_eq_of_lt small]
  · rfl

/-- A store of a value that is not zero clears no word. -/
theorem load_store_ne_zero (small : value < 2 ^ 64) (nonzero : value ≠ 0) (old : s.load a ≠ 0) :
    (s.store va value).load a ≠ 0 := by
  rw [load_store small]
  split
  · exact nonzero
  · exact old

/-- Joining with the next block leaves the flag set, or overwrites it with the block's address. -/
theorem mergeNext_flag (high : kernelVaOffset < block) (low : block < 2 ^ 64)
    (flag : s.load (block + 8) = 1) :
    (mergeNext s block).load (block + 8) = 1 ∨ (mergeNext s block).load (block + 8) = block := by
  unfold mergeNext
  dsimp only
  split
  · have kept : ∀ x y, ((s.store block x).store (block + 16) y).load (block + 8) = 1 := by
      intro x y
      rw [load_store_other (by omega) (by omega) (by omega),
        load_store_other (by omega) (by omega) (by omega)]
      exact flag
    split
    · rw [load_store low]
      split
      · exact Or.inr rfl
      · exact Or.inl (kept _ _)
    · exact Or.inl (kept _ _)
  · exact Or.inl flag

/-- Joining with the previous block cannot clear both the flag and the size. Whatever the previous
block is said to be, its own two fields meet one of the two words at most, and the pointer
written last is not null. -/
theorem mergePrev_not_cleared (high : kernelVaOffset + 8 ≤ block) (low : block + 32 < 2 ^ 64)
    (flag : m.load (block + 8) = 1 ∨ m.load (block + 8) = block)
    (cleared : (mergePrev m block).load (block + 8) = 0) : (mergePrev m block).load block ≠ 0 := by
  have nonzero : m.load (block + 8) ≠ 0 := by omega
  unfold mergePrev at cleared ⊢
  dsimp only at cleared ⊢
  generalize previous : m.load (block + 24) = prev at cleared ⊢
  have bound : prev < 2 ^ 64 := previous ▸ m.load_lt _
  split at cleared
  swap
  · exact absurd cleared nonzero
  rename_i active
  rw [if_pos active]
  generalize joined : Word64.add (m.load prev) (Word64.add 32 (m.load block)) = total at cleared ⊢
  have totalBound : total < 2 ^ 64 := joined ▸ Word64.add_lt _ _
  have nextBound := (m.store prev total).load_lt (block + 16)
  generalize (m.store prev total).load (block + 16) = next at cleared nextBound ⊢
  -- The last store writes `prev`, so both words are as the first two stores have left them.
  have emptied : ((m.store prev total).store (prev + 16) next).load (block + 8) = 0 := by
    by_contra standing
    split at cleared
    · exact load_store_ne_zero bound active.1 standing cleared
    · exact standing cleared
  suffices standing : ((m.store prev total).store (prev + 16) next).load block ≠ 0 by
    split
    · exact load_store_ne_zero bound active.1 standing
    · exact standing
  have untouched : prev + 8 = block ∨ prev = block + 8 →
      ((m.store prev total).store (prev + 16) next).load block = m.load block := by
    intro where_
    rw [load_store nextBound, if_neg (by omega), load_store totalBound, if_neg (by omega)]
  rw [load_store nextBound] at emptied
  split at emptied
  · -- The flag is the previous block's `next`, and the size is its `is_free`.
    have here : prev + 8 = block := by omega
    rw [untouched (Or.inl here), ← here]
    exact active.2
  rw [load_store totalBound] at emptied
  split at emptied
  · -- The flag is the previous block's size, to which the size has been added.
    have here : prev = block + 8 := by omega
    rw [untouched (Or.inr here)]
    intro empty
    have header : Word64.add 32 0 = 32 := Word64.add_of_lt (by omega)
    rw [empty, here, header, Word64.add_of_lt (by omega)] at joined
    omega
  · exact absurd emptied nonzero

/-- A release never leaves the heap as it was. -/
theorem releaseBlock_ne (high : kernelVaOffset + 8 ≤ block) (low : block + 32 < 2 ^ 64)
    (flag : s.load (block + 8) = 0) :
    releaseBlock s block ≠ s := by
  intro same
  have size : (s.store (block + 8) 1).load block = s.load block :=
    load_store_other (by omega) (by omega) (by omega)
  -- The used bytes are the same only if the block is said to be empty.
  have counted : Word64.sub s.usedSpace (s.load block) = s.usedSpace := by
    have used := congrArg State.usedSpace same
    rw [releaseBlock, (coalesce_counters _ _).2.2] at used
    rwa [← size]
  have empty : s.load block = 0 := by
    have word := s.load_lt block
    unfold Word64.sub at counted
    omega
  unfold releaseBlock coalesce at same
  dsimp only at same
  generalize marked : State.mk _ _ _ _ _ _ _ = u at same
  have pages : u.pages = (s.store (block + 8) 1).pages := by rw [← marked]
  have load : u.load = (s.store (block + 8) 1).load := by
    unfold State.load
    rw [pages]
  have set : u.load (block + 8) = 1 := by
    rw [load, load_store_same (by omega)]
  have next := mergeNext_flag (by omega) (by omega) set
  refine mergePrev_not_cleared high low next ?_ ?_
  · rw [same, flag]
  · rw [same, empty]

end Overwrite

section Search

variable {s : State} {arenas : List Arena} {ptr : Nat}

/-- A pointer outside all arenas is traced back to none. -/
theorem pageFromPointer_outside (rest : List Arena) : ∀ {fuel page : Nat},
    (∀ a ∈ rest, ArenaAt s a) → (∀ a ∈ rest, ptr < a.base ∨ a.stop ≤ ptr) →
    Chain (arenaLink s) (nullable page) (rest.map Arena.base) → rest.length < fuel →
    pageFromPointer s ptr fuel page = some none := by
  induction rest with
  | nil =>
    intro fuel page _ _ chain enough
    obtain ⟨fuel, rfl⟩ := Nat.exists_eq_succ_of_ne_zero (Nat.ne_of_gt enough)
    have null : page = 0 := by
      by_contra positive
      simp [nullable, positive] at chain
    simp [pageFromPointer, null]
  | cons a rest ih =>
    intro fuel page each outside chain enough
    obtain ⟨fuel, rfl⟩ := Nat.exists_eq_succ_of_ne_zero
      (Nat.ne_of_gt (Nat.lt_of_le_of_lt (Nat.zero_le _) enough))
    obtain ⟨here, positive⟩ := nullable_eq_some chain.1
    have at_ := each a List.mem_cons_self
    have away := outside a List.mem_cons_self
    simp only [pageFromPointer, if_neg positive]
    rw [here, at_.end_eq, if_neg (by omega)]
    exact ih (fun b later => each b (List.mem_cons_of_mem a later))
      (fun b later => outside b (List.mem_cons_of_mem a later)) chain.2
      (Nat.lt_of_succ_lt_succ enough)

theorem arena_of_inside (inv : Invariant s arenas)
    (inside : ¬ ∀ page ∈ s.arenas, ptr < page ∨ page + 4096 * s.load (page + 8) ≤ ptr) :
    ∃ a ∈ arenas, a.base ≤ ptr ∧ ptr < a.stop := by
  by_contra none
  refine inside ?_
  rw [inv.arenas_eq]
  intro page member
  obtain ⟨a, listed, rfl⟩ := List.mem_map.mp member
  rw [(inv.each a listed).count]
  change ptr < a.base ∨ a.stop ≤ ptr
  by_contra within
  exact none ⟨a, listed, by omega, by omega⟩

/-- `kfree` returns its argument's heap unchanged exactly when it refuses. -/
theorem kfree_eq_iff (inv : Invariant s arenas) : kfree s ptr = some s ↔ Refused s ptr := by
  unfold kfree Refused
  split
  · rename_i null
    exact iff_of_true rfl (Or.inl null)
  rename_i notNull
  rw [or_iff_right notNull]
  by_cases outside : ∀ page ∈ s.arenas, ptr < page ∨ page + 4096 * s.load (page + 8) ≤ ptr
  · refine iff_of_true ?_ (Or.inl outside)
    rw [pageFromPointer_outside arenas inv.each ?_ inv.chain inv.arenas_lt]
    · rfl
    · intro a member
      have away := outside a.base (inv.arenas_eq ▸ List.mem_map_of_mem member)
      rwa [(inv.each a member).count] at away
  · obtain ⟨a, member, lower, upper⟩ := arena_of_inside inv outside
    have low := (inv.each a member).low
    have high := (inv.each a member).high
    have space := kernelVaOffset_top
    have address : ptr - 32 + 8 = ptr - 24 := by omega
    rw [pageFromPointer_spec arenas inv.each inv.disjoint member lower upper inv.chain
      inv.arenas_lt, or_iff_right outside]
    simp only [Option.map_some, Option.some.injEq, address]
    split
    · rename_i set
      exact iff_of_true rfl set
    · rename_i clear
      rw [Decidable.not_not] at clear
      refine iff_of_false (releaseBlock_ne (by omega) (by omega) ?_) (not_not_intro clear)
      rw [address]
      exact clear

end Search

end OsArmv8a.Heap
