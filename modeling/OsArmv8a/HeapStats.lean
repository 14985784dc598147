import OsArmv8a.HeapContract

/-! The statistics of the heap. `kmalloc` and `kfree` keep three counters, and the debugging code
walks the lists. The walk finds the header a split has made; the counter of free bytes does not. -/

set_option autoImplicit false

namespace OsArmv8a.Heap

open Tiling State Intrusive

section Walk

/-- The loop of `kernel_heap_debug_arena_usage`: the free bytes and the largest free block, over at
most `fuel` blocks. -/
def debugArenaUsage (s : State) : Nat → Nat → Nat → Nat → Option (Nat × Nat)
  | 0, _, _, _ => none
  | fuel + 1, block, freeBytes, largestFreeBlock =>
    if block = 0 then some (freeBytes, largestFreeBlock)
    else if s.load (block + 8) ≠ 0 then
      debugArenaUsage s fuel (s.load (block + 16)) (Word64.add freeBytes (s.load block))
        (if largestFreeBlock < s.load block then s.load block else largestFreeBlock)
    else debugArenaUsage s fuel (s.load (block + 16)) freeBytes largestFreeBlock

/-- The arenas, by their `next` links. -/
def arenaList (s : State) : Nat → Nat → List Nat
  | 0, _ => []
  | fuel + 1, page => if page = 0 then [] else page :: arenaList s fuel (s.load (page + 16))

/-- The blocks of an arena, by their `next` links. -/
def blockList (s : State) : Nat → Nat → List Nat
  | 0, _ => []
  | fuel + 1, block => if block = 0 then [] else block :: blockList s fuel (s.load (block + 16))

def State.arenas (s : State) : List Nat := arenaList s loopFuel s.heapPages

def State.blocksOf (s : State) (page : Nat) : List Nat := blockList s loopFuel (s.load (page + 32))

/-- The counters agree with what a walk over all arenas and blocks finds. -/
structure Truthful (s : State) : Prop where
  free : ∃ usages, s.arenas.mapM (fun page =>
      debugArenaUsage s loopFuel (s.load (page + 32)) 0 0) = some usages ∧
    s.freeSpace = (usages.map Prod.fst).sum
  used : s.usedSpace = (s.arenas.map fun page =>
    (((s.blocksOf page).filter fun b => s.load (b + 8) = 0).map s.load).sum).sum
  pages : s.pagesUsed = (s.arenas.map fun page => s.load (page + 8)).sum

/-- No arena is cut: each is a single block, free or in use. -/
def Uncut (s : State) : Prop := ∀ page ∈ s.arenas, (s.blocksOf page).length = 1

instance (s : State) : Decidable (Uncut s) :=
  inferInstanceAs (Decidable (∀ page ∈ s.arenas, _))

variable {s : State} {arenas : List Arena}

theorem debugArenaUsage_spec (blocks : List Block) :
    ∀ {prev addr fuel freeBytes largest : Nat}, addr ≠ 0 → Laid s.load prev addr blocks 0 →
    blocks.length < fuel → freeBytes + spare blocks < 2 ^ 64 →
    ∃ found, debugArenaUsage s fuel (if blocks = [] then 0 else addr) freeBytes largest =
      some (freeBytes + spare blocks, found) := by
  induction blocks with
  | nil =>
    intro prev addr fuel freeBytes largest _ _ enough _
    obtain ⟨fuel, rfl⟩ := Nat.exists_eq_succ_of_ne_zero (Nat.ne_of_gt enough)
    exact ⟨largest, rfl⟩
  | cons block rest ih =>
    intro prev addr fuel freeBytes largest positive laid enough small
    obtain ⟨fuel, rfl⟩ := Nat.exists_eq_succ_of_ne_zero
      (Nat.ne_of_gt (Nat.lt_of_le_of_lt (Nat.zero_le _) enough))
    obtain ⟨header, tail⟩ := laid
    have next : addr + (32 + block.size) ≠ 0 := by omega
    have shorter := Nat.lt_of_succ_lt_succ enough
    simp only [spare] at small ⊢
    simp only [debugArenaUsage, reduceCtorEq, if_false, if_neg positive]
    rw [header.free, header.size, header.next]
    by_cases free : block.free = true
    · simp only [free, if_true] at small ⊢
      have fits : freeBytes + block.size + spare rest < 2 ^ 64 := by omega
      rw [if_pos Nat.one_ne_zero,
        Word64.add_of_lt (show freeBytes + block.size < 2 ^ 64 by omega),
        ← Nat.add_assoc freeBytes block.size]
      exact ih next tail shorter fits
    · simp only [free, if_false, Bool.false_eq_true] at small ⊢
      rw [if_neg (not_not_intro rfl), Nat.zero_add]
      exact ih next tail shorter (by omega)

theorem blockList_eq (blocks : List Block) :
    ∀ {prev addr fuel : Nat}, addr ≠ 0 → Laid s.load prev addr blocks 0 → blocks.length < fuel →
    blockList s fuel (if blocks = [] then 0 else addr) = starts addr blocks := by
  induction blocks with
  | nil =>
    intro prev addr fuel _ _ enough
    obtain ⟨fuel, rfl⟩ := Nat.exists_eq_succ_of_ne_zero (Nat.ne_of_gt enough)
    rfl
  | cons block rest ih =>
    intro prev addr fuel positive laid enough
    obtain ⟨fuel, rfl⟩ := Nat.exists_eq_succ_of_ne_zero
      (Nat.ne_of_gt (Nat.lt_of_le_of_lt (Nat.zero_le _) enough))
    simp only [blockList, reduceCtorEq, if_false, if_neg positive, starts]
    rw [laid.1.next, ih (show addr + (32 + block.size) ≠ 0 by omega) laid.2
      (Nat.lt_of_succ_lt_succ enough)]

theorem arenaList_eq (rest : List Nat) : ∀ {fuel page : Nat},
    Chain (arenaLink s) (nullable page) rest → rest.length < fuel → arenaList s fuel page = rest := by
  induction rest with
  | nil =>
    intro fuel page chain enough
    obtain ⟨fuel, rfl⟩ := Nat.exists_eq_succ_of_ne_zero (Nat.ne_of_gt enough)
    have null : page = 0 := by
      by_contra positive
      simp [nullable, positive] at chain
    simp [arenaList, null]
  | cons base rest ih =>
    intro fuel page chain enough
    obtain ⟨fuel, rfl⟩ := Nat.exists_eq_succ_of_ne_zero
      (Nat.ne_of_gt (Nat.lt_of_le_of_lt (Nat.zero_le _) enough))
    obtain ⟨rfl, positive⟩ := nullable_eq_some chain.1
    simp only [arenaList, if_neg positive]
    rw [ih chain.2 (Nat.lt_of_succ_lt_succ enough)]

theorem Invariant.arenas_eq (inv : Invariant s arenas) : s.arenas = arenas.map Arena.base := by
  refine arenaList_eq _ inv.chain ?_
  rw [List.length_map]
  exact inv.arenas_lt

theorem ArenaAt.blocksOf_eq {a : Arena} (at_ : ArenaAt s a) :
    s.blocksOf a.base = starts (a.base + 48) a.blocks := by
  have walked := blockList_eq a.blocks (show a.base + 48 ≠ 0 by omega) at_.laid at_.blocks_lt
  rw [if_neg at_.blocks_ne_nil] at walked
  unfold State.blocksOf
  rw [at_.firstBlock, walked]

end Walk

section Counters

variable {s t : State} {arenas arenas' : List Arena}

/-- What the counters count, in terms of the arenas: free and used bytes add up to the bytes that
were usable when the arenas were made. -/
structure Counted (s : State) (arenas : List Arena) : Prop where
  pages : s.pagesUsed = (arenas.map Arena.pageCount).sum
  used : s.usedSpace = (arenas.map fun a => taken a.blocks).sum
  total : s.freeSpace + s.usedSpace = (arenas.map fun a => 4096 * a.pageCount - 80).sum

theorem splitBlock_counters (s : State) (block size : Nat) :
    (splitBlock s block size).pagesUsed = s.pagesUsed ∧
      (splitBlock s block size).freeSpace = s.freeSpace ∧
      (splitBlock s block size).usedSpace = s.usedSpace := by
  unfold splitBlock
  split
  · exact ⟨rfl, rfl, rfl⟩
  · dsimp only
    split <;> exact ⟨rfl, rfl, rfl⟩

theorem takeBlock_counters (s : State) (block size : Nat) :
    (takeBlock s block size).pagesUsed = s.pagesUsed ∧
      (takeBlock s block size).freeSpace =
        Word64.sub s.freeSpace ((takeBlock s block size).load block) ∧
      (takeBlock s block size).usedSpace =
        Word64.add s.usedSpace ((takeBlock s block size).load block) := by
  obtain ⟨pages, free, used⟩ := splitBlock_counters s block size
  rw [takeBlock_load, ← pages, ← free, ← used]
  exact ⟨rfl, rfl, rfl⟩

theorem coalesce_counters (s : State) (block : Nat) :
    (coalesce s block).pagesUsed = s.pagesUsed ∧ (coalesce s block).freeSpace = s.freeSpace ∧
      (coalesce s block).usedSpace = s.usedSpace := by
  have next : (mergeNext s block).pagesUsed = s.pagesUsed ∧
      (mergeNext s block).freeSpace = s.freeSpace ∧
      (mergeNext s block).usedSpace = s.usedSpace := by
    unfold mergeNext
    dsimp only
    split
    · split <;> exact ⟨rfl, rfl, rfl⟩
    · exact ⟨rfl, rfl, rfl⟩
  rw [← next.1, ← next.2.1, ← next.2.2]
  unfold coalesce mergePrev
  dsimp only
  split
  · split <;> exact ⟨rfl, rfl, rfl⟩
  · exact ⟨rfl, rfl, rfl⟩

theorem ArenaAt.taken_le {a : Arena} (at_ : ArenaAt s a) :
    taken a.blocks + 80 ≤ 4096 * a.pageCount := by
  have exact := at_.tiled.exact
  have length := List.length_pos_of_ne_nil at_.blocks_ne_nil
  rw [span_eq] at exact
  omega

/-- Neither sum comes near the word size. -/
theorem Invariant.sums_le (inv : Invariant s arenas) :
    (arenas.map fun a => taken a.blocks).sum ≤ (arenas.map fun a => 4096 * a.pageCount - 80).sum ∧
      (arenas.map fun a => 4096 * a.pageCount - 80).sum ≤ 4096 * 32768 := by
  constructor
  · refine List.sum_le_sum fun a member => ?_
    have room := (inv.each a member).taken_le
    omega
  · have usable : (arenas.map fun a => 4096 * a.pageCount - 80).sum ≤
        (arenas.map fun a => 4096 * a.pageCount).sum := List.sum_le_sum fun a _ => Nat.sub_le _ _
    have scaled : (arenas.map fun a => 4096 * a.pageCount).sum =
        4096 * (arenas.map Arena.pageCount).sum := List.sum_map_mul_left ..
    have total := inv.pages_le
    omega

section Arena

variable {before after : List Arena} {a : Arena} {blocks : List Block} {amount : Nat}

/-- Bytes of one arena come into use. -/
theorem Counted.take (counted : Counted s (before ++ a :: after))
    (inv : Invariant t (before ++ { a with blocks := blocks } :: after))
    (grown : taken blocks = taken a.blocks + amount) (pages : t.pagesUsed = s.pagesUsed)
    (free : t.freeSpace = Word64.sub s.freeSpace amount)
    (used : t.usedSpace = Word64.add s.usedSpace amount) :
    Counted t (before ++ { a with blocks := blocks } :: after) := by
  obtain ⟨bound, small⟩ := inv.sums_le
  obtain ⟨pagesEq, usedEq, totalEq⟩ := counted
  simp only [List.map_append, List.map_cons, List.sum_append, List.sum_cons] at *
  rw [Word64.add_of_lt (by omega)] at used
  rw [Word64.sub_of_le (by omega) (by omega)] at free
  constructor <;> simp only [List.map_append, List.map_cons, List.sum_append, List.sum_cons] <;> omega

/-- Bytes of one arena are given back. -/
theorem Counted.release (counted : Counted s (before ++ a :: after))
    (inv : Invariant s (before ++ a :: after))
    (shrunk : taken blocks + amount = taken a.blocks) (pages : t.pagesUsed = s.pagesUsed)
    (used : t.usedSpace = Word64.sub s.usedSpace amount)
    (free : t.freeSpace = Word64.add s.freeSpace amount) :
    Counted t (before ++ { a with blocks := blocks } :: after) := by
  obtain ⟨bound, small⟩ := inv.sums_le
  obtain ⟨pagesEq, usedEq, totalEq⟩ := counted
  simp only [List.map_append, List.map_cons, List.sum_append, List.sum_cons] at *
  rw [Word64.sub_of_le (by omega) (by omega)] at used
  rw [Word64.add_of_lt (by omega)] at free
  constructor <;> simp only [List.map_append, List.map_cons, List.sum_append, List.sum_cons] <;> omega

end Arena

theorem taken_carve {size : Nat} {block head : Block} {rest : List Block}
    (carved : carve 32 16 size block = head :: rest) : taken (head :: rest) = head.size := by
  unfold carve at carved
  split at carved
  · cases carved
    simp
  · cases carved
    simp

section

variable (inv : Invariant s arenas)

include inv

theorem Scanned.counted {size : Nat} {result : Option Nat} (aligned : 16 ∣ size)
    (scanned : Scanned s size arenas result t arenas') (counted : Counted s arenas) :
    Counted t arenas' := by
  have after := (scanned.allocated inv aligned).invariant
  cases scanned with
  | short full => exact counted
  | @taken before rest a front back block shape free room =>
    obtain ⟨head, tail, carved, -⟩ := carve_head room
    have at_ := after.each { a with blocks := front ++ carve 32 16 size block ++ back } (by simp)
    have laid := at_.laid
    simp only [carved, List.append_assoc, List.cons_append] at laid
    have amount := (laid_append.mp laid).2.1.size
    obtain ⟨pages, freeSpace, usedSpace⟩ :=
      takeBlock_counters s (a.base + 48 + span 32 front) size
    refine counted.take after ?_ pages freeSpace usedSpace
    have sum := taken_carve carved
    rw [carved, shape]
    simp only [taken_append, taken_cons, free, if_true] at sum ⊢
    omega

theorem addArena_counted {rawPa pageCount : Nat} {pages : PageAlloc.State} {u : State}
    (counted : Counted s arenas)
    (acquired : PageAlloc.pageAllocContiguous s.pages pageCount = (some rawPa, pages))
    (added : addArena s pageCount = (some (rawPa + kernelVaOffset), u)) :
    Counted u (freshArena rawPa pageCount :: arenas) := by
  obtain ⟨t, call, inv', pagesUsed, freeSpace, usedSpace⟩ := addArena_some inv acquired
  cases added.symm.trans call
  have bound := inv'.pages_le
  have small := inv'.sums_le.2
  obtain ⟨pagesEq, usedEq, totalEq⟩ := counted
  have fresh : (freshArena rawPa pageCount).pageCount = pageCount := rfl
  have nothing : taken (freshArena rawPa pageCount).blocks = 0 := rfl
  simp only [List.map_cons, List.sum_cons, fresh] at bound small
  rw [Word64.add_of_lt (by omega)] at pagesUsed freeSpace
  constructor <;> simp only [List.map_cons, List.sum_cons, fresh, nothing] <;> omega

theorem Requested.counted {size : Nat} {result : Option Nat}
    (requested : Requested s arenas size result t arenas') (counted : Counted s arenas) :
    Counted t arenas' := by
  cases requested with
  | nothing zero => exact counted
  | found positive taken => exact taken.counted inv (dvd_alignUp size) counted
  | refused positive full failed => exact ⟨counted.pages, counted.used, counted.total⟩
  | grown positive full acquired added inv' scanned =>
    exact scanned.counted inv' (dvd_alignUp size) (addArena_counted inv counted acquired added)

theorem Released.counted (released : Released s arenas t arenas') (counted : Counted s arenas) :
    Counted t arenas' := by
  cases released with
  | @joined before after a front back blocks block shape inUse joined =>
    have at_ := inv.each a (by simp)
    have low := at_.low
    have laid := at_.laid
    rw [shape] at laid
    have size : (s.store (a.base + 48 + span 32 front + 8) 1).load (a.base + 48 + span 32 front) =
        block.size := by
      rw [load_store_other (by omega) (by omega) (by omega)]
      exact (laid_append.mp laid).2.1.size
    refine counted.release inv (shape ▸ joined.taken inUse) ?_ ?_ ?_
    · exact (coalesce_counters _ _).1
    · refine (coalesce_counters _ _).2.2.trans ?_
      rw [← size]
      rfl
    · refine (coalesce_counters _ _).2.1.trans ?_
      rw [← size]
      rfl

theorem Changed.counted (changed : Changed s arenas t arenas') (counted : Counted s arenas) :
    Counted t arenas' := by
  cases changed with
  | requested requested => exact requested.counted inv counted
  | released released => exact released.counted inv counted
  | aside pages => exact ⟨counted.pages, counted.used, counted.total⟩

end

end Counters

section Agreement

variable {s : State} {arenas : List Arena}

theorem started_counted {σ : System} (started : Started σ) :
    ∃ arenas, Invariant σ.heap arenas ∧ σ.live.Perm (usedAll arenas) ∧ Counted σ.heap arenas := by
  obtain ⟨image, mem, mmuEnabled, pages, reached, rfl⟩ := started
  have cleared : Invariant (empty pages) [] :=
    ⟨PageAlloc.reachable_invariant image mem mmuEnabled reached, rfl, by simp, List.Pairwise.nil⟩
  have nothing : Counted (empty pages) [] := ⟨rfl, rfl, rfl⟩
  cases found : PageAlloc.pageAllocContiguous pages 1 with
  | mk result after =>
    cases result with
    | none =>
      obtain ⟨t, call, inv⟩ := addArena_none cleared found
      refine ⟨[], by simpa only [init, call] using inv, List.Perm.nil, ?_⟩
      simp only [init, addArena, empty, found]
      exact ⟨rfl, rfl, rfl⟩
    | some rawPa =>
      obtain ⟨t, call, inv, -⟩ := addArena_some cleared found
      have counted := addArena_counted cleared nothing found call
      exact ⟨_, by simpa only [init, call] using inv, List.Perm.nil,
        by simpa only [init, call] using counted⟩

theorem reachable_counted {σ : System}
    (reached : Transition.Reachable Started step Transition.always σ) :
    ∃ arenas, Invariant σ.heap arenas ∧ σ.live.Perm (usedAll arenas) ∧ Counted σ.heap arenas := by
  refine reached.invariant (fun _ started => started_counted started) ?_
  rintro before after event ⟨arenas, inv, perm, counted⟩ _ taken
  obtain ⟨arenas', changed, inv', perm'⟩ := step_changed inv perm taken
  exact ⟨arenas', inv', perm', changed.counted inv counted⟩

theorem Laid.taken {m : Nat → Nat} {blocks : List Block} : ∀ {prev addr next : Nat},
    Laid m prev addr blocks next →
    (((starts addr blocks).filter fun b => m (b + 8) = 0).map m).sum = Tiling.taken blocks := by
  induction blocks with
  | nil => intro prev addr next _; rfl
  | cons block rest ih =>
    intro prev addr next laid
    have flag := laid.1.free
    have tail := ih laid.2
    simp only [starts, taken_cons]
    by_cases free : block.free = true
    · rw [if_pos free] at flag
      rw [List.filter_cons_of_neg (by simp [flag]), tail, if_pos free, Nat.zero_add]
    · rw [if_neg free] at flag
      rw [List.filter_cons_of_pos (by simp [flag]), List.map_cons, List.sum_cons, tail,
        laid.1.size, if_neg free]

/-- The debugging walk finds the free bytes of every arena. -/
theorem usages_eq (arenas : List Arena) (each : ∀ a ∈ arenas, ArenaAt s a) :
    ∃ usages, (arenas.map Arena.base).mapM (fun page =>
        debugArenaUsage s loopFuel (s.load (page + 32)) 0 0) = some usages ∧
      usages.map Prod.fst = arenas.map fun a => spare a.blocks := by
  induction arenas with
  | nil => exact ⟨[], rfl, rfl⟩
  | cons a rest ih =>
    obtain ⟨at_, others⟩ := List.forall_mem_cons.mp each
    obtain ⟨usages, walked, sums⟩ := ih others
    have low := at_.low
    have high := at_.high
    have extent := at_.extent
    rw [span_eq] at extent
    obtain ⟨found, usage⟩ := @debugArenaUsage_spec s a.blocks 0 (a.base + 48) loopFuel 0 0
      (by omega) at_.laid at_.blocks_lt (by omega)
    rw [if_neg at_.blocks_ne_nil, ← at_.firstBlock, Nat.zero_add] at usage
    refine ⟨(spare a.blocks, found) :: usages, ?_, ?_⟩
    · simp [usage, walked]
    · simp [sums]

/-- The counter of free bytes is ahead of the free bytes by a header for every cut. -/
theorem Counted.free_eq (each : ∀ a ∈ arenas, ArenaAt s a) :
    (arenas.map fun a => 4096 * a.pageCount - 80).sum =
      (arenas.map fun a => spare a.blocks).sum + (arenas.map fun a => Tiling.taken a.blocks).sum +
        32 * (arenas.map fun a => a.blocks.length - 1).sum := by
  induction arenas with
  | nil => rfl
  | cons a rest ih =>
    obtain ⟨at_, others⟩ := List.forall_mem_cons.mp each
    have tail := ih others
    have exact := at_.tiled.exact
    have length := List.length_pos_of_ne_nil at_.blocks_ne_nil
    rw [span_eq] at exact
    simp only [List.map_cons, List.sum_cons]
    omega

theorem length_starts (blocks : List Block) : ∀ addr, (starts addr blocks).length = blocks.length := by
  induction blocks with
  | nil => intro addr; rfl
  | cons block rest ih => intro addr; simp [starts, ih]

theorem Invariant.uncut_iff (inv : Invariant s arenas) :
    Uncut s ↔ (arenas.map fun a => a.blocks.length - 1).sum = 0 := by
  rw [List.sum_eq_zero_iff]
  simp only [Uncut, inv.arenas_eq, List.forall_mem_map]
  refine forall₂_congr fun a member => ?_
  have at_ := inv.each a member
  have length := List.length_pos_of_ne_nil at_.blocks_ne_nil
  rw [at_.blocksOf_eq, length_starts]
  omega

/-- The used bytes and the pages are always counted right. -/
theorem Counted.used_pages (inv : Invariant s arenas) (counted : Counted s arenas) :
    s.usedSpace = (s.arenas.map fun page =>
        (((s.blocksOf page).filter fun b => s.load (b + 8) = 0).map s.load).sum).sum ∧
      s.pagesUsed = (s.arenas.map fun page => s.load (page + 8)).sum := by
  rw [counted.used, counted.pages, inv.arenas_eq, List.map_map, List.map_map]
  refine ⟨congrArg List.sum (List.map_congr_left fun a member => ?_),
    congrArg List.sum (List.map_congr_left fun a member => ?_)⟩
  · have at_ := inv.each a member
    simp only [Function.comp_apply, at_.blocksOf_eq, at_.laid.taken]
  · exact (inv.each a member).count.symm

end Agreement

/-- The statistics are truthful exactly while no arena is cut; of the three counters only that of
the free bytes ever goes wrong. -/
theorem run_truthful {σ : System}
    (reached : Transition.Reachable Started step Transition.always σ) :
    Truthful σ.heap ↔ Uncut σ.heap := by
  obtain ⟨arenas, inv, -, counted⟩ := reachable_counted reached
  obtain ⟨usages, walked, sums⟩ := usages_eq arenas inv.each
  have balance := Counted.free_eq inv.each
  have total := counted.total
  have used := counted.used
  rw [inv.uncut_iff]
  constructor
  · rintro ⟨⟨usages', walked', free⟩, -, -⟩
    rw [inv.arenas_eq, walked] at walked'
    cases walked'
    rw [sums] at free
    omega
  · intro uncut
    obtain ⟨usedBytes, pageCounts⟩ := counted.used_pages inv
    refine ⟨⟨usages, inv.arenas_eq ▸ walked, ?_⟩, usedBytes, pageCounts⟩
    rw [sums]
    omega

/-- A request that takes the whole of the first arena. -/
theorem run_truthful_whole :
    ∃ σ, Transition.run step smallSystem [.kmalloc 4000] = some σ ∧ σ.heap.usedSpace = 4016 ∧
      Truthful σ.heap := by
  refine Transition.ends_imp (Q := fun σ => σ.heap.usedSpace = 4016 ∧ Uncut σ.heap)
    (by decide +kernel) ?_
  rintro σ ran ⟨used, uncut⟩
  exact ⟨used, (run_truthful (.of_ran smallSystem_started ran)).mpr uncut⟩

/-- After a request for 24 bytes the counter says 3984 and the walk finds 3952. -/
theorem run_truthful_cut :
    ∃ σ, Transition.run step smallSystem [.kmalloc 24] = some σ ∧ σ.heap.freeSpace = 3984 ∧
      σ.heap.arenas.mapM (fun page =>
        debugArenaUsage σ.heap loopFuel (σ.heap.load (page + 32)) 0 0) = some [(3952, 3952)] ∧
      ¬ Truthful σ.heap := by
  refine Transition.ends_imp (Q := fun σ => σ.heap.freeSpace = 3984 ∧
    σ.heap.arenas.mapM (fun page =>
      debugArenaUsage σ.heap loopFuel (σ.heap.load (page + 32)) 0 0) = some [(3952, 3952)])
    (by decide +kernel) ?_
  rintro σ - ⟨free, walked⟩
  refine ⟨free, walked, ?_⟩
  rintro ⟨⟨usages, walked', free'⟩, -, -⟩
  cases walked.symm.trans walked'
  rw [free] at free'
  cases free'

end OsArmv8a.Heap
