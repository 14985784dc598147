import OsArmv8a.HeapLayout

set_option autoImplicit false

namespace OsArmv8a.Heap

open Tiling State

variable {front : List Block} {prev addr next : Nat}

/-- Everything from some block on may be replaced when the blocks before it are untouched. -/
theorem Laid.replace {m fresh : Nat → Nat} {old new : List Block}
    (laid : Laid m prev addr (front ++ old) next) (nonempty : old ≠ [] ∧ new ≠ [])
    (same : ∀ a, addr ≤ a → a < addr + span 32 front → fresh a = m a)
    (rest : Laid fresh (lastAddr prev addr front) (addr + span 32 front) new next) :
    Laid fresh prev addr (front ++ new) next := by
  obtain ⟨before, _⟩ := laid_append.mp laid
  rw [if_neg nonempty.1] at before
  refine laid_append.mpr ⟨?_, rest⟩
  rw [if_neg nonempty.2]
  exact before.frame same

/-- The address that a `next` field holds is null exactly at the end. -/
theorem next_eq_zero (back : List Block) (positive : addr ≠ 0) :
    (if back = [] then 0 else addr) = 0 ↔ back = [] := by
  split
  · rename_i empty
    exact ⟨fun _ => empty, fun _ => rfl⟩
  · rename_i nonempty
    exact ⟨fun zero => absurd zero positive, fun empty => absurd empty nonempty⟩

variable {s : State} {block : Block} {back : List Block}

/-- Marking a block used or free changes its own flag only. -/
theorem Laid.setFree (high : kernelVaOffset ≤ addr) (laid : Laid s.load prev addr (block :: back) 0)
    (free : Bool) :
    Laid (s.store (addr + 8) (if free = true then 1 else 0)).load prev addr
      ({ block with free := free } :: back) 0 := by
  obtain ⟨header, rest⟩ := laid
  have small : (if free = true then 1 else 0) < 2 ^ 64 := by split <;> omega
  refine ⟨⟨?_, ?_, ?_, ?_⟩, ?_⟩
  · rw [load_store_other (by omega) (by omega) (by omega)]
    exact header.size
  · exact load_store_same small
  · rw [load_store_other (by omega) (by omega) (by omega)]
    exact header.next
  · rw [load_store_other (by omega) (by omega) (by omega)]
    exact header.prev
  · refine rest.frame ?_
    intro a lower _
    exact load_store_other (by omega) (by omega) (by omega)

/-- The words a split writes: the old header at `addr`, the new one and the back link of
the block that follows. -/
structure SplitEffect (s t : State) (addr size total next : Nat) : Prop where
  oldSize : t.load addr = size
  oldFree : t.load (addr + 8) = s.load (addr + 8)
  oldNext : t.load (addr + 16) = addr + (32 + size)
  oldPrev : t.load (addr + 24) = s.load (addr + 24)
  newSize : t.load (addr + (32 + size)) = total - size - 32
  newFree : t.load (addr + (32 + size) + 8) = 1
  newNext : t.load (addr + (32 + size) + 16) = next
  newPrev : t.load (addr + (32 + size) + 24) = addr
  back : next ≠ 0 → t.load (next + 24) = addr + (32 + size)
  frame : ∀ a, addr + (32 + total) ≤ a → (next ≠ 0 → a ≠ next + 24) → t.load a = s.load a
  within : ∀ stop, addr + (32 + total) ≤ stop → (next ≠ 0 → next + 32 ≤ stop) →
    Within s t addr stop

variable {size : Nat}

theorem splitBlock_effect {total : Nat} (high : kernelVaOffset ≤ addr)
    (top : addr + (32 + total) ≤ 0x48000000 + kernelVaOffset) (whole : s.load addr = total)
    (large : size + 48 ≤ total) (link : s.load (addr + 16) = next)
    (far : next = 0 ∨ next = addr + (32 + total)) :
    SplitEffect s (splitBlock s addr size) addr size total next := by
  have space := kernelVaOffset_top
  have sum : Word64.add size 48 = size + 48 := Word64.add_of_lt (by omega)
  have remaining : Word64.sub (Word64.sub total size) 32 = total - size - 32 := by
    have first : Word64.sub total size = total - size := Word64.sub_of_le (by omega) (by omega)
    rw [first]
    exact Word64.sub_of_le (by omega) (by omega)
  have address : Word64.add (addr + 32) size = addr + (32 + size) := by
    rw [Word64.add_of_lt (by omega)]
    omega
  have bound : next < 2 ^ 64 := by omega
  unfold splitBlock
  rw [whole, sum, if_neg (Nat.not_lt.mpr large), remaining, address]
  simp (disch := omega) only [load_store_same, load_store_other, link]
  rcases far with rfl | rfl
  · rw [if_neg (not_not_intro rfl)]
    constructor
    case within =>
      intro stop upper _
      refine ((((((Within.refl s addr stop).store ?_ ?_ ?_).store ?_ ?_ ?_).store ?_ ?_ ?_).store
        ?_ ?_ ?_).store ?_ ?_ ?_).store ?_ ?_ ?_
      all_goals omega
    case frame =>
      intro a above _
      simp (disch := omega) only [load_store_other]
    case back => intro absent; exact absurd rfl absent
    all_goals simp (disch := omega) only [load_store_same, load_store_other]
  · rw [if_pos (by omega)]
    constructor
    case within =>
      intro stop upper room
      have roomy := room (by omega)
      refine (((((((Within.refl s addr stop).store ?_ ?_ ?_).store ?_ ?_ ?_).store ?_ ?_ ?_).store
        ?_ ?_ ?_).store ?_ ?_ ?_).store ?_ ?_ ?_).store ?_ ?_ ?_
      all_goals omega
    case frame =>
      intro a above apart
      have away := apart (by omega)
      simp (disch := omega) only [load_store_other]
    case back =>
      intro _
      simp (disch := omega) only [load_store_same, load_store_other]
    all_goals simp (disch := omega) only [load_store_same, load_store_other]

/-- Splitting off the tail of a block inserts a header for it. -/
theorem splitBlock_laid (high : kernelVaOffset ≤ addr)
    (top : addr + span 32 (block :: back) ≤ 0x48000000 + kernelVaOffset)
    (laid : Laid s.load prev addr (block :: back) 0) (fits : size ≤ block.size) :
    Within s (splitBlock s addr size) addr (addr + span 32 (block :: back)) ∧
      Laid (splitBlock s addr size).load prev addr
        ((if block.size < size + 48 then [block]
          else [{ block with size := size }, { size := block.size - size - 32, free := true }])
          ++ back) 0 := by
  obtain ⟨header, rest⟩ := laid
  simp only [span_cons] at top ⊢
  have sum : Word64.add size 48 = size + 48 := Word64.add_of_lt (by omega)
  by_cases small : block.size < size + 48
  · have unchanged : splitBlock s addr size = s := by
      unfold splitBlock
      rw [header.size, sum, if_pos small]
    rw [unchanged, if_pos small]
    exact ⟨Within.refl _ _ _, header, rest⟩
  · rw [if_neg small]
    have effect := splitBlock_effect high
      (show addr + (32 + block.size) ≤ 0x48000000 + kernelVaOffset by omega) header.size
      (Nat.not_lt.mp small) header.next (by split <;> simp)
    have linked := next_eq_zero back (show addr + (32 + block.size) ≠ 0 by omega)
    have tail : addr + (32 + size) + (32 + (block.size - size - 32)) =
        addr + (32 + block.size) := by omega
    constructor
    · refine effect.within _ (by omega) ?_
      intro more
      rw [if_neg (fun empty => more (linked.mpr empty))]
      cases back with
      | nil => exact absurd (linked.mpr rfl) more
      | cons after rest => simp only [span_cons]; omega
    · refine ⟨⟨effect.oldSize, ?_, ?_, ?_⟩, ⟨effect.newSize, ?_, ?_, effect.newPrev⟩, ?_⟩
      · rw [effect.oldFree]
        exact header.free
      · rw [effect.oldNext]
        simp
      · rw [effect.oldPrev]
        exact header.prev
      · simpa using effect.newFree
      · rw [effect.newNext, tail]
        rfl
      · rw [tail]
        refine Laid.relink rest ?_ ?_
        · intro a lower upper apart
          refine effect.frame a lower ?_
          intro more
          rw [if_neg (fun empty => more (linked.mpr empty))]
          exact apart
        · intro nonempty
          change back ≠ [] at nonempty
          have value := effect.back
          rw [if_neg nonempty] at value
          exact value (by omega)

theorem takeBlock_pages (s : State) (block size : Nat) :
    (takeBlock s block size).pages = ((splitBlock s block size).store (block + 8) 0).pages := rfl

theorem takeBlock_load (s : State) (block size : Nat) :
    (takeBlock s block size).load = ((splitBlock s block size).store (block + 8) 0).load := by
  unfold State.load
  rw [takeBlock_pages]

theorem takeBlock_laid (high : kernelVaOffset ≤ addr)
    (top : addr + span 32 (block :: back) ≤ 0x48000000 + kernelVaOffset)
    (laid : Laid s.load prev addr (block :: back) 0) (fits : size ≤ block.size) :
    Within s (takeBlock s addr size) addr (addr + span 32 (block :: back)) ∧
      Laid (takeBlock s addr size).load prev addr (carve 32 16 size block ++ back) 0 := by
  obtain ⟨within, split⟩ := splitBlock_laid high top laid fits
  have inside : Within s ((splitBlock s addr size).store (addr + 8) 0) addr
      (addr + span 32 (block :: back)) := by
    refine within.store high (by omega) ?_
    simp only [span_cons]
    omega
  constructor
  · refine ⟨?_, inside.heapPages, ?_⟩
    · exact inside.pages
    · exact inside.mem
  · rw [takeBlock_load]
    unfold carve
    by_cases small : block.size < size + 48
    · rw [if_pos small] at split ⊢
      exact Laid.setFree high split false
    · rw [if_neg small] at split ⊢
      exact Laid.setFree high split false

/-- The words written when the block at `addr` swallows the one after it. -/
structure JoinEffect (s t : State) (addr total next : Nat) : Prop where
  size : t.load addr = total
  link : t.load (addr + 16) = next
  back : next ≠ 0 → t.load (next + 24) = addr
  frame : ∀ a, kernelVaOffset ≤ a → a ≠ addr → a ≠ addr + 16 → (next ≠ 0 → a ≠ next + 24) →
    t.load a = s.load a
  within : ∀ stop, addr + 32 ≤ stop → (next ≠ 0 → next + 32 ≤ stop) → Within s t addr stop

/-- The three stores of a join, whichever half of `kernel_heap_coalesce` makes them. -/
theorem stores_joinEffect {total : Nat} (high : kernelVaOffset ≤ addr)
    (small : total < 2 ^ 64 ∧ addr < 2 ^ 64 ∧ next < 2 ^ 64) (far : next = 0 ∨ addr + 32 ≤ next) :
    JoinEffect s
      (if next ≠ 0 then ((s.store addr total).store (addr + 16) next).store (next + 24) addr
        else (s.store addr total).store (addr + 16) next) addr total next := by
  rcases far with rfl | far
  · rw [if_neg (not_not_intro rfl)]
    constructor
    case back => intro absent; exact absurd rfl absent
    case frame =>
      intro a _ _ _ _
      simp (disch := omega) only [load_store_other]
    case within =>
      intro stop room _
      refine ((Within.refl s addr stop).store ?_ ?_ ?_).store ?_ ?_ ?_
      all_goals omega
    all_goals simp (disch := omega) only [load_store_same, load_store_other]
  · rw [if_pos (by omega)]
    constructor
    case back =>
      intro _
      simp (disch := omega) only [load_store_same]
    case frame =>
      intro a _ _ _ apart
      simp (disch := omega) only [load_store_other]
    case within =>
      intro stop room more
      refine (((Within.refl s addr stop).store ?_ ?_ ?_).store ?_ ?_ ?_).store ?_ ?_ ?_
      all_goals omega
    all_goals simp (disch := omega) only [load_store_same, load_store_other]

theorem JoinEffect.laid {t : State} {next : Block} {rest : List Block}
    (high : kernelVaOffset ≤ addr) (laid : Laid s.load prev addr (block :: next :: rest) 0)
    (effect : JoinEffect s t addr (block.size + (32 + next.size))
      (if rest = [] then 0 else addr + (32 + block.size) + (32 + next.size))) :
    Within s t addr (addr + span 32 (block :: next :: rest)) ∧
      Laid t.load prev addr ({ block with size := block.size + (32 + next.size) } :: rest) 0 := by
  obtain ⟨header, nextHeader, after⟩ := laid
  have linked := next_eq_zero rest
    (show addr + (32 + block.size) + (32 + next.size) ≠ 0 by omega)
  have tail : addr + (32 + (block.size + (32 + next.size))) =
      addr + (32 + block.size) + (32 + next.size) := by omega
  constructor
  · refine effect.within _ (by simp only [span_cons]; omega) ?_
    intro more
    cases rest with
    | nil => exact absurd rfl more
    | cons third rest => simp only [span_cons, reduceCtorEq, if_false]; omega
  · have own : ∀ a, kernelVaOffset ≤ a → a ≠ addr → a ≠ addr + 16 → a < addr + 32 →
        t.load a = s.load a := by
      intro a base first second below
      refine effect.frame a base first second ?_
      intro more
      rw [if_neg (fun empty => more (linked.mpr empty))]
      omega
    refine ⟨⟨effect.size, ?_, ?_, ?_⟩, ?_⟩
    · rw [own _ (by omega) (by omega) (by omega) (by omega)]
      exact header.free
    · rw [effect.link, tail]
    · rw [own _ (by omega) (by omega) (by omega) (by omega)]
      exact header.prev
    · simp only [tail]
      refine Laid.relink after ?_ ?_
      · intro a lower upper apart
        refine effect.frame a (by omega) (by omega) (by omega) ?_
        intro more
        rw [if_neg (fun empty => more (linked.mpr empty))]
        exact apart
      · intro nonempty
        have value := effect.back
        rw [if_neg nonempty] at value
        exact value (by omega)

/-- Joining a block with a free successor. -/
theorem mergeNext_laid (high : kernelVaOffset ≤ addr)
    (top : addr + span 32 (block :: back) ≤ 0x48000000 + kernelVaOffset)
    (laid : Laid s.load prev addr (block :: back) 0) :
    (∀ next ∈ back.head?, next.free = false) ∧ mergeNext s addr = s ∨
      ∃ next rest, back = next :: rest ∧ next.free = true ∧
        Within s (mergeNext s addr) addr (addr + span 32 (block :: back)) ∧
        Laid (mergeNext s addr).load prev addr
          ({ block with size := block.size + (32 + next.size) } :: rest) 0 := by
  have space := kernelVaOffset_top
  cases back with
  | nil =>
    refine Or.inl ⟨by simp, ?_⟩
    unfold mergeNext
    simp [laid.1.next]
  | cons next rest =>
    have link : s.load (addr + 16) = addr + (32 + block.size) := laid.1.next
    have flag := laid.2.1.free
    by_cases free : next.free = true
    · refine Or.inr ⟨next, rest, rfl, free, ?_⟩
      refine JoinEffect.laid high laid ?_
      have nextLink := laid.2.1.next
      have own := laid.1.size
      have other := laid.2.1.size
      simp only [span_cons] at top
      have bound : (if rest = [] then 0 else addr + (32 + block.size) + (32 + next.size)) <
          2 ^ 64 := by split <;> omega
      have far : (if rest = [] then 0 else addr + (32 + block.size) + (32 + next.size)) = 0 ∨
          addr + 32 ≤ (if rest = [] then 0 else addr + (32 + block.size) + (32 + next.size)) := by
        split <;> omega
      have inner : Word64.add 32 next.size = 32 + next.size := Word64.add_of_lt (by omega)
      have sum : Word64.add block.size (32 + next.size) = block.size + (32 + next.size) :=
        Word64.add_of_lt (by omega)
      rw [if_pos free] at flag
      unfold mergeNext
      simp only [link]
      rw [if_pos ⟨by omega, by omega⟩]
      simp (disch := omega) only [own, other, inner, sum, load_store_other, nextLink,
        load_store_same]
      exact stores_joinEffect high ⟨by omega, by omega, bound⟩ far
    · refine Or.inl ⟨by simpa using free, ?_⟩
      unfold mergeNext
      simp [link, flag, free]

/-- Joining a block to a free predecessor. -/
theorem mergePrev_laid {previous : Block} (high : kernelVaOffset ≤ addr)
    (top : addr + span 32 (previous :: block :: back) ≤ 0x48000000 + kernelVaOffset)
    (laid : Laid s.load prev addr (previous :: block :: back) 0) (free : previous.free = true) :
    Within s (mergePrev s (addr + (32 + previous.size))) addr
        (addr + span 32 (previous :: block :: back)) ∧
      Laid (mergePrev s (addr + (32 + previous.size))).load prev addr
        ({ previous with size := previous.size + (32 + block.size) } :: back) 0 := by
  have space := kernelVaOffset_top
  refine JoinEffect.laid high laid ?_
  have link : s.load (addr + (32 + previous.size) + 24) = addr := laid.2.1.prev
  have next := laid.2.1.next
  have own := laid.1.size
  have other := laid.2.1.size
  have flag := laid.1.free
  simp only [span_cons] at top
  have bound : (if back = [] then 0 else addr + (32 + previous.size) + (32 + block.size)) <
      2 ^ 64 := by split <;> omega
  have far : (if back = [] then 0 else addr + (32 + previous.size) + (32 + block.size)) = 0 ∨
      addr + 32 ≤ (if back = [] then 0 else addr + (32 + previous.size) + (32 + block.size)) := by
    split <;> omega
  have inner : Word64.add 32 block.size = 32 + block.size := Word64.add_of_lt (by omega)
  have sum : Word64.add previous.size (32 + block.size) = previous.size + (32 + block.size) :=
    Word64.add_of_lt (by omega)
  rw [if_pos free] at flag
  unfold mergePrev
  simp only [link]
  rw [if_pos ⟨by omega, by omega⟩]
  simp (disch := omega) only [own, other, inner, sum, load_store_other, next]
  exact stores_joinEffect high ⟨by omega, by omega, bound⟩ far

theorem Within.mono {t : State} {low high low' high' : Nat} (within : Within s t low high)
    (lower : low' ≤ low) (upper : high ≤ high') : Within s t low' high' :=
  ⟨within.pages, within.heapPages, fun pa outside => within.mem pa (by omega)⟩

/-- The second half of coalescing, seen from the whole list. -/
theorem mergePrev_front {first : Nat} (high : kernelVaOffset ≤ first)
    (top : first + span 32 (front ++ block :: back) ≤ 0x48000000 + kernelVaOffset)
    (laid : Laid s.load 0 first (front ++ block :: back) 0) :
    (∀ previous ∈ front.getLast?, previous.free = false) ∧
        mergePrev s (first + span 32 front) = s ∨
      ∃ before previous, front = before ++ [previous] ∧ previous.free = true ∧
        Within s (mergePrev s (first + span 32 front)) first
          (first + span 32 (front ++ block :: back)) ∧
        Laid (mergePrev s (first + span 32 front)).load 0 first
          (before ++ { size := previous.size + (32 + block.size), free := true } :: back) 0 := by
  rcases List.eq_nil_or_concat' front with rfl | ⟨before, previous, rfl⟩
  · refine Or.inl ⟨by simp, ?_⟩
    have link : s.load (first + 24) = 0 := laid.1.prev
    unfold mergePrev
    simp [link]
  · have split : before ++ [previous] ++ block :: back = before ++ previous :: block :: back := by
      simp
    have address : first + span 32 (before ++ [previous]) =
        first + span 32 before + (32 + previous.size) := by
      simp only [span_append, span_cons, span_nil]
      omega
    rw [split] at laid top ⊢
    have focus := (laid_append.mp laid).2
    rw [address]
    by_cases free : previous.free = true
    · refine Or.inr ⟨before, previous, rfl, free, ?_⟩
      rw [span_append] at top
      obtain ⟨within, joined⟩ := mergePrev_laid (by omega) (by omega) focus free
      have merged : ({ previous with size := previous.size + (32 + block.size) } : Block) =
          { size := previous.size + (32 + block.size), free := true } := by rw [← free]
      rw [merged] at joined
      refine ⟨within.mono (by omega) (by rw [span_append]; omega), ?_⟩
      refine laid.replace (by simp) ?_ joined
      intro a lower upper
      exact within.load (by omega) (Or.inl upper)
    · refine Or.inl ⟨by simpa using free, ?_⟩
      have link : s.load (first + span 32 before + (32 + previous.size) + 24) =
          first + span 32 before := focus.2.1.prev
      have flag := focus.1.free
      unfold mergePrev
      simp [link, flag, free]

/-- Giving the block at `first + span 32 front` back joins it with its free neighbours. -/
theorem coalesce_laid {first : Nat} (high : kernelVaOffset ≤ first)
    (top : first + span 32 (front ++ block :: back) ≤ 0x48000000 + kernelVaOffset)
    (laid : Laid s.load 0 first (front ++ { block with free := true } :: back) 0) :
    Within s (coalesce s (first + span 32 front)) first
        (first + span 32 (front ++ block :: back)) ∧
      ∃ blocks, Joined 32 block front back blocks ∧
        Laid (coalesce s (first + span 32 front)).load 0 first blocks 0 := by
  unfold coalesce
  have focus := (laid_append.mp laid).2
  simp only [span_append] at top
  have sizes : span 32 ({ block with free := true } :: back) = span 32 (block :: back) := rfl
  rcases mergeNext_laid (by omega) (by omega) focus with ⟨right, same⟩ | ⟨next, rest, rfl, right,
    within, joined⟩
  · rw [same]
    rcases mergePrev_front high (by rw [span_append]; omega) laid with
      ⟨left, same⟩ | ⟨before, previous, rfl, left, within, joined⟩
    · rw [same]
      exact ⟨Within.refl _ _ _, _, .neither left right, laid⟩
    · refine ⟨?_, _, .previous left right, joined⟩
      exact within.mono (Nat.le_refl _) (by simp only [span_append, span_cons]; omega)
  · have whole : Laid (mergeNext s (first + span 32 front)).load 0 first
        (front ++ { size := block.size + (32 + next.size), free := true } :: rest) 0 := by
      refine laid.replace (by simp) ?_ joined
      intro a lower upper
      exact within.load (by omega) (Or.inl upper)
    have wide : Within s (mergeNext s (first + span 32 front)) first
        (first + span 32 (front ++ block :: next :: rest)) :=
      within.mono (by omega) (by simp only [span_append, span_cons]; omega)
    simp only [span_cons] at top
    rcases mergePrev_front high (by simp only [span_append, span_cons]; omega) whole with
      ⟨left, same⟩ | ⟨before, previous, rfl, left, second, joined⟩
    · rw [same]
      exact ⟨wide, _, .next left right, whole⟩
    · refine ⟨wide.trans (second.mono (Nat.le_refl _) ?_), _, .both left right, joined⟩
      simp only [span_append, span_cons]
      omega

end OsArmv8a.Heap
