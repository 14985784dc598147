import OsArmv8a.PageAllocFrame

/-! First fit of `page_alloc_contiguous`, and the memory the calls of `page_alloc.c` write. -/

set_option autoImplicit false

namespace OsArmv8a.PageAlloc

open Intrusive

section FirstFit

variable {s t : State} {pageCount start : Nat}

/-- Consecutive free managed pages; a run has at least one page. -/
structure FreeRun (s : State) (start count : Nat) : Prop where
  nonempty : 0 < count
  managed : ManagedSpan s start count
  free : ∀ pa ∈ pagesFrom start count, s.stateAt pa = .free

/-- The search stops at the first run: any run that the accumulators have not excluded yet starts no
lower than the one it finds. -/
theorem findRun_first (count : Nat) : ∀ {start runStart runLength candidate : Nat},
    runLength < pageCount → (runLength = 0 ∨ runStart + 4096 * runLength = start) →
    candidate % 4096 = start % 4096 → start ≤ candidate + 4096 * runLength →
    candidate + 4096 * pageCount ≤ start + 4096 * count →
    (∀ offset < pageCount, s.stateAt (candidate + 4096 * offset) = .free) →
    ∃ found, findRun s pageCount (pagesFrom start count) runStart runLength = some found ∧
      found ≤ candidate := by
  induction count with
  | zero =>
    intro start runStart runLength candidate short _ _ later fits _
    omega
  | succ count ih =>
    intro start runStart runLength candidate short adjacent aligned later fits free
    simp only [pagesFrom, findRun]
    split
    · have grown : (if runLength = 0 then start else runStart) + 4096 * (runLength + 1) =
          start + 4096 := by
        split <;> omega
      split
      · exact ⟨_, rfl, by omega⟩
      · exact ih (by omega) (Or.inr grown) (by omega) (by omega) (by omega) free
    · rename_i used
      -- The page at `start` is used, so the candidate begins behind it.
      have behind : start < candidate := by
        by_contra before
        refine used ?_
        have here := free ((start - candidate) / 4096) (by omega)
        rwa [show candidate + 4096 * ((start - candidate) / 4096) = start by omega] at here
      exact ih (by omega) (Or.inl rfl) (by omega) (by omega) (by omega) free

theorem FreeRun.enough (inv : Invariant s) (run : FreeRun s start pageCount) :
    pageCount ≤ s.freePages := by
  have window := inv.core.window
  have members : pagesFrom start pageCount ⊆ freeManaged s := fun pa member =>
    window.mem_freeManaged.mpr ⟨run.managed pa member, run.free pa member⟩
  have shorter := (List.subperm_of_subset (nodup_pagesFrom _ _) members).length_le
  rwa [length_pagesFrom, ← inv.linked.freePages_eq window] at shorter

/-- A run is found when there is one, and none starts lower. -/
theorem pageAllocContiguous_complete (inv : Invariant s) (run : FreeRun s start pageCount) :
    ∃ found t, pageAllocContiguous s pageCount = (some found, t) ∧ found ≤ start := by
  have window := inv.core.window
  have first := run.managed start (mem_pagesFrom.mpr ⟨0, run.nonempty, rfl⟩)
  have last := run.managed (start + 4096 * (pageCount - 1))
    (mem_pagesFrom.mpr ⟨pageCount - 1, by have := run.nonempty; omega, rfl⟩)
  have base := window.aligned
  have top := window.top
  have nonempty := run.nonempty
  have enough := run.enough inv
  obtain ⟨found, search, lower⟩ := @findRun_first s pageCount
    ((s.managedEnd - s.managedStart) / 4096) s.managedStart 0 0 start run.nonempty (Or.inl rfl)
    (by have aligned := first.2.2; omega) (by have above := first.1; omega)
    (by have below := last.2.1; have aligned := first.2.2; omega)
    (fun offset inside => run.free _ (mem_pagesFrom.mpr ⟨offset, inside, rfl⟩))
  unfold pageAllocContiguous
  rw [if_neg (by omega), State.managedPages, search]
  exact ⟨_, _, rfl, lower⟩

theorem pairwise_pagesFrom (count : Nat) : ∀ start, (pagesFrom start count).Pairwise (· < ·) := by
  induction count with
  | zero => exact fun start => List.Pairwise.nil
  | succ count ih =>
    intro start
    refine List.Pairwise.cons ?_ (ih (start + 4096))
    intro pa member
    obtain ⟨offset, _, rfl⟩ := mem_pagesFrom.mp member
    omega

/-- The rebuilt list holds the free pages in ascending order. -/
theorem pageAllocContiguous_list (inv : Invariant s)
    (taken : pageAllocContiguous s pageCount = (some start, t)) :
    Chain t.link t.head (freeManaged t) ∧ t.freePages + pageCount = s.freePages := by
  have acquired := (pageAllocContiguous_spec inv taken).1
  unfold pageAllocContiguous at taken
  split at taken
  · cases taken
  split at taken
  · cases taken
  cases taken
  have painted := takeSpan_spec acquired.managed
  generalize (pagesFrom start pageCount).foldl takePage s = span at *
  obtain ⟨-, rebuilt, -⟩ := painted.rebuild inv (span.freePages - pageCount)
    (Or.inr ⟨rfl, fun _ => by decide⟩)
  refine ⟨?_, ?_⟩
  · rw [freeManaged, rebuilt.same.managedPages_eq]
    simp only [rebuilt.stateAt]
    exact rebuilt.chain
  · have spanned := painted.freePages
    rw [rebuilt.freePages]
    dsimp only
    omega

/-- What a successful contiguous allocation is meant to do. -/
structure FirstFit (s t : State) (start count : Nat) : Prop where
  run : FreeRun s start count
  lowest : ∀ other, FreeRun s other count → start ≤ other
  states : ∀ pa, Managed s pa → t.stateAt pa =
    if pa ∈ pagesFrom start count then .allocated else s.stateAt pa
  refs : ∀ pa, Managed s pa → t.refAt pa =
    if pa ∈ pagesFrom start count then 1 else s.refAt pa
  zeroed : ∀ a, start ≤ a → a < start + 4096 * count → t.mem a = 0
  counted : t.freePages + count = s.freePages
  list : ∃ xs, Chain t.link t.head xs ∧ xs.Pairwise (· < ·) ∧
    ∀ pa, pa ∈ xs ↔ Managed s pa ∧ s.stateAt pa = .free ∧ pa ∉ pagesFrom start count

theorem pageAllocContiguous_firstFit (inv : Invariant s)
    (taken : pageAllocContiguous s pageCount = (some start, t)) : FirstFit s t start pageCount := by
  obtain ⟨acquired, after⟩ := pageAllocContiguous_spec inv taken
  obtain ⟨chain, counted⟩ := pageAllocContiguous_list inv taken
  refine ⟨⟨pageAllocContiguous_positive taken, acquired.managed, acquired.wasFree⟩, ?_,
    acquired.states, acquired.refs, acquired.scrubbed, counted, freeManaged t, chain,
    (pairwise_pagesFrom _ _).filter _, ?_⟩
  · intro other run
    obtain ⟨found, u, result, lower⟩ := pageAllocContiguous_complete inv run
    rw [taken] at result
    cases result
    exact lower
  · intro pa
    rw [after.core.window.mem_freeManaged, acquired.same.managed_iff]
    refine and_congr_right fun managed => ?_
    rw [acquired.states pa managed]
    by_cases member : pa ∈ pagesFrom start pageCount
    · simp [member]
    · simp [member]

end FirstFit

theorem reachable_invariant (image : KernelImage) (mem : Mem) (mmuEnabled : Bool) {s : State}
    (reached : Transition.Reachable (· = init image mem mmuEnabled) step Transition.always s) :
    Invariant s := by
  refine reached.invariant ?_ ?_
  · rintro start rfl
    exact init_invariant image mem mmuEnabled
  · intro before after op inv _ taken
    exact step_invariant op inv taken

/-- Contiguous allocation is first fit and complete. -/
theorem run_firstFit (image : KernelImage) (mem : Mem) (mmuEnabled : Bool) {s : State}
    (reached : Transition.Reachable (· = init image mem mmuEnabled) step Transition.always s)
    (pageCount : Nat) :
    match pageAllocContiguous s pageCount with
    | (none, t) => t = s ∧ ∀ start, ¬ FreeRun s start pageCount
    | (some start, t) => FirstFit s t start pageCount := by
  have inv := reachable_invariant image mem mmuEnabled reached
  split
  · rename_i t failed
    refine ⟨pageAllocContiguous_none failed, fun start run => ?_⟩
    obtain ⟨found, u, result, _⟩ := pageAllocContiguous_complete inv run
    rw [failed] at result
    cases result
  · rename_i start t taken
    exact pageAllocContiguous_firstFit inv taken

theorem run_firstFit_hole :
    ∃ s t, Transition.run step (init ⟨0x47ffb000, by decide⟩ (fun _ => 0) false)
        [.allocContiguous 5, .free 0x47ffb000, .free 0x47ffd000, .free 0x47ffe000] = some s ∧
      pageAllocContiguous s 2 = (some 0x47ffd000, t) ∧ FirstFit s t 0x47ffd000 2 := by
  obtain ⟨s, ran, found⟩ : ∃ s, Transition.run step (init ⟨0x47ffb000, by decide⟩ (fun _ => 0) false)
      [.allocContiguous 5, .free 0x47ffb000, .free 0x47ffd000, .free 0x47ffe000] = some s ∧
      (pageAllocContiguous s 2).1 = some 0x47ffd000 := by
    decide +kernel
  have result : pageAllocContiguous s 2 = (some 0x47ffd000, (pageAllocContiguous s 2).2) := by
    rw [← found]
  have first := run_firstFit _ _ _ (.of_ran rfl ran) 2
  rw [result] at first
  exact ⟨s, _, ran, result, first⟩

section Writes

variable {s t : State} {op : Op}

/-- The calls of the allocator, as opposed to what the rest of the kernel does. -/
def Op.isCall : Op → Bool
  | .enableMmu => false
  | .store _ _ => false
  | _ => true

/-- The word lies in a page that is free before or after the call. -/
def InFreePage (s t : State) (a : Nat) : Prop :=
  ∃ page, Managed s page ∧ page ≤ a ∧ a < page + 4096 ∧
    (s.stateAt page = .free ∨ t.stateAt page = .free)

theorem Dropped.writes {pa : Nat} (dropped : Dropped s t pa) (managed : Managed s pa) (a : Nat) :
    t.mem a = s.mem a ∨ InFreePage s t a := by
  by_cases here : a = pa
  · by_cases shared : 1 < s.refAt pa
    · exact .inl (congrFun (dropped.shared shared) a)
    · refine .inr ⟨pa, managed, Nat.le_of_eq here.symm, by omega, .inr ?_⟩
      rw [dropped.states pa managed, if_pos rfl, if_neg shared]
  · exact .inl (dropped.frame a here)

/-- Every word that a call changes lies in a free page. -/
theorem step_writes (inv : Invariant s) (taken : step s op = some t) (call : op.isCall = true)
    (a : Nat) : t.mem a = s.mem a ∨ InFreePage s t a := by
  cases op with
  | alloc =>
    cases Option.some.inj taken
    cases result : pageAlloc s with
    | mk found after =>
      cases found with
      | none =>
        unfold pageAlloc at result
        split at result
        · cases result
          exact .inl rfl
        · cases result
      | some pa =>
        have acquired := pageAlloc_acquired inv result
        by_cases inside : pa ≤ a ∧ a < pa + 4096
        · exact .inr ⟨pa, acquired.managed, inside.1, inside.2, .inl acquired.wasFree⟩
        · exact .inl (acquired.frame a (by omega))
  | allocContiguous pageCount =>
    cases Option.some.inj taken
    cases result : pageAllocContiguous s pageCount with
    | mk found after =>
      cases found with
      | none =>
        rw [pageAllocContiguous_none result]
        exact .inl rfl
      | some start =>
        have acquired := (pageAllocContiguous_spec inv result).1
        by_cases inside : start ≤ a ∧ a < start + 4096 * pageCount
        · have member : start + 4096 * ((a - start) / 4096) ∈ pagesFrom start pageCount :=
            mem_pagesFrom.mpr ⟨(a - start) / 4096, by omega, rfl⟩
          exact .inr ⟨_, acquired.managed _ member, by omega, by omega,
            .inl (acquired.wasFree _ member)⟩
        · by_cases link : Managed s a ∧ s.stateAt a = .free
          · exact .inr ⟨a, link.1, Nat.le_refl a, by omega, .inl link.2⟩
          · exact .inl (acquired.frame a (by omega) link)
  | free pa =>
    cases Option.some.inj taken
    by_cases owned : Managed s pa ∧ s.stateAt pa = .allocated
    · exact (pageFree_dropped inv owned.1 owned.2).writes owned.1 a
    · obtain ⟨_, _, counted⟩ := pageFree_ignored owned
      rw [counted]
      exact .inl rfl
  | freeContiguous pageAddr pageCount address fits =>
    rcases pageFreeContiguous_cases inv address taken with ⟨_, _, rfl⟩ | ⟨released, _⟩
    · exact .inl rfl
    · by_cases link : Managed s a ∧ t.stateAt a = .free
      · exact .inr ⟨a, link.1, Nat.le_refl a, by omega, .inr link.2⟩
      · exact .inl (released.frame a link)
  | refInc pa aligned =>
    cases Option.some.inj taken
    unfold pageRefInc
    split
    · exact .inl rfl
    · split <;> exact .inl rfl
  | refDec pa aligned =>
    cases Option.some.inj taken
    by_cases owned : Managed s pa ∧ s.stateAt pa = .allocated
    · exact (pageRefDec_dropped inv owned.1 owned.2).writes owned.1 a
    · rw [pageRefDec_ignored aligned owned]
      exact .inl rfl
  | enableMmu => cases call
  | store address word => cases call

end Writes

/-- The allocator never touches owned memory: a call changes no byte of a page that is allocated before
and after it, and no byte outside the managed window. -/
theorem run_ownedMemory (image : KernelImage) (mem : Mem) (mmuEnabled : Bool) {s t : State} {op : Op}
    (reached : Transition.Reachable (· = init image mem mmuEnabled) step Transition.always s)
    (call : op.isCall = true) (taken : step s op = some t) :
    (∀ page, Managed s page → s.stateAt page = .allocated → t.stateAt page = .allocated →
      ∀ a, page ≤ a → a < page + 4096 → t.mem.byte a = s.mem.byte a) ∧
    ∀ a, a < s.managedStart ∨ s.managedEnd ≤ a → t.mem.byte a = s.mem.byte a := by
  have inv := reachable_invariant image mem mmuEnabled reached
  have window := inv.core.window
  constructor
  · intro page managed before after a lower upper
    have aligned := managed.2.2
    refine Mem.byte_congr ((step_writes inv taken call _).resolve_right ?_)
    rintro ⟨other, managedOther, below, above, free⟩
    have alignedOther := managedOther.2.2
    have same : other = page := by omega
    rw [same, before, after] at free
    rcases free with free | free <;> cases free
  · intro a outside
    have top := window.top
    refine Mem.byte_congr ((step_writes inv taken call _).resolve_right ?_)
    rintro ⟨other, ⟨lower, upper, aligned⟩, below, above, _⟩
    omega

theorem run_ownedMemory_shared :
    ∃ s t, Transition.run step (init ⟨0x47ffb000, by decide⟩ (fun _ => 0) false)
        [.allocContiguous 2, .refInc 0x47ffb000 rfl, .store 0x47ffb008 7] = some s ∧
      step s (.refDec 0x47ffb000 rfl) = some t ∧ t.mem.byte 0x47ffb008 = s.mem.byte 0x47ffb008 ∧
      s.mem.byte 0x47ffb008 = 7#8 := by
  obtain ⟨s, ran, managed, before, after, stored⟩ : ∃ s, Transition.run step
      (init ⟨0x47ffb000, by decide⟩ (fun _ => 0) false)
      [.allocContiguous 2, .refInc 0x47ffb000 rfl, .store 0x47ffb008 7] = some s ∧
      Managed s 0x47ffb000 ∧ s.stateAt 0x47ffb000 = .allocated ∧
      (pageRefDec s 0x47ffb000).2.stateAt 0x47ffb000 = .allocated ∧
      s.mem.byte 0x47ffb008 = 7#8 := by
    decide +kernel
  refine ⟨s, _, ran, rfl, ?_, stored⟩
  exact (@run_ownedMemory _ _ _ s _ (.refDec 0x47ffb000 rfl) (.of_ran rfl ran) rfl rfl).1 0x47ffb000
    managed before after _ (by decide) (by decide)

section ContiguousFree

variable {s t : State} {pageAddr pageCount : Nat}

/-- All or nothing: the call returns, and it has freed the whole span of allocated pages or changed
nothing but a counter of rejected calls. -/
def AllOrNothing (s : State) (pageAddr pageCount : Nat) : Prop :=
  ∃ t, pageFreeContiguous s pageAddr pageCount = some t ∧
    ((∃ invalid double, t = { s with invalidFreeCount := invalid, doubleFreeCount := double }) ∨
      ReleasedSpan s t pageAddr pageCount ∧ t.freePages = s.freePages + pageCount)

/-- A span that passes the bounds check because its end wraps around, with nothing but allocated
pages between its start and the end of the window. -/
structure Runaway (s : State) (pageAddr pageCount : Nat) : Prop where
  aligned : pageAddr % 4096 = 0
  lower : s.managedStart ≤ pageAddr
  wrapped : Word64.add pageAddr (Word64.mul 4096 pageCount) ≤ s.managedEnd
  wraps : 2 ^ 64 ≤ pageAddr + 4096 * pageCount
  allocated : ∀ pa, Managed s pa → pageAddr ≤ pa → s.stateAt pa = .allocated

theorem next_page_le {offset : Nat} (aligned : pageAddr % 4096 = 0)
    (within : pageAddr + 4096 * offset < 0x48000000) :
    pageAddr + 4096 * (offset + 1) ≤ 0x48000000 := by
  omega

/-- A check that meets allocated pages only and goes on past the window leaves `pages[]`. -/
theorem checkSpan_runaway (window : Window s) (address : pageAddr < 2 ^ 64)
    (aligned : pageAddr % 4096 = 0) (lower : s.managedStart ≤ pageAddr)
    (allocated : ∀ pa, Managed s pa → pageAddr ≤ pa → s.stateAt pa = .allocated) (remaining : Nat) :
    ∀ {offset : Nat}, (offset = 0 ∧ 0 < remaining ∨ pageAddr + 4096 * offset ≤ 0x48000000) →
      0x48000000 < pageAddr + 4096 * (offset + remaining) →
      checkSpan s pageAddr offset remaining = .outOfBounds := by
  have top := window.top
  induction remaining with
  | zero =>
    intro offset start past
    omega
  | succ remaining ih =>
    intro offset start past
    have product : Word64.mul 4096 offset = 4096 * offset := Word64.mul_of_lt (by omega)
    have sum : Word64.add pageAddr (4096 * offset) = pageAddr + 4096 * offset :=
      Word64.add_of_lt (by omega)
    simp only [checkSpan, product, sum]
    split
    · rfl
    rename_i inside
    have within : pageAddr + 4096 * offset < 0x48000000 := by
      unfold inPagesArray pageIndexFromAddress at inside
      omega
    have here := allocated (pageAddr + 4096 * offset) ⟨by omega, by omega, by omega⟩ (by omega)
    rw [if_neg (not_not_intro here)]
    have next := next_page_le aligned within
    have beyond : 0x48000000 < pageAddr + 4096 * (offset + 1 + remaining) := by omega
    exact ih (Or.inr next) beyond

/-- Where the check leaves `pages[]`, the span has run away. -/
theorem runaway_of_outOfBounds (window : Window s) (address : pageAddr < 2 ^ 64)
    (aligned : pageAddr % 4096 = 0) (lower : s.managedStart ≤ pageAddr)
    (wrapped : Word64.add pageAddr (Word64.mul 4096 pageCount) ≤ s.managedEnd)
    (checked : checkSpan s pageAddr 0 pageCount = .outOfBounds) : Runaway s pageAddr pageCount := by
  obtain ⟨index, -, below, outside, before⟩ := checkSpan_outOfBounds pageCount checked
  have top := window.top
  have base := window.lower
  refine ⟨aligned, lower, wrapped, ?_, ?_⟩
  · by_contra small
    rw [Word64.mul_of_lt (by omega), Word64.add_of_lt (by omega)] at wrapped outside
    unfold inPagesArray pageIndexFromAddress at outside
    omega
  · intro pa managed above
    obtain ⟨from', upto, pageAligned⟩ := managed
    obtain ⟨k, rfl⟩ : ∃ k, pa = pageAddr + 4096 * k := ⟨(pa - pageAddr) / 4096, by omega⟩
    have reached : k < index := by
      by_contra later
      rw [Word64.mul_of_lt (by omega), Word64.add_of_lt (by omega)] at outside
      unfold inPagesArray pageIndexFromAddress at outside
      omega
    have state := before k (Nat.zero_le _) reached
    rwa [Word64.mul_of_lt (by omega), Word64.add_of_lt (by omega)] at state

/-- A released span is counted page by page. -/
theorem ReleasedSpan.freePages (inv : Invariant s) (after : Invariant t)
    (released : ReleasedSpan s t pageAddr pageCount) : t.freePages = s.freePages + pageCount := by
  have window := inv.core.window
  have count := freeManaged_length_of_span window released.same released.managed
    (by
      intro pa member
      rw [released.states pa (released.managed pa member), if_pos member])
    (by
      intro pa managed
      rw [released.states pa managed]
      by_cases member : pa ∈ pagesFrom pageAddr pageCount
      · simp [member, released.wasAllocated pa member]
      · simp [member])
  have before := inv.linked.freePages_eq window
  have now := after.linked.freePages_eq (released.same.window window)
  omega

/-- `page_free_contiguous` is all or nothing exactly when the span does not run away. -/
theorem pageFreeContiguous_allOrNothing (image : KernelImage) (mem : Mem) (mmuEnabled : Bool)
    (reached : Transition.Reachable (· = init image mem mmuEnabled) step Transition.always s)
    (address : pageAddr < 2 ^ 64) :
    AllOrNothing s pageAddr pageCount ↔ ¬ Runaway s pageAddr pageCount := by
  have inv := reachable_invariant image mem mmuEnabled reached
  have window := inv.core.window
  constructor
  · rintro ⟨t, freed, -⟩ runaway
    have base := window.lower
    have lower := runaway.lower
    have wraps := runaway.wraps
    have checked : checkSpan s pageAddr 0 pageCount = .outOfBounds :=
      checkSpan_runaway window address runaway.aligned lower runaway.allocated pageCount
        (Or.inl ⟨rfl, by omega⟩) (by omega)
    have inside : ¬ (pageAddr < s.managedStart ∨
        s.managedEnd < Word64.add pageAddr (Word64.mul 4096 pageCount)) := by
      have wrapped := runaway.wrapped
      omega
    unfold pageFreeContiguous at freed
    rw [if_neg (by omega), if_neg (not_not_intro runaway.aligned), if_neg inside, checked] at freed
    cases freed
  · intro tame
    have returns : ∃ t, pageFreeContiguous s pageAddr pageCount = some t := by
      unfold pageFreeContiguous
      split
      · exact ⟨_, rfl⟩
      split
      · exact ⟨_, rfl⟩
      rename_i aligned
      split
      · exact ⟨_, rfl⟩
      rename_i inside
      rw [not_or, Nat.not_lt, Nat.not_lt] at inside
      split
      · rename_i checked
        exact absurd (runaway_of_outOfBounds window address (Decidable.not_not.mp aligned) inside.1
          inside.2 checked) tame
      · exact ⟨_, rfl⟩
      · exact ⟨_, rfl⟩
    obtain ⟨t, freed⟩ := returns
    refine ⟨t, freed, ?_⟩
    rcases pageFreeContiguous_cases inv address freed with counted | ⟨released, after⟩
    · exact Or.inl counted
    · exact Or.inr ⟨released, released.freePages inv after⟩

/-- Two allocated pages are given back. -/
theorem pageFreeContiguous_allOrNothing_pair :
    ∃ s, Transition.run step (init ⟨0x47ffb000, by decide⟩ (fun _ => 0) false) [.allocContiguous 2] =
        some s ∧ AllOrNothing s 0x47ffb000 2 := by
  obtain ⟨s, ran⟩ : ∃ s, Transition.run step (init ⟨0x47ffb000, by decide⟩ (fun _ => 0) false)
      [.allocContiguous 2] = some s := ⟨_, rfl⟩
  refine ⟨s, ran, (pageFreeContiguous_allOrNothing _ _ _
    (.of_ran rfl ran) (by decide)).mpr fun runaway => ?_⟩
  have wraps := runaway.wraps
  omega

/-- One page past the end of RAM with a count of 2^52: the product is 0, and the first entry to be
checked lies behind `pages[]`. -/
theorem pageFreeContiguous_runaway :
    pageFreeContiguous (init ⟨0x47ffb000, by decide⟩ (fun _ => 0) false) 0x48000000 (2 ^ 52) = none ∧
      ¬ AllOrNothing (init ⟨0x47ffb000, by decide⟩ (fun _ => 0) false) 0x48000000 (2 ^ 52) := by
  have left : pageFreeContiguous (init ⟨0x47ffb000, by decide⟩ (fun _ => 0) false) 0x48000000
      (2 ^ 52) = none := by
    have outside : checkSpan (init ⟨0x47ffb000, by decide⟩ (fun _ => 0) false) 0x48000000 0
        (2 ^ 52) = .outOfBounds := by
      change checkSpan _ _ _ (2 ^ 52 - 1 + 1) = _
      rw [checkSpan, if_pos (by decide +kernel)]
    rw [pageFreeContiguous, if_neg (by decide), if_neg (by decide), if_neg (by decide +kernel), outside]
  refine ⟨left, ?_⟩
  rintro ⟨t, freed, -⟩
  rw [left] at freed
  cases freed

end ContiguousFree

end OsArmv8a.PageAlloc
