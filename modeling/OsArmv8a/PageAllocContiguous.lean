import OsArmv8a.PageAllocInvariant

set_option autoImplicit false

namespace OsArmv8a.PageAlloc

open Intrusive

variable {s : State} {pageCount : Nat}

/-- A run found by the search consists of free pages between `low` and the end of
the searched list. The accumulators describe the free run that ends at `start`. -/
theorem findRun_spec (low count : Nat) :
    ∀ {start runStart runLength found : Nat}, runLength < pageCount → low ≤ start →
    (runLength = 0 ∨ low ≤ runStart ∧ runStart + 4096 * runLength = start ∧
      ∀ offset < runLength, s.stateAt (runStart + 4096 * offset) = .free) →
    findRun s pageCount (pagesFrom start count) runStart runLength = some found →
    low ≤ found ∧ found % 4096 = start % 4096 ∧
      found + 4096 * pageCount ≤ start + 4096 * count ∧
      ∀ offset < pageCount, s.stateAt (found + 4096 * offset) = .free := by
  induction count with
  | zero =>
    intro start runStart runLength found _ _ _ search
    cases search
  | succ count ih =>
    intro start runStart runLength found short below run search
    simp only [pagesFrom, findRun] at search
    split at search
    · rename_i free
      have grown : low ≤ (if runLength = 0 then start else runStart) ∧
          (if runLength = 0 then start else runStart) + 4096 * (runLength + 1) =
            start + 4096 ∧
          ∀ offset < runLength + 1,
            s.stateAt ((if runLength = 0 then start else runStart) + 4096 * offset) = .free := by
        split
        · rename_i empty
          subst empty
          refine ⟨below, rfl, ?_⟩
          intro offset inside
          have only : offset = 0 := by omega
          subst only
          exact free
        · rename_i nonempty
          obtain ⟨lower, adjacent, all⟩ := run.resolve_left nonempty
          refine ⟨lower, ?_, ?_⟩
          · rw [Nat.mul_succ, ← Nat.add_assoc, adjacent]
          · intro offset inside
            by_cases last : offset = runLength
            · rw [last, adjacent]
              exact free
            · exact all offset (by omega)
      split at search
      · rename_i full
        cases Option.some.inj search
        obtain ⟨lower, adjacent, all⟩ := grown
        rw [← full]
        exact ⟨lower, by omega, by omega, all⟩
      · have rest := ih (by omega) (by omega) (Or.inr grown) search
        exact ⟨rest.1, by omega, by omega, rest.2.2.2⟩
    · have rest := ih (by omega) (by omega) (Or.inl rfl) search
      exact ⟨rest.1, by omega, by omega, rest.2.2.2⟩

/-- All pages of a span are managed. -/
def ManagedSpan (s : State) (start count : Nat) : Prop :=
  ∀ pa ∈ pagesFrom start count, Managed s pa

/-- `t` is `s` with new entries for some pages. -/
structure Repainted (s t : State) (pages : List Nat) (state : PageState) (ref : Nat → Nat) : Prop where
  same : SameWindow s t
  freePages : t.freePages = s.freePages
  states : ∀ pa, Managed s pa → t.stateAt pa = if pa ∈ pages then state else s.stateAt pa
  refs : ∀ pa, Managed s pa → t.refAt pa = if pa ∈ pages then ref (s.refAt pa) else s.refAt pa

/-- A loop that gives one page after the other a new entry. -/
theorem Repainted.foldl {update : State → Nat → State} {state : PageState} {ref : Nat → Nat}
    (again : ∀ n, ref (ref n) = ref n)
    (one : ∀ s pa, SameWindow s (update s pa) ∧ (update s pa).freePages = s.freePages ∧
      (update s pa).pages = (s.setPage pa { state := state, refCount := ref (s.refAt pa) }).pages)
    (pages : List Nat) : ∀ {s : State}, (∀ pa ∈ pages, Managed s pa) →
      Repainted s (pages.foldl update s) pages state ref := by
  induction pages with
  | nil => exact fun _ => ⟨SameWindow.refl _, rfl, fun _ _ => by simp, fun _ _ => by simp⟩
  | cons first pages ih =>
    intro s managed
    have here := managed first List.mem_cons_self
    obtain ⟨same, free, entries⟩ := one s first
    obtain ⟨window, freePages, states, refs⟩ := ih (s := update s first) fun pa member =>
      (same.managed_iff pa).mpr (managed pa (List.mem_cons_of_mem first member))
    rw [List.foldl_cons]
    refine ⟨same.trans window, freePages.trans free, fun pa managedPa => ?_, fun pa managedPa => ?_⟩
    · have once := stateAt_setPage { state := state, refCount := ref (s.refAt first) } here managedPa
      rw [State.stateAt, ← entries] at once
      rw [states pa ((same.managed_iff pa).mpr managedPa), State.stateAt, once]
      by_cases same : pa = first <;> simp [same]
    · have once := refAt_setPage { state := state, refCount := ref (s.refAt first) } here managedPa
      rw [State.refAt, ← entries] at once
      rw [refs pa ((same.managed_iff pa).mpr managedPa), State.refAt, once]
      by_cases same : pa = first <;> simp [same, again]

/-- The loop of `page_alloc_contiguous` that hands out the pages of a span. -/
theorem takeSpan_spec {start count : Nat} (managed : ManagedSpan s start count) :
    Repainted s ((pagesFrom start count).foldl takePage s) (pagesFrom start count) .allocated
      fun _ => 1 := by
  refine Repainted.foldl ?_ ?_ _ managed
  · exact fun _ => rfl
  · exact fun _ _ => ⟨⟨rfl, rfl, rfl, rfl⟩, rfl, rfl⟩

theorem takeSpan_mem (count a : Nat) : ∀ (s : State) (start : Nat),
    ((pagesFrom start count).foldl takePage s).mem a =
      if start ≤ a ∧ a < start + 4096 * count then 0 else s.mem a := by
  induction count with
  | zero =>
    intro s start
    rw [if_neg (by omega)]
    rfl
  | succ count ih =>
    intro s start
    rw [pagesFrom, List.foldl_cons, ih]
    by_cases early : start ≤ a ∧ a < start + 4096
    · rw [if_neg (by omega), if_pos ⟨early.1, by omega⟩]
      exact Mem.zero_inside _ early.1 early.2
    · have kept : (takePage s start).mem a = s.mem a := Mem.zero_outside s.mem (by omega)
      rw [kept]
      congr 1
      simp only [eq_iff_iff]
      omega

/-- The loop of `page_free_contiguous` that marks the pages of a span free. -/
theorem freeSpan_spec {start count : Nat} (managed : ManagedSpan s start count) :
    Repainted s ((pagesFrom start count).foldl freeSpanPage s) (pagesFrom start count) .free id := by
  refine Repainted.foldl ?_ ?_ _ managed
  · exact fun _ => rfl
  · exact fun _ _ => ⟨⟨rfl, rfl, rfl, rfl⟩, rfl, rfl⟩

theorem freeSpan_mem (pages : List Nat) : ∀ s : State, (pages.foldl freeSpanPage s).mem = s.mem := by
  induction pages with
  | nil => exact fun _ => rfl
  | cons pa pages ih => exact fun s => ih _

variable {t : State} {start : Nat}

/-- Moving a span of distinct pages between the free and the allocated ones changes
the number of free pages by its length. -/
theorem freeManaged_length_of_span {count : Nat} (window : Window s) (same : SameWindow s t)
    (managed : ManagedSpan s start count)
    (inside : ∀ pa ∈ pagesFrom start count, t.stateAt pa = .free)
    (outside : ∀ pa, Managed s pa → (s.stateAt pa = .free ↔
      pa ∉ pagesFrom start count ∧ t.stateAt pa = .free)) :
    (freeManaged t).length = (freeManaged s).length + count := by
  have windowT := same.window window
  have perm : List.Perm (freeManaged t) (freeManaged s ++ pagesFrom start count) := by
    rw [List.perm_ext_iff_of_nodup (nodup_freeManaged t)]
    · intro pa
      rw [List.mem_append, windowT.mem_freeManaged, window.mem_freeManaged, same.managed_iff]
      constructor
      · rintro ⟨managedPa, free⟩
        by_cases member : pa ∈ pagesFrom start count
        · exact Or.inr member
        · exact Or.inl ⟨managedPa, (outside pa managedPa).mpr ⟨member, free⟩⟩
      · rintro (⟨managedPa, free⟩ | member)
        · exact ⟨managedPa, ((outside pa managedPa).mp free).2⟩
        · exact ⟨managed pa member, inside pa member⟩
    · refine List.Nodup.append (nodup_freeManaged s) (nodup_pagesFrom _ _) ?_
      intro pa free member
      have listed := window.mem_freeManaged.mp free
      exact ((outside pa listed.1).mp listed.2).1 member
  rw [perm.length_eq, List.length_append, length_pagesFrom]

/-- What a successful contiguous allocation does: it hands out `count` pages that
were free, scrubbed, and changes only link words of pages that stay free. -/
structure AcquiredSpan (s t : State) (start count : Nat) : Prop where
  same : SameWindow s t
  managed : ManagedSpan s start count
  wasFree : ∀ pa ∈ pagesFrom start count, s.stateAt pa = .free
  states : ∀ other, Managed s other → t.stateAt other =
    if other ∈ pagesFrom start count then .allocated else s.stateAt other
  refs : ∀ other, Managed s other → t.refAt other =
    if other ∈ pagesFrom start count then 1 else s.refAt other
  scrubbed : ∀ a, start ≤ a → a < start + 4096 * count → t.mem a = 0
  frame : ∀ a, a < start ∨ start + 4096 * count ≤ a →
    (¬ (Managed s a ∧ s.stateAt a = .free)) → t.mem a = s.mem a

theorem findRun_managed (window : Window s) {found : Nat} (positive : pageCount ≠ 0)
    (search : findRun s pageCount s.managedPages 0 0 = some found) :
    ManagedSpan s found pageCount ∧
      ∀ pa ∈ pagesFrom found pageCount, s.stateAt pa = .free := by
  obtain ⟨lower, aligned, upper, free⟩ :=
    findRun_spec s.managedStart _ (Nat.pos_of_ne_zero positive) (Nat.le_refl _)
      (Or.inl rfl) search
  have start := window.aligned
  constructor
  · intro pa member
    obtain ⟨offset, inside, rfl⟩ := mem_pagesFrom.mp member
    refine ⟨by omega, by omega, by omega⟩
  · intro pa member
    obtain ⟨offset, inside, rfl⟩ := mem_pagesFrom.mp member
    exact free offset inside

/-- The free list is built again after the pages of a span have changed. -/
theorem Repainted.rebuild {pages : List Nat} {state : PageState} {ref : Nat → Nat} (inv : Invariant s)
    (painted : Repainted s t pages state ref) (n : Nat)
    (entry : state = .free ∨ state = .allocated ∧ ∀ n, 1 ≤ ref n ∧ ref n < 2 ^ 16) :
    SameWindow s (rebuildFreeList { t with freePages := n }) ∧
      Rebuilt { t with freePages := n } (rebuildFreeList { t with freePages := n }) ∧
      (n = (freeManaged t).length → Invariant (rebuildFreeList { t with freePages := n })) := by
  have same : SameWindow s { t with freePages := n } :=
    ⟨painted.same.start, painted.same.stop, painted.same.total, painted.same.mode⟩
  have rebuilt := rebuildFreeList_spec (same.window inv.core.window)
  refine ⟨same.trans rebuilt.same, rebuilt, fun count => rebuildFreeList_invariant ?_ count⟩
  refine inv.core.of_entries same fun pa managed => ?_
  change t.stateAt pa = _ ∧ t.refAt pa = _ ∨ t.stateAt pa = _ ∨
    t.stateAt pa = _ ∧ 1 ≤ t.refAt pa ∧ t.refAt pa < 2 ^ 16
  rw [painted.states pa managed, painted.refs pa managed]
  split
  · exact Or.inr (entry.imp_right fun ⟨allocated, range⟩ => ⟨allocated, range _⟩)
  · exact Or.inl ⟨rfl, rfl⟩

theorem pageAllocContiguous_spec (inv : Invariant s)
    (taken : pageAllocContiguous s pageCount = (some start, t)) :
    AcquiredSpan s t start pageCount ∧ Invariant t := by
  have window := inv.core.window
  unfold pageAllocContiguous at taken
  split at taken
  · cases taken
  rename_i enough
  rw [not_or] at enough
  split at taken
  · cases taken
  rename_i found search
  cases taken
  obtain ⟨managed, wasFree⟩ := findRun_managed window enough.1 search
  have painted := takeSpan_spec managed
  have words := fun a => takeSpan_mem pageCount a s start
  generalize (pagesFrom start pageCount).foldl takePage s = span at *
  obtain ⟨same, rebuilt, invariant⟩ := painted.rebuild inv (span.freePages - pageCount)
    (Or.inr ⟨rfl, fun _ => by decide⟩)
  have managed_iff := painted.same.managed_iff
  have count : (freeManaged s).length = (freeManaged span).length + pageCount := by
    refine freeManaged_length_of_span (painted.same.window window)
      ⟨painted.same.start.symm, painted.same.stop.symm, painted.same.total.symm,
        painted.same.mode.symm⟩ (fun pa member => (managed_iff pa).mpr (managed pa member)) wasFree ?_
    intro pa managedPa
    rw [painted.states pa ((managed_iff pa).mp managedPa)]
    by_cases member : pa ∈ pagesFrom start pageCount <;> simp [member]
  have kept : ∀ a, ¬ (Managed s a ∧ span.stateAt a = .free) →
      (rebuildFreeList { span with freePages := span.freePages - pageCount }).mem a = span.mem a :=
    fun a away => rebuilt.frame a fun ⟨managedA, free⟩ => away ⟨(managed_iff a).mp managedA, free⟩
  refine ⟨⟨same, managed, wasFree, ?_, ?_, ?_, ?_⟩, invariant ?_⟩
  · exact fun pa managedPa => (rebuilt.stateAt pa).trans (painted.states pa managedPa)
  · exact fun pa managedPa => (rebuilt.refAt pa).trans (painted.refs pa managedPa)
  · intro a lower upper
    rw [kept a, words, if_pos ⟨lower, upper⟩]
    rintro ⟨managedA, free⟩
    have member : a ∈ pagesFrom start pageCount := by
      rw [mem_pagesFrom]
      have aligned := managedA.2.2
      have startAligned := (managed start (mem_pagesFrom.mpr
        ⟨0, Nat.pos_of_ne_zero enough.1, by omega⟩)).2.2
      exact ⟨(a - start) / 4096, by omega, by omega⟩
    rw [painted.states a managedA, if_pos member] at free
    cases free
  · intro a outside away
    rw [kept a, words, if_neg (by omega)]
    rintro ⟨managedA, free⟩
    rw [painted.states a managedA] at free
    split at free
    · cases free
    · exact away ⟨managedA, free⟩
  · have before := inv.linked.freePages_eq window
    have spanned := painted.freePages
    omega

theorem pageAllocContiguous_positive (taken : pageAllocContiguous s pageCount = (some start, t)) :
    1 ≤ pageCount := by
  unfold pageAllocContiguous at taken
  split at taken
  · cases taken
  · omega

/-- The span a contiguous allocation returns lies in RAM. -/
theorem AcquiredSpan.bounds {count : Nat} (window : Window s)
    (acquired : AcquiredSpan s t start count) (positive : 1 ≤ count) :
    0x40000000 ≤ start ∧ start + 4096 * count ≤ 0x48000000 ∧ start % 4096 = 0 := by
  have first := window.bounds (acquired.managed start (mem_pagesFrom.mpr ⟨0, by omega, by omega⟩))
  have last := window.bounds (acquired.managed (start + 4096 * (count - 1))
    (mem_pagesFrom.mpr ⟨count - 1, by omega, rfl⟩))
  omega

theorem pageAllocContiguous_none (failed : pageAllocContiguous s pageCount = (none, t)) :
    t = s := by
  unfold pageAllocContiguous at failed
  split at failed
  · exact ((Prod.mk.inj failed).2).symm
  · split at failed
    · exact ((Prod.mk.inj failed).2).symm
    · cases failed

theorem pageAllocContiguous_invariant (inv : Invariant s) (pageCount : Nat) :
    Invariant (pageAllocContiguous s pageCount).2 := by
  cases result : pageAllocContiguous s pageCount with
  | mk found t =>
    cases found with
    | none =>
      rw [pageAllocContiguous_none result]
      exact inv
    | some start => exact (pageAllocContiguous_spec inv result).2

variable {pageAddr : Nat}

theorem checkSpan_spec (remaining : Nat) : ∀ {offset : Nat},
    checkSpan s pageAddr offset remaining = .allAllocated →
    ∀ index, offset ≤ index → index < offset + remaining →
      inPagesArray (Word64.add pageAddr (Word64.mul 4096 index)) ∧
      s.stateAt (Word64.add pageAddr (Word64.mul 4096 index)) = .allocated := by
  induction remaining with
  | zero => intro offset _ index lower upper; omega
  | succ remaining ih =>
    intro offset checked index lower upper
    simp only [checkSpan] at checked
    split at checked
    · cases checked
    split at checked
    · cases checked
    rename_i inside allocated
    by_cases here : index = offset
    · rw [here]
      exact ⟨Decidable.not_not.mp inside, Decidable.not_not.mp allocated⟩
    · exact ih checked index (by omega) (by omega)

/-- A span that passes the bounds check and whose every entry lies in `pages[]`
does not wrap around: past the end of RAM there would be an entry outside. -/
theorem checkSpan_no_wrap (address : pageAddr < 2 ^ 64) (aligned : pageAddr % 4096 = 0)
    (checked : checkSpan s pageAddr 0 pageCount = .allAllocated) :
    pageAddr + 4096 * pageCount < 2 ^ 64 := by
  have all := checkSpan_spec pageCount checked
  have entry : ∀ index, index < pageCount → pageAddr + 4096 * index < 2 ^ 64 →
      pageAddr + 4096 * index < 0x48000000 ∧ 0x40000000 ≤ pageAddr + 4096 * index := by
    intro index below small
    have inside := (all index (Nat.zero_le _) (by omega)).1
    have product : 4096 * index < 2 ^ 64 := by omega
    rw [Word64.mul_of_lt product, Word64.add_of_lt small] at inside
    unfold inPagesArray pageIndexFromAddress at inside
    omega
  by_cases wraps : pageAddr + 4096 * pageCount < 2 ^ 64
  · exact wraps
  · have past := entry ((0x48000000 - pageAddr) / 4096) (by omega) (by omega)
    omega

/-- What a successful contiguous free does: all pages of the span become free, whatever
their reference counts, and only link words of free pages change. -/
structure ReleasedSpan (s t : State) (start count : Nat) : Prop where
  same : SameWindow s t
  managed : ManagedSpan s start count
  wasAllocated : ∀ pa ∈ pagesFrom start count, s.stateAt pa = .allocated
  states : ∀ other, Managed s other → t.stateAt other =
    if other ∈ pagesFrom start count then .free else s.stateAt other
  refs : ∀ other, Managed s other → t.refAt other = s.refAt other
  frame : ∀ a, ¬ (Managed s a ∧ t.stateAt a = .free) → t.mem a = s.mem a

/-- `page_free_contiguous` either only counts a rejected call or frees the whole span. -/
theorem pageFreeContiguous_cases (inv : Invariant s) (address : pageAddr < 2 ^ 64)
    (freed : pageFreeContiguous s pageAddr pageCount = some t) :
    (∃ invalid double, t = { s with invalidFreeCount := invalid, doubleFreeCount := double }) ∨
      ReleasedSpan s t pageAddr pageCount ∧ Invariant t := by
  have window := inv.core.window
  unfold pageFreeContiguous at freed
  split at freed
  · exact Or.inl ⟨_, _, (Option.some.inj freed).symm⟩
  rename_i nonempty
  rw [not_or] at nonempty
  split at freed
  · exact Or.inl ⟨_, _, (Option.some.inj freed).symm⟩
  rename_i aligned
  split at freed
  · exact Or.inl ⟨_, _, (Option.some.inj freed).symm⟩
  rename_i inside
  split at freed
  · cases freed
  · exact Or.inl ⟨_, _, (Option.some.inj freed).symm⟩
  rename_i checked
  cases Option.some.inj freed
  right
  have noWrap := checkSpan_no_wrap address (Decidable.not_not.mp aligned) checked
  rw [not_or, Word64.mul_of_lt (by omega), Word64.add_of_lt noWrap] at inside
  have managed : ManagedSpan s pageAddr pageCount := by
    intro pa member
    obtain ⟨offset, below, rfl⟩ := mem_pagesFrom.mp member
    refine ⟨by omega, by omega, by omega⟩
  have wasAllocated : ∀ pa ∈ pagesFrom pageAddr pageCount, s.stateAt pa = .allocated := by
    intro pa member
    obtain ⟨offset, below, rfl⟩ := mem_pagesFrom.mp member
    have entry := (checkSpan_spec pageCount checked offset (Nat.zero_le _) (by omega)).2
    have product : 4096 * offset < 2 ^ 64 := by omega
    have sum : pageAddr + 4096 * offset < 2 ^ 64 := by omega
    rwa [Word64.mul_of_lt product, Word64.add_of_lt sum] at entry
  have painted := freeSpan_spec managed
  have words := freeSpan_mem (pagesFrom pageAddr pageCount) s
  generalize (pagesFrom pageAddr pageCount).foldl freeSpanPage s = span at *
  obtain ⟨same, rebuilt, invariant⟩ := painted.rebuild inv (span.freePages + pageCount) (Or.inl rfl)
  refine ⟨⟨same, managed, wasAllocated, ?_, ?_, ?_⟩, invariant ?_⟩
  · exact fun pa managedPa => (rebuilt.stateAt pa).trans (painted.states pa managedPa)
  · intro pa managedPa
    rw [rebuilt.refAt]
    exact (painted.refs pa managedPa).trans (ite_self _)
  · intro a kept
    rw [rebuilt.frame a, ← words]
    rintro ⟨managedA, free⟩
    exact kept ⟨(painted.same.managed_iff a).mp managedA, (rebuilt.stateAt a).trans free⟩
  · have count : (freeManaged span).length = (freeManaged s).length + pageCount := by
      refine freeManaged_length_of_span window painted.same managed ?_ ?_
      · intro pa member
        rw [painted.states pa (managed pa member), if_pos member]
      · intro pa managedPa
        rw [painted.states pa managedPa]
        by_cases member : pa ∈ pagesFrom pageAddr pageCount
        · simp [member, wasAllocated pa member]
        · simp [member]
    have before := inv.linked.freePages_eq window
    have spanned := painted.freePages
    omega

theorem pageFreeContiguous_invariant (inv : Invariant s) (address : pageAddr < 2 ^ 64)
    (freed : pageFreeContiguous s pageAddr pageCount = some t) : Invariant t := by
  rcases pageFreeContiguous_cases inv address freed with counted | released
  · exact inv.counters counted
  · exact released.2

/-- The check leaves `pages[]` at the first entry outside it, past allocated pages only. -/
theorem checkSpan_outOfBounds (remaining : Nat) : ∀ {offset : Nat},
    checkSpan s pageAddr offset remaining = .outOfBounds →
    ∃ index, offset ≤ index ∧ index < offset + remaining ∧
      ¬ inPagesArray (Word64.add pageAddr (Word64.mul 4096 index)) ∧
      ∀ earlier, offset ≤ earlier → earlier < index →
        s.stateAt (Word64.add pageAddr (Word64.mul 4096 earlier)) = .allocated := by
  induction remaining with
  | zero => intro offset checked; cases checked
  | succ remaining ih =>
    intro offset checked
    simp only [checkSpan] at checked
    split at checked
    · rename_i outside
      exact ⟨offset, Nat.le_refl _, by omega, outside, fun earlier lower upper => by omega⟩
    split at checked
    · cases checked
    rename_i allocated
    obtain ⟨index, lower, upper, outside, before⟩ := ih checked
    refine ⟨index, by omega, by omega, outside, fun earlier from' below => ?_⟩
    by_cases here : earlier = offset
    · rw [here]
      exact Decidable.not_not.mp allocated
    · exact before earlier (by omega) below

end OsArmv8a.PageAlloc
