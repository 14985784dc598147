import OsArmv8a.PageAllocContiguous
import OsArmv8a.Lib.Transition

set_option autoImplicit false

namespace OsArmv8a.PageAlloc

open Intrusive

theorem alignUp_page {value : Nat} (small : value ≤ 0x48000000) :
    Word64.alignUp value 4096 = (value + 4095) / 4096 * 4096 := by
  unfold Word64.alignUp
  rw [Word64.add_of_lt (by omega)]

/-- The loop of `page_allocator_init` after the pages `xs`, the last one first. -/
structure Filling (s : State) (xs : List Nat) : Prop where
  window : Window s
  managed : ∀ pa ∈ xs, Managed s pa
  chain : Chain s.link s.head xs
  total : s.totalPages = xs.length
  free : s.freePages = xs.length
  states : ∀ pa ∈ xs, s.stateAt pa = .free

variable {s : State}

theorem initPage_filling {xs : List Nat} {pa : Nat} (filling : Filling s xs)
    (managed : Managed s pa) (fresh : pa ∉ xs) : Filling (initPage s pa) (pa :: xs) := by
  have states : ∀ other, Managed s other → (initPage s pa).stateAt other =
      if other = pa then .free else s.stateAt other := fun other managedOther =>
    stateAt_setPage _ (s := pushFree s pa) managed managedOther
  refine ⟨⟨filling.window.aligned, filling.window.lower, filling.window.upper,
    filling.window.top⟩, ?_, ?_, ?_, ?_, ?_⟩
  · exact List.forall_mem_cons.mpr ⟨managed, filling.managed⟩
  · exact pushFree_chain (filling.window.low managed).1
      (Chain.head_low filling.chain fun other member =>
        (filling.window.low (filling.managed other member)).2) filling.chain fresh
  · exact congrArg (· + 1) filling.total
  · exact congrArg (· + 1) filling.free
  · refine List.forall_mem_cons.mpr ⟨?_, ?_⟩
    · rw [states pa managed, if_pos rfl]
    · intro other member
      rw [states other (filling.managed other member)]
      split
      · rfl
      · exact filling.states other member

theorem initPages_filling (pages : List Nat) : ∀ {s : State} {xs : List Nat}, Filling s xs →
    (∀ pa ∈ pages, Managed s pa) → pages.Nodup → (∀ pa ∈ pages, pa ∉ xs) →
    Filling (pages.foldl initPage s) (pages.reverse ++ xs) ∧
      (pages.foldl initPage s).managedStart = s.managedStart ∧
      (pages.foldl initPage s).managedEnd = s.managedEnd := by
  induction pages with
  | nil => intro s xs filling _ _ _; exact ⟨filling, rfl, rfl⟩
  | cons pa rest ih =>
    intro s xs filling managed nodup fresh
    obtain ⟨new, nodup⟩ := List.nodup_cons.mp nodup
    have pushed := initPage_filling filling (managed pa List.mem_cons_self)
      (fresh pa List.mem_cons_self)
    have apart : ∀ other ∈ rest, other ∉ pa :: xs := by
      intro other member listed
      rcases List.mem_cons.mp listed with same | old
      · exact new (same ▸ member)
      · exact fresh other (List.mem_cons_of_mem pa member) old
    have loop := ih pushed (fun other member => managed other (List.mem_cons_of_mem pa member))
      nodup apart
    rw [List.foldl_cons, List.reverse_cons, List.append_assoc, List.singleton_append]
    exact loop

/-- The loop has pushed every managed page. -/
theorem init_filling (image : KernelImage) (mem : Mem) (mmuEnabled : Bool) :
    Filling (init image mem mmuEnabled) (init image mem mmuEnabled).managedPages.reverse := by
  obtain ⟨lower, upper⟩ := image.inRam
  have start := alignUp_page upper
  unfold init
  dsimp only
  generalize base : State.mk _ _ _ _ _ _ _ _ _ _ _ = s
  have startS : s.managedStart = Word64.alignUp image.kernelEnd 4096 := by rw [← base]
  have stopS : s.managedEnd = 0x48000000 := by rw [← base]
  have window : Window s := by
    refine ⟨?_, ?_, ?_, stopS⟩
    · rw [startS, start]; exact Nat.mul_mod_left _ _
    · rw [startS, start]; omega
    · rw [startS, stopS, start]; omega
  have empty : Filling s [] := by
    refine ⟨window, ?_, ?_, ?_, ?_, ?_⟩
    · intro pa member; cases member
    · rw [← base]; rfl
    · rw [← base]; rfl
    · rw [← base]; rfl
    · intro pa member; cases member
  obtain ⟨filled, startKept, stopKept⟩ := initPages_filling s.managedPages empty
    (fun pa member => window.mem_managedPages.mp member) (nodup_pagesFrom _ _)
    (fun pa _ => List.not_mem_nil)
  rw [List.append_nil] at filled
  have managedPages : (s.managedPages.foldl initPage s).managedPages = s.managedPages := by
    unfold State.managedPages at startKept stopKept ⊢
    rw [startKept, stopKept]
  rwa [managedPages]

theorem init_free (image : KernelImage) (mem : Mem) (mmuEnabled : Bool) {pa : Nat}
    (managed : Managed (init image mem mmuEnabled) pa) :
    (init image mem mmuEnabled).stateAt pa = .free := by
  have filled := init_filling image mem mmuEnabled
  exact filled.states pa (List.mem_reverse.mpr (filled.window.mem_managedPages.mpr managed))

theorem init_invariant (image : KernelImage) (mem : Mem) (mmuEnabled : Bool) :
    Invariant (init image mem mmuEnabled) := by
  have filled := init_filling image mem mmuEnabled
  refine ⟨⟨filled.window, ?_, ?_, ?_⟩, _, filled.chain, ?_, filled.free⟩
  · rw [filled.total, List.length_reverse]
  · exact fun pa managed => Or.inl (init_free image mem mmuEnabled managed)
  · intro pa managed allocated
    rw [init_free image mem mmuEnabled managed] at allocated
    cases allocated
  · intro pa
    rw [List.mem_reverse, filled.window.mem_managedPages]
    exact ⟨fun managed => ⟨managed, init_free image mem mmuEnabled managed⟩, And.left⟩

/-- The calls of the allocator with the arguments its callers pass, together with what
the rest of the kernel does to its memory: turning the MMU on, and storing into
pages it has been given. -/
inductive Op where
  | alloc
  | allocContiguous (pageCount : Nat)
  | free (pa : Nat)
  | freeContiguous (pageAddr pageCount : Nat) (address : pageAddr < 2 ^ 64)
      (fits : 4096 * pageCount < 2 ^ 64)
  | refInc (pa : Nat) (aligned : pa % 4096 = 0)
  | refDec (pa : Nat) (aligned : pa % 4096 = 0)
  | enableMmu
  | store (address : Nat) (word : BitVec 64)

/-- One call. A store is only possible into an allocated page, and a contiguous free
whose check reads past `pages[]` has no successor. -/
def step (s : State) : Op → Option State
  | .alloc => some (pageAlloc s).2
  | .allocContiguous pageCount => some (pageAllocContiguous s pageCount).2
  | .free pa => some (pageFree s pa)
  | .freeContiguous pageAddr pageCount _ _ => pageFreeContiguous s pageAddr pageCount
  | .refInc pa _ => some (pageRefInc s pa)
  | .refDec pa _ => some (pageRefDec s pa).2
  | .enableMmu => some { s with mmuEnabled := true }
  | .store address word =>
    if s.stateAt address = .allocated then some { s with mem := s.mem.set address word } else none

/-- The stored links are physical addresses, which both translations read alike. -/
theorem enableMmu_invariant (inv : Invariant s) : Invariant { s with mmuEnabled := true } := by
  have window := inv.core.window
  refine ⟨⟨⟨window.aligned, window.lower, window.upper, window.top⟩, inv.core.total,
    inv.core.states, inv.core.refs⟩, ?_⟩
  obtain ⟨xs, chain, members, count⟩ := inv.linked
  refine ⟨xs, ?_, members, count⟩
  refine chain.congr ?_
  intro pa member
  cases mode : s.mmuEnabled with
  | true => exact link_congr mode.symm rfl
  | false =>
    have low : (s.mem pa).toNat < kernelVaOffset := by
      by_cases zero : (s.mem pa).toNat = 0
      · rw [zero]; exact kernelVaOffset_pos
      · have linked : s.link pa = some (s.mem pa).toNat := by
          simp [State.link, pagePtrToPa, mode, zero]
        exact inv.chain_low members _ (chain.next_mem pa member _ linked)
    simp only [State.link, pagePtrToPa_of_lt low]

/-- The free list only depends on the first word of the free pages. -/
theorem writeMem_invariant (inv : Invariant s) {mem : Mem}
    (same : ∀ pa, Managed s pa → s.stateAt pa = .free → mem pa = s.mem pa) :
    Invariant { s with mem := mem } := by
  have window := inv.core.window
  refine ⟨⟨⟨window.aligned, window.lower, window.upper, window.top⟩, inv.core.total,
    inv.core.states, inv.core.refs⟩, ?_⟩
  obtain ⟨xs, chain, members, count⟩ := inv.linked
  refine ⟨xs, chain.congr ?_, members, count⟩
  intro pa member
  obtain ⟨managed, free⟩ := (members pa).mp member
  exact link_congr rfl (same pa managed free)

theorem store_invariant (inv : Invariant s) {address : Nat} (word : BitVec 64)
    (owned : s.stateAt address = .allocated) :
    Invariant { s with mem := s.mem.set address word } := by
  refine writeMem_invariant inv ?_
  intro pa _ free
  refine Mem.set_other _ _ ?_
  rintro rfl
  rw [free] at owned
  cases owned

theorem step_invariant {t : State} (op : Op) (inv : Invariant s) (taken : step s op = some t) :
    Invariant t := by
  cases op with
  | alloc =>
    cases Option.some.inj taken
    exact pageAlloc_invariant inv
  | allocContiguous pageCount =>
    cases Option.some.inj taken
    exact pageAllocContiguous_invariant inv pageCount
  | free pa =>
    cases Option.some.inj taken
    exact pageFree_invariant inv pa
  | freeContiguous pageAddr pageCount address fits =>
    exact pageFreeContiguous_invariant inv address taken
  | refInc pa aligned =>
    cases Option.some.inj taken
    exact pageRefInc_invariant inv aligned
  | refDec pa aligned =>
    cases Option.some.inj taken
    exact pageRefDec_invariant inv aligned
  | enableMmu =>
    cases Option.some.inj taken
    exact enableMmu_invariant inv
  | store address word =>
    simp only [step] at taken
    split at taken
    · rename_i owned
      cases Option.some.inj taken
      exact store_invariant inv word owned
    · cases taken

/-- Every managed page is in exactly one of the two counted states. -/
theorem Core.count_states (core : Core s) :
    countState s .free + countState s .allocated = s.totalPages ∧ countState s .unused = 0 := by
  have known : ∀ pa ∈ s.managedPages, s.stateAt pa = .free ∨ s.stateAt pa = .allocated :=
    fun pa member => core.states pa (core.window.mem_managedPages.mp member)
  rw [core.total]
  unfold countState
  generalize s.managedPages = pages at known
  induction pages with
  | nil => exact ⟨rfl, rfl⟩
  | cons pa rest ih =>
    obtain ⟨sum, none⟩ := ih fun other member => known other (List.mem_cons_of_mem pa member)
    rcases known pa List.mem_cons_self with state | state
    · simp only [List.countP_cons, state, List.length_cons, none]
      simp
      omega
    · simp only [List.countP_cons, state, List.length_cons, none]
      simp
      omega

theorem countState_free (s : State) : countState s .free = (freeManaged s).length :=
  List.countP_eq_length_filter

/-- The three views of the free pages agree: the list linked through the pages, the
state array and the counters. -/
structure Representation (s : State) : Prop where
  /-- `Chain` is finite, so the list is acyclic. -/
  freeList : ∃ xs, Chain s.link s.head xs ∧ xs.Nodup ∧
    (∀ pa, pa ∈ xs ↔ pa ∈ s.managedPages ∧ s.stateAt pa = .free) ∧ s.freePages = xs.length
  total : countState s .free + countState s .allocated = s.totalPages
  referenced : ∀ pa ∈ s.managedPages, s.stateAt pa = .allocated → 1 ≤ s.refAt pa
  consistent : ∀ fuel, s.totalPages < fuel → checkConsistency s fuel = some 0

theorem Invariant.representation (inv : Invariant s) : Representation s := by
  have window := inv.core.window
  obtain ⟨total, unused⟩ := inv.core.count_states
  have free : countState s .free = s.freePages :=
    (countState_free s).trans (inv.linked.freePages_eq window).symm
  obtain ⟨xs, chain, members, count⟩ := inv.linked
  refine ⟨⟨xs, chain, chain.nodup, ?_, count⟩, total, ?_, ?_⟩
  · intro pa
    rw [members, window.mem_managedPages]
  · intro pa member allocated
    exact (inv.core.refs pa (window.mem_managedPages.mp member) allocated).1
  · intro fuel enough
    have nodes : countFreeListNodes s fuel = some xs.length := chain.count_eq (by omega)
    simp [checkConsistency, nodes, unused, free, ← count, ← total]

/-- Whatever sequence of calls follows `page_allocator_init`, the representation is intact. -/
theorem run_representation (image : KernelImage) (mem : Mem) (mmuEnabled : Bool) {s : State}
    (reached : Transition.Reachable (· = init image mem mmuEnabled) step Transition.always s) :
    Representation s := by
  apply Invariant.representation
  refine reached.invariant ?_ ?_
  · rintro start rfl
    exact init_invariant image mem mmuEnabled
  · intro before after op inv _ taken
    exact step_invariant op inv taken

/-- A run on four managed pages that shares a page, refuses a bad address and frees a
span of two pages. -/
def sampleOps : List Op :=
  [.alloc, .enableMmu, .refInc 0x47fff000 rfl, .store 0x47fff000 7, .allocContiguous 2,
    .free 0x47fff001, .refDec 0x47fff000 rfl, .free 0x47fff000,
    .freeContiguous 0x47ffc000 2 (by decide) (by decide), .alloc]

theorem run_representation_four_pages :
    ∃ s, Transition.run step (init ⟨0x47ffc000, by decide⟩ (fun _ => 0) false) sampleOps = some s ∧
      s.freePages = 3 ∧ s.invalidFreeCount = 1 ∧ Representation s := by
  refine Transition.ends_imp (Q := fun s => s.freePages = 3 ∧ s.invalidFreeCount = 1)
    (by decide +kernel) ?_
  rintro s ran ⟨free, invalid⟩
  exact ⟨free, invalid, run_representation _ _ _ (.of_ran rfl ran)⟩

end OsArmv8a.PageAlloc
