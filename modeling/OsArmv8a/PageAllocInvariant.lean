import OsArmv8a.PageAlloc

set_option autoImplicit false

namespace OsArmv8a

theorem mem_pagesFrom {count : Nat} : ∀ {start pa : Nat},
    pa ∈ pagesFrom start count ↔ ∃ offset < count, pa = start + 4096 * offset := by
  induction count with
  | zero => intro start pa; simp [pagesFrom]
  | succ count ih =>
    intro start pa
    simp only [pagesFrom, List.mem_cons, ih]
    constructor
    · rintro (rfl | ⟨offset, inside, rfl⟩)
      · exact ⟨0, by omega, by omega⟩
      · exact ⟨offset + 1, by omega, by omega⟩
    · rintro ⟨offset, inside, rfl⟩
      cases offset with
      | zero => exact Or.inl (by omega)
      | succ offset => exact Or.inr ⟨offset, by omega, by omega⟩

theorem nodup_pagesFrom (count : Nat) : ∀ start, (pagesFrom start count).Nodup := by
  induction count with
  | zero => intro start; exact List.nodup_nil
  | succ count ih =>
    intro start
    refine List.nodup_cons.mpr ⟨?_, ih _⟩
    rw [mem_pagesFrom]
    rintro ⟨offset, _, same⟩
    omega

@[simp] theorem length_pagesFrom (count : Nat) : ∀ start, (pagesFrom start count).length = count := by
  induction count with
  | zero => intro start; rfl
  | succ count ih => intro start; simp [pagesFrom, ih]

namespace PageAlloc

open Intrusive

/-- The managed window is made of whole pages at the top of RAM. -/
structure Window (s : State) : Prop where
  aligned : s.managedStart % 4096 = 0
  lower : 0x40000000 ≤ s.managedStart
  upper : s.managedStart ≤ s.managedEnd
  top : s.managedEnd = 0x48000000

def Managed (s : State) (pa : Nat) : Prop :=
  s.managedStart ≤ pa ∧ pa < s.managedEnd ∧ pa % 4096 = 0

instance (s : State) (pa : Nat) : Decidable (Managed s pa) :=
  inferInstanceAs (Decidable (_ ∧ _ ∧ _))

variable {s : State} {pa : Nat}

theorem Window.mem_managedPages (window : Window s) : pa ∈ s.managedPages ↔ Managed s pa := by
  have aligned := window.aligned
  have top := window.top
  simp only [State.managedPages, mem_pagesFrom, Managed]
  constructor
  · rintro ⟨offset, inside, rfl⟩
    omega
  · rintro ⟨lower, below, page⟩
    exact ⟨(pa - s.managedStart) / 4096, by omega, by omega⟩

theorem Window.bounds (window : Window s) (managed : Managed s pa) :
    0x40000000 ≤ pa ∧ pa + 4096 ≤ 0x48000000 ∧ pa % 4096 = 0 := by
  obtain ⟨lower, below, page⟩ := managed
  have := window.lower
  have := window.top
  omega

variable {other : Nat}

/-- Distinct managed pages have distinct entries of `pages[]`. -/
theorem index_inj (managed : Managed s pa) (managedOther : Managed s other)
    (same : pageIndexFromAddress other = pageIndexFromAddress pa) : other = pa := by
  have first := managed.2.2
  have second := managedOther.2.2
  unfold pageIndexFromAddress at same
  omega

theorem stateAt_setPage (page : Page) (managed : Managed s pa) (managedOther : Managed s other) :
    (s.setPage pa page).stateAt other = if other = pa then page.state else s.stateAt other := by
  unfold State.stateAt State.setPage
  by_cases same : other = pa
  · simp [same]
  · have apart : pageIndexFromAddress other ≠ pageIndexFromAddress pa :=
      fun equal => same (index_inj managed managedOther equal)
    simp [same, apart]

theorem refAt_setPage (page : Page) (managed : Managed s pa) (managedOther : Managed s other) :
    (s.setPage pa page).refAt other = if other = pa then page.refCount else s.refAt other := by
  unfold State.refAt State.setPage
  by_cases same : other = pa
  · simp [same]
  · have apart : pageIndexFromAddress other ≠ pageIndexFromAddress pa :=
      fun equal => same (index_inj managed managedOther equal)
    simp [same, apart]

/-- What every operation keeps about the state array and the counters; the free
list is the subject of `Linked`. -/
structure Core (s : State) : Prop where
  window : Window s
  total : s.totalPages = s.managedPages.length
  states : ∀ pa, Managed s pa → s.stateAt pa = .free ∨ s.stateAt pa = .allocated
  refs : ∀ pa, Managed s pa → s.stateAt pa = .allocated →
    1 ≤ s.refAt pa ∧ s.refAt pa < 2 ^ 16

/-- The list linked through the free pages holds exactly the managed pages whose
state is free, and `free_pages` counts them. -/
def Linked (s : State) : Prop :=
  ∃ xs, Chain s.link s.head xs ∧ (∀ pa, pa ∈ xs ↔ Managed s pa ∧ s.stateAt pa = .free) ∧
    s.freePages = xs.length

structure Invariant (s : State) : Prop where
  core : Core s
  linked : Linked s

/-- The managed pages whose state is free, in ascending order. -/
def freeManaged (s : State) : List Nat := s.managedPages.filter fun pa => s.stateAt pa = .free

theorem Window.mem_freeManaged (window : Window s) :
    pa ∈ freeManaged s ↔ Managed s pa ∧ s.stateAt pa = .free := by
  simp [freeManaged, List.mem_filter, window.mem_managedPages]

theorem nodup_freeManaged (s : State) : (freeManaged s).Nodup :=
  (nodup_pagesFrom _ _).filter _

theorem Linked.freePages_eq (window : Window s) (linked : Linked s) :
    s.freePages = (freeManaged s).length := by
  obtain ⟨xs, chain, members, count⟩ := linked
  rw [count]
  apply List.Perm.length_eq
  rw [List.perm_ext_iff_of_nodup chain.nodup (nodup_freeManaged s)]
  intro pa
  rw [members, window.mem_freeManaged]

theorem pagePtrToPa_of_lt {mmuEnabled : Bool} {ptr : Nat} (low : ptr < kernelVaOffset) :
    pagePtrToPa mmuEnabled ptr = ptr := by
  unfold pagePtrToPa
  rw [if_neg]
  omega

variable {t : State}

theorem link_congr (mode : t.mmuEnabled = s.mmuEnabled) (word : t.mem pa = s.mem pa) :
    t.link pa = s.link pa := by
  unfold State.link
  rw [mode, word]

theorem ofNat_toNat_of_lt (low : pa < kernelVaOffset) : (BitVec.ofNat 64 pa).toNat = pa := by
  rw [BitVec.toNat_ofNat]
  unfold kernelVaOffset at low
  omega

/-- The link just stored by a push leads to the previous head. -/
theorem link_pushFree (low : s.freeListPa < kernelVaOffset) : (pushFree s pa).link pa = s.head := by
  unfold State.link State.head pushFree
  simp only [Mem.set_same]
  rw [ofNat_toNat_of_lt low, pagePtrToPa_of_lt low]

theorem link_pushFree_other (apart : other ≠ pa) : (pushFree s pa).link other = s.link other :=
  link_congr rfl (Mem.set_other _ _ apart)

theorem head_pushFree (positive : pa ≠ 0) : (pushFree s pa).head = some pa := if_neg positive

variable {xs : List Nat}

theorem pushFree_chain (positive : pa ≠ 0) (low : s.freeListPa < kernelVaOffset)
    (chain : Chain s.link s.head xs) (fresh : pa ∉ xs) :
    Chain (pushFree s pa).link (pushFree s pa).head (pa :: xs) := by
  refine ⟨head_pushFree positive, ?_⟩
  rw [link_pushFree low]
  apply chain.congr
  intro other member
  exact link_pushFree_other (fun same => fresh (same ▸ member))

theorem Chain.head_low (chain : Chain s.link s.head xs) (low : ∀ pa ∈ xs, pa < kernelVaOffset) :
    s.freeListPa < kernelVaOffset := by
  have head := chain.head_eq
  unfold State.head at head
  split at head
  · rename_i zero
    rw [zero]
    exact kernelVaOffset_pos
  · cases xs with
    | nil => cases head
    | cons x xs =>
      rw [Option.some.inj head]
      exact low x List.mem_cons_self

/-- The parts of the state that no operation after initialisation changes. -/
structure SameWindow (s t : State) : Prop where
  start : t.managedStart = s.managedStart
  stop : t.managedEnd = s.managedEnd
  total : t.totalPages = s.totalPages
  mode : t.mmuEnabled = s.mmuEnabled

theorem SameWindow.refl (s : State) : SameWindow s s := ⟨rfl, rfl, rfl, rfl⟩

theorem SameWindow.trans {u : State} (first : SameWindow s t) (second : SameWindow t u) :
    SameWindow s u :=
  ⟨second.start.trans first.start, second.stop.trans first.stop,
    second.total.trans first.total, second.mode.trans first.mode⟩

theorem SameWindow.managed_iff (same : SameWindow s t) (pa : Nat) :
    Managed t pa ↔ Managed s pa := by
  unfold Managed
  rw [same.start, same.stop]

theorem SameWindow.managedPages_eq (same : SameWindow s t) : t.managedPages = s.managedPages := by
  unfold State.managedPages
  rw [same.start, same.stop]

theorem SameWindow.window (same : SameWindow s t) (window : Window s) : Window t :=
  ⟨same.start ▸ window.aligned, same.start ▸ window.lower,
    by rw [same.start, same.stop]; exact window.upper, same.stop ▸ window.top⟩

/-- The core invariant only depends on the entries of managed pages. -/
theorem Core.of_entries (core : Core s) (same : SameWindow s t)
    (entries : ∀ pa, Managed s pa → t.stateAt pa = s.stateAt pa ∧ t.refAt pa = s.refAt pa ∨
      t.stateAt pa = .free ∨ t.stateAt pa = .allocated ∧ 1 ≤ t.refAt pa ∧ t.refAt pa < 2 ^ 16) :
    Core t := by
  refine ⟨same.window core.window, ?_, ?_, ?_⟩
  · rw [same.total, core.total, same.managedPages_eq]
  · intro pa managed
    have was := (same.managed_iff pa).mp managed
    rcases entries pa was with ⟨state, -⟩ | free | ⟨allocated, -⟩
    · rw [state]
      exact core.states pa was
    · exact Or.inl free
    · exact Or.inr allocated
  · intro pa managed allocated
    have was := (same.managed_iff pa).mp managed
    rcases entries pa was with ⟨state, refs⟩ | free | ⟨-, range⟩
    · rw [refs]
      exact core.refs pa was (state.symm.trans allocated)
    · cases free.symm.trans allocated
    · exact range

theorem Window.low (window : Window s) (managed : Managed s pa) : pa ≠ 0 ∧ pa < kernelVaOffset := by
  have bounds := window.bounds managed
  unfold kernelVaOffset
  omega

/-- Both views of the free list agree that a listed page is managed and free. -/
theorem Invariant.chain_low (inv : Invariant s)
    (members : ∀ pa, pa ∈ xs ↔ Managed s pa ∧ s.stateAt pa = .free) :
    ∀ pa ∈ xs, pa < kernelVaOffset :=
  fun pa member => (inv.core.window.low ((members pa).mp member).1).2

/-- `t` is `s` after the free page `pa` has been handed out, scrubbed, with one reference. -/
structure Acquired (s t : State) (pa : Nat) : Prop where
  same : SameWindow s t
  managed : Managed s pa
  wasFree : s.stateAt pa = .free
  states : ∀ other, Managed s other →
    t.stateAt other = if other = pa then .allocated else s.stateAt other
  refs : ∀ other, Managed s other → t.refAt other = if other = pa then 1 else s.refAt other
  scrubbed : ∀ a, pa ≤ a → a < pa + 4096 → t.mem a = 0
  frame : ∀ a, a < pa ∨ pa + 4096 ≤ a → t.mem a = s.mem a

/-- `t` is `s` after one reference to the allocated page `pa` has been dropped. A
page that loses its last reference becomes free and only its link word changes. -/
structure Dropped (s t : State) (pa : Nat) : Prop where
  same : SameWindow s t
  states : ∀ other, Managed s other → t.stateAt other =
    if other = pa then (if 1 < s.refAt pa then .allocated else .free) else s.stateAt other
  refs : ∀ other, Managed s other →
    t.refAt other = if other = pa then s.refAt pa - 1 else s.refAt other
  frame : ∀ a, a ≠ pa → t.mem a = s.mem a
  shared : 1 < s.refAt pa → t.mem = s.mem

theorem pageAlloc_acquired (inv : Invariant s) (taken : pageAlloc s = (some pa, t)) :
    Acquired s t pa := by
  obtain ⟨xs, chain, members, count⟩ := inv.linked
  unfold pageAlloc at taken
  split at taken
  · cases taken
  · rename_i head found
    cases taken
    have listed : pa ∈ xs := by
      have first := chain.head_eq
      rw [found] at first
      exact List.mem_of_head? first.symm
    obtain ⟨managed, free⟩ := (members pa).mp listed
    refine ⟨⟨rfl, rfl, rfl, rfl⟩, managed, free, ?_, ?_, ?_, ?_⟩
    · intro other managedOther
      exact stateAt_setPage _ (s := s) managed managedOther
    · intro other managedOther
      exact refAt_setPage _ (s := s) managed managedOther
    · intro a lower upper
      exact Mem.zero_inside _ lower upper
    · intro a outside
      exact Mem.zero_outside _ outside

theorem Acquired.core (acquired : Acquired s t pa) (core : Core s) : Core t := by
  refine core.of_entries acquired.same fun other managed => ?_
  rw [acquired.states other managed, acquired.refs other managed]
  split
  · exact Or.inr (Or.inr ⟨rfl, by decide⟩)
  · exact Or.inl ⟨rfl, rfl⟩

theorem pageAlloc_invariant (inv : Invariant s) : Invariant (pageAlloc s).2 := by
  cases found : s.head with
  | none =>
    have unchanged : (pageAlloc s).2 = s := by simp only [pageAlloc, found]
    rw [unchanged]
    exact inv
  | some pa =>
    have taken : pageAlloc s = (some pa, (pageAlloc s).2) := by simp only [pageAlloc, found]
    have acquired := pageAlloc_acquired inv taken
    refine ⟨acquired.core inv.core, ?_⟩
    obtain ⟨xs, chain, members, count⟩ := inv.linked
    have nodup := chain.nodup
    cases xs with
    | nil =>
      rw [chain_nil.mp chain] at found
      cases found
    | cons x rest =>
      have same : x = pa := Option.some.inj (chain.1.symm.trans found)
      subst same
      have fresh := (List.nodup_cons.mp nodup).1
      refine ⟨rest, ?_, ?_, ?_⟩
      · have popped : (pageAlloc s).2.freeListPa =
            pagePtrToPa s.mmuEnabled (s.mem x).toNat := by
          simp only [pageAlloc, found, zeroPage, State.setPage]
        have head : (pageAlloc s).2.head = s.link x := by
          simp only [State.head, State.link, popped]
        rw [head]
        apply chain.2.congr
        intro other member
        have listed := (members other).mp (List.mem_cons_of_mem x member)
        have apart : other ≠ x := fun equal => fresh (equal ▸ member)
        apply link_congr acquired.same.mode
        apply acquired.frame
        have aligned := listed.1.2.2
        have alignedHead := acquired.managed.2.2
        omega
      · intro other
        rw [acquired.same.managed_iff]
        constructor
        · intro member
          have listed := (members other).mp (List.mem_cons_of_mem x member)
          have apart : other ≠ x := fun equal => fresh (equal ▸ member)
          rw [acquired.states other listed.1, if_neg apart]
          exact listed
        · rintro ⟨managed, free⟩
          rw [acquired.states other managed] at free
          split at free
          · cases free
          · rename_i apart
            have listed := (members other).mpr ⟨managed, free⟩
            exact (List.mem_cons.mp listed).resolve_left apart
      · simp only [pageAlloc, found, zeroPage, State.setPage, count, List.length_cons]
        omega

/-- Putting an allocated page back extends the free list at its head. -/
theorem releasePage_invariant (inv : Invariant s) (managed : Managed s pa)
    (allocated : s.stateAt pa = .allocated) : Invariant (releasePage s pa) := by
  have states : ∀ other, Managed s other → (releasePage s pa).stateAt other =
      if other = pa then .free else s.stateAt other := fun other managedOther =>
    stateAt_setPage _ (s := pushFree s pa) managed managedOther
  have refs : ∀ other, Managed s other → (releasePage s pa).refAt other =
      if other = pa then 0 else s.refAt other := fun other managedOther =>
    refAt_setPage _ (s := pushFree s pa) managed managedOther
  constructor
  · refine inv.core.of_entries ⟨rfl, rfl, rfl, rfl⟩ fun other managedOther => ?_
    rw [states other managedOther, refs other managedOther]
    split
    · exact Or.inr (Or.inl rfl)
    · exact Or.inl ⟨rfl, rfl⟩
  · obtain ⟨xs, chain, members, count⟩ := inv.linked
    have fresh : pa ∉ xs := by
      intro member
      rw [((members pa).mp member).2] at allocated
      cases allocated
    refine ⟨pa :: xs, ?_, ?_, ?_⟩
    · exact pushFree_chain (inv.core.window.low managed).1
        (Chain.head_low chain (inv.chain_low members)) chain fresh
    · intro other
      rw [List.mem_cons, members]
      constructor
      · rintro (rfl | ⟨managedOther, free⟩)
        · refine ⟨managed, ?_⟩
          rw [states other managed, if_pos rfl]
        · refine ⟨managedOther, ?_⟩
          rw [states other managedOther]
          split
          · rfl
          · exact free
      · rintro ⟨managedOther, free⟩
        rw [states other managedOther] at free
        by_cases same : other = pa
        · exact Or.inl same
        · rw [if_neg same] at free
          exact Or.inr ⟨managedOther, free⟩
    · change s.freePages + 1 = _
      rw [count, List.length_cons]

/-- Changing the reference count of an allocated page touches nothing else. -/
theorem setRef_invariant (inv : Invariant s) {count : Nat} (managed : Managed s pa)
    (allocated : s.stateAt pa = .allocated) (positive : 1 ≤ count) (bounded : count < 2 ^ 16) :
    Invariant (s.setPage pa { state := .allocated, refCount := count }) := by
  have states : ∀ other, Managed s other →
      (s.setPage pa { state := .allocated, refCount := count }).stateAt other =
        s.stateAt other := by
    intro other managedOther
    rw [stateAt_setPage _ managed managedOther]
    split
    · rename_i same
      rw [same, allocated]
    · rfl
  constructor
  · refine inv.core.of_entries ⟨rfl, rfl, rfl, rfl⟩ fun other managedOther => ?_
    rw [stateAt_setPage _ managed managedOther, refAt_setPage _ managed managedOther]
    split
    · exact Or.inr (Or.inr ⟨rfl, positive, bounded⟩)
    · exact Or.inl ⟨rfl, rfl⟩
  · obtain ⟨xs, chain, members, length⟩ := inv.linked
    refine ⟨xs, chain, ?_, length⟩
    intro other
    rw [members]
    constructor
    · rintro ⟨managedOther, free⟩
      exact ⟨managedOther, (states other managedOther).trans free⟩
    · rintro ⟨managedOther, free⟩
      exact ⟨managedOther, (states other managedOther).symm.trans free⟩

theorem Invariant.counters (inv : Invariant s) (shape : ∃ invalid double,
      t = { s with invalidFreeCount := invalid, doubleFreeCount := double }) : Invariant t := by
  obtain ⟨invalid, double, rfl⟩ := shape
  exact ⟨⟨⟨inv.core.window.aligned, inv.core.window.lower, inv.core.window.upper,
    inv.core.window.top⟩, inv.core.total, inv.core.states, inv.core.refs⟩, inv.linked⟩

theorem managed_of_checks (aligned : ¬ pa % 4096 ≠ 0)
    (inside : ¬ (pa < s.managedStart ∨ s.managedEnd ≤ pa)) : Managed s pa := by
  refine ⟨?_, ?_, ?_⟩ <;> omega

theorem pageFree_invariant (inv : Invariant s) (pa : Nat) : Invariant (pageFree s pa) := by
  unfold pageFree
  split
  · exact inv
  split
  · exact inv.counters ⟨_, _, rfl⟩
  split
  · exact inv.counters ⟨_, _, rfl⟩
  rename_i aligned inside
  have managed := managed_of_checks aligned inside
  split
  · exact inv.counters ⟨_, _, rfl⟩
  rename_i state
  have allocated : s.stateAt pa = .allocated := Decidable.not_not.mp state
  have refs := inv.core.refs pa managed allocated
  split
  · exact setRef_invariant inv managed allocated (by omega) (by omega)
  · exact releasePage_invariant inv managed allocated

theorem pageRefInc_invariant (inv : Invariant s) (aligned : pa % 4096 = 0) :
    Invariant (pageRefInc s pa) := by
  unfold pageRefInc
  split
  · exact inv
  rename_i inside
  have managed := managed_of_checks (not_not_intro aligned) inside
  split
  · exact inv
  rename_i usable
  have allocated : s.stateAt pa = .allocated :=
    Decidable.not_not.mp fun other => usable (Or.inl other)
  have refs := inv.core.refs pa managed allocated
  exact setRef_invariant inv managed allocated (by omega) (by omega)

theorem pageRefDec_invariant (inv : Invariant s) (aligned : pa % 4096 = 0) :
    Invariant (pageRefDec s pa).2 := by
  unfold pageRefDec
  split
  · exact inv
  rename_i inside
  have managed := managed_of_checks (not_not_intro aligned) inside
  split
  · exact inv
  rename_i usable
  have allocated : s.stateAt pa = .allocated :=
    Decidable.not_not.mp fun other => usable (Or.inl other)
  have refs := inv.core.refs pa managed allocated
  split
  · exact setRef_invariant inv managed allocated (by omega) (by omega)
  · exact releasePage_invariant inv managed allocated

/-- The rebuilding loop over any list of pages links exactly the free ones among
them, in order, and writes no other word. -/
theorem rebuild_spec (s : State) (pages : List Nat) (nodup : pages.Nodup)
    (low : ∀ pa ∈ pages, pa ≠ 0 ∧ pa < kernelVaOffset) :
    ∃ m first, pages.foldr rebuildPage { s with freeListPa := 0 } =
        { s with mem := m, freeListPa := first } ∧
      Chain { s with mem := m, freeListPa := first }.link
        { s with mem := m, freeListPa := first }.head
        (pages.filter fun pa => s.stateAt pa = .free) ∧
      ∀ a, a ∉ pages.filter (fun pa => s.stateAt pa = .free) → m a = s.mem a := by
  induction pages with
  | nil =>
    exact ⟨s.mem, 0, rfl, rfl, fun _ _ => rfl⟩
  | cons pa rest ih =>
    obtain ⟨fresh, nodup⟩ := List.nodup_cons.mp nodup
    obtain ⟨m, first, loop, chain, frame⟩ :=
      ih nodup (fun other member => low other (List.mem_cons_of_mem pa member))
    have headLow := Chain.head_low chain fun other member =>
      (low other (List.mem_cons_of_mem pa (List.mem_of_mem_filter member))).2
    rw [List.foldr_cons, loop]
    by_cases free : s.stateAt pa = .free
    · have push : rebuildPage pa { s with mem := m, freeListPa := first } =
          pushFree { s with mem := m, freeListPa := first } pa := if_pos free
      refine ⟨m.set pa (BitVec.ofNat 64 first), pa, push, ?_, ?_⟩
      · rw [List.filter_cons_of_pos (by simpa using free)]
        refine pushFree_chain (low pa List.mem_cons_self).1 headLow chain ?_
        exact fun member => fresh (List.mem_of_mem_filter member)
      · intro a outside
        rw [List.filter_cons_of_pos (by simpa using free), List.mem_cons, not_or] at outside
        rw [Mem.set_other _ _ outside.1]
        exact frame a outside.2
    · have skip : rebuildPage pa { s with mem := m, freeListPa := first } =
          { s with mem := m, freeListPa := first } := if_neg free
      refine ⟨m, first, skip, ?_, ?_⟩
      · rw [List.filter_cons_of_neg (by simpa using free)]
        exact chain
      · intro a outside
        rw [List.filter_cons_of_neg (by simpa using free)] at outside
        exact frame a outside

/-- `t` is `s` with a free list that holds the free pages in ascending order. -/
structure Rebuilt (s t : State) : Prop where
  same : SameWindow s t
  pages : t.pages = s.pages
  freePages : t.freePages = s.freePages
  chain : Chain t.link t.head (freeManaged s)
  frame : ∀ a, ¬ (Managed s a ∧ s.stateAt a = .free) → t.mem a = s.mem a

theorem Rebuilt.stateAt (rebuilt : Rebuilt s t) (pa : Nat) : t.stateAt pa = s.stateAt pa := by
  rw [State.stateAt, rebuilt.pages, State.stateAt]

theorem Rebuilt.refAt (rebuilt : Rebuilt s t) (pa : Nat) : t.refAt pa = s.refAt pa := by
  rw [State.refAt, rebuilt.pages, State.refAt]

theorem rebuildFreeList_spec (window : Window s) : Rebuilt s (rebuildFreeList s) := by
  obtain ⟨m, first, loop, chain, frame⟩ := rebuild_spec s s.managedPages (nodup_pagesFrom _ _)
    (fun pa member => window.low (window.mem_managedPages.mp member))
  have whole : rebuildFreeList s = { s with mem := m, freeListPa := first } := loop
  rw [whole]
  exact ⟨⟨rfl, rfl, rfl, rfl⟩, rfl, rfl, chain, fun a kept =>
    frame a fun listed => kept (window.mem_freeManaged.mp listed)⟩

/-- Rebuilding restores the free list from the state array alone. -/
theorem rebuildFreeList_invariant (core : Core s) (count : s.freePages = (freeManaged s).length) :
    Invariant (rebuildFreeList s) := by
  have rebuilt := rebuildFreeList_spec core.window
  refine ⟨core.of_entries rebuilt.same fun pa _ => Or.inl ⟨rebuilt.stateAt pa, rebuilt.refAt pa⟩,
    freeManaged s, rebuilt.chain, fun pa => ?_, rebuilt.freePages.trans count⟩
  rw [core.window.mem_freeManaged, rebuilt.same.managed_iff, rebuilt.stateAt]

end PageAlloc

end OsArmv8a
