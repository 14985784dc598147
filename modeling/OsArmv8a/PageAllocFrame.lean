import OsArmv8a.PageAllocRun

set_option autoImplicit false

namespace OsArmv8a.PageAlloc

variable {s : State} {pa : Nat}

theorem releasePage_dropped (managed : Managed s pa) (last : ¬ 1 < s.refAt pa) :
    Dropped s (releasePage s pa) pa := by
  refine ⟨⟨rfl, rfl, rfl, rfl⟩, ?_, ?_, ?_, fun shared => absurd shared last⟩
  · intro other managedOther
    rw [if_neg last]
    exact stateAt_setPage _ (s := pushFree s pa) managed managedOther
  · intro other managedOther
    have none : s.refAt pa - 1 = 0 := by omega
    rw [none]
    exact refAt_setPage _ (s := pushFree s pa) managed managedOther
  · intro a apart
    exact Mem.set_other _ _ apart

theorem setRef_dropped (managed : Managed s pa) (shared : 1 < s.refAt pa) :
    Dropped s (s.setPage pa { state := .allocated, refCount := s.refAt pa - 1 }) pa := by
  refine ⟨⟨rfl, rfl, rfl, rfl⟩, ?_, ?_, fun _ _ => rfl, fun _ => rfl⟩
  · intro other managedOther
    rw [if_pos shared]
    exact stateAt_setPage _ managed managedOther
  · intro other managedOther
    exact refAt_setPage _ managed managedOther

theorem pageFree_dropped (inv : Invariant s) (managed : Managed s pa)
    (allocated : s.stateAt pa = .allocated) : Dropped s (pageFree s pa) pa := by
  have low := inv.core.window.low managed
  have inside : ¬ (pa < s.managedStart ∨ s.managedEnd ≤ pa) := by
    have lower := managed.1
    have upper := managed.2.1
    omega
  unfold pageFree
  rw [if_neg low.1, if_neg (not_not_intro managed.2.2), if_neg inside,
    if_neg (not_not_intro allocated)]
  split
  · rename_i shared
    exact setRef_dropped managed shared
  · rename_i last
    exact releasePage_dropped managed last

theorem pageRefDec_dropped (inv : Invariant s) (managed : Managed s pa)
    (allocated : s.stateAt pa = .allocated) : Dropped s (pageRefDec s pa).2 pa := by
  have refs := (inv.core.refs pa managed allocated).1
  have inside : ¬ (pa < s.managedStart ∨ s.managedEnd ≤ pa) := by
    have lower := managed.1
    have upper := managed.2.1
    omega
  have usable : ¬ (s.stateAt pa ≠ .allocated ∨ s.refAt pa = 0) := by
    rintro (other | zero)
    · exact other allocated
    · omega
  unfold pageRefDec
  rw [if_neg inside, if_neg usable]
  split
  · exact setRef_dropped managed (by omega)
  · exact releasePage_dropped managed (by omega)

/-- A free of anything but an allocated managed page is only counted. -/
theorem pageFree_ignored (other : ¬ (Managed s pa ∧ s.stateAt pa = .allocated)) : ∃ invalid double,
      pageFree s pa = { s with invalidFreeCount := invalid, doubleFreeCount := double } := by
  unfold pageFree
  iterate 3
    split
    · exact ⟨_, _, rfl⟩
  rename_i aligned inside
  split
  · exact ⟨_, _, rfl⟩
  · rename_i allocated
    exact absurd ⟨managed_of_checks aligned inside, Decidable.not_not.mp allocated⟩ other

theorem pageRefDec_ignored (aligned : pa % 4096 = 0)
    (other : ¬ (Managed s pa ∧ s.stateAt pa = .allocated)) : (pageRefDec s pa).2 = s := by
  unfold pageRefDec
  split
  · rfl
  rename_i inside
  split
  · rfl
  · rename_i usable
    have allocated : s.stateAt pa = .allocated :=
      Decidable.not_not.mp fun unallocated => usable (Or.inl unallocated)
    exact absurd ⟨managed_of_checks (not_not_intro aligned) inside, allocated⟩ other

/-- `t` is `s` after one more reference to the allocated page `pa` has been taken. -/
structure Raised (s t : State) (pa : Nat) : Prop where
  same : SameWindow s t
  states : ∀ other, Managed s other → t.stateAt other = s.stateAt other
  refs : ∀ other, Managed s other →
    t.refAt other = if other = pa then s.refAt pa + 1 else s.refAt other
  mem : t.mem = s.mem

theorem pageRefInc_raised (inv : Invariant s) (managed : Managed s pa)
    (allocated : s.stateAt pa = .allocated) (room : s.refAt pa < 2 ^ 16 - 1) :
    Raised s (pageRefInc s pa) pa := by
  have refs := (inv.core.refs pa managed allocated).1
  have inside : ¬ (pa < s.managedStart ∨ s.managedEnd ≤ pa) := by
    have lower := managed.1
    have upper := managed.2.1
    omega
  have usable : ¬ (s.stateAt pa ≠ .allocated ∨ s.refAt pa = 0 ∨ s.refAt pa = 2 ^ 16 - 1) := by
    rintro (other | zero | full)
    · exact other allocated
    · omega
    · omega
  unfold pageRefInc
  rw [if_neg inside, if_neg usable]
  refine ⟨⟨rfl, rfl, rfl, rfl⟩, ?_, ?_, rfl⟩
  · intro other managedOther
    rw [stateAt_setPage _ managed managedOther]
    split
    · rename_i same
      rw [same, allocated]
    · rfl
  · intro other managedOther
    exact refAt_setPage _ managed managedOther

/-- The page stays allocated, with its references and its contents. -/
structure Kept (s t : State) (page : Nat) : Prop where
  managed : Managed t page
  allocated : t.stateAt page = .allocated
  refs : t.refAt page = s.refAt page
  contents : ∀ a, page ≤ a → a < page + 4096 → t.mem a = s.mem a

variable {page : Nat}

theorem Kept.refl (managed : Managed s page) (allocated : s.stateAt page = .allocated) :
    Kept s s page :=
  ⟨managed, allocated, rfl, fun _ _ _ => rfl⟩

/-- The only page address inside an allocated page is its own. -/
theorem not_free_inside {a : Nat} (managed : Managed s page)
    (allocated : s.stateAt page = .allocated) (lower : page ≤ a) (upper : a < page + 4096) :
    ¬ (Managed s a ∧ s.stateAt a = .free) := by
  rintro ⟨managedA, free⟩
  have aligned := managed.2.2
  have alignedA := managedA.2.2
  have same : a = page := by omega
  rw [same, allocated] at free
  cases free

variable {t : State}

theorem Acquired.kept (acquired : Acquired s t pa) (managed : Managed s page)
    (allocated : s.stateAt page = .allocated) : Kept s t page := by
  have apart : page ≠ pa := by
    rintro rfl
    rw [acquired.wasFree] at allocated
    cases allocated
  refine ⟨(acquired.same.managed_iff page).mpr managed, ?_, ?_, ?_⟩
  · rw [acquired.states page managed, if_neg apart, allocated]
  · rw [acquired.refs page managed, if_neg apart]
  · intro a lower upper
    apply acquired.frame
    have aligned := managed.2.2
    have alignedPa := acquired.managed.2.2
    omega

theorem AcquiredSpan.kept {start count : Nat} (acquired : AcquiredSpan s t start count)
    (managed : Managed s page) (allocated : s.stateAt page = .allocated) : Kept s t page := by
  have apart : page ∉ pagesFrom start count := by
    intro member
    rw [acquired.wasFree page member] at allocated
    cases allocated
  refine ⟨(acquired.same.managed_iff page).mpr managed, ?_, ?_, ?_⟩
  · rw [acquired.states page managed, if_neg apart, allocated]
  · rw [acquired.refs page managed, if_neg apart]
  · intro a lower upper
    refine acquired.frame a ?_ (not_free_inside managed allocated lower upper)
    by_cases empty : count = 0
    · omega
    · have first := acquired.managed start (mem_pagesFrom.mpr ⟨0, Nat.pos_of_ne_zero empty, rfl⟩)
      have aligned := managed.2.2
      have alignedStart := first.2.2
      have outside : ¬ (start ≤ page ∧ page < start + 4096 * count) := by
        rintro ⟨above, below⟩
        exact apart (mem_pagesFrom.mpr ⟨(page - start) / 4096, by omega, by omega⟩)
      omega

theorem ReleasedSpan.kept {start count : Nat} (released : ReleasedSpan s t start count)
    (managed : Managed s page) (allocated : s.stateAt page = .allocated)
    (apart : page ∉ pagesFrom start count) : Kept s t page := by
  have managedT := (released.same.managed_iff page).mpr managed
  have still : t.stateAt page = .allocated := by
    rw [released.states page managed, if_neg apart, allocated]
  refine ⟨managedT, still, released.refs page managed, ?_⟩
  intro a lower upper
  refine released.frame a ?_
  rintro ⟨managedA, free⟩
  exact not_free_inside managedT still lower upper
    ⟨(released.same.managed_iff a).mpr managedA, free⟩

theorem Dropped.kept (dropped : Dropped s t pa) (managedPa : Managed s pa)
    (managed : Managed s page) (allocated : s.stateAt page = .allocated) (apart : page ≠ pa) :
    Kept s t page := by
  refine ⟨(dropped.same.managed_iff page).mpr managed, ?_, ?_, ?_⟩
  · rw [dropped.states page managed, if_neg apart, allocated]
  · rw [dropped.refs page managed, if_neg apart]
  · intro a lower upper
    apply dropped.frame
    have aligned := managed.2.2
    have alignedPa := managedPa.2.2
    omega

/-- The pages a call may free, whose count it may change, or that it writes on behalf of
their owner. -/
def Op.targets : Op → Nat → Prop
  | .free pa, page => page = pa
  | .refInc pa _, page => page = pa
  | .refDec pa _, page => page = pa
  | .freeContiguous pageAddr pageCount _ _, page => page ∈ pagesFrom pageAddr pageCount
  | .store address _, page => page ≤ address ∧ address < page + 4096
  | _, _ => False

instance : (op : Op) → (page : Nat) → Decidable (op.targets page)
  | .free pa, page => inferInstanceAs (Decidable (page = pa))
  | .refInc pa _, page => inferInstanceAs (Decidable (page = pa))
  | .refDec pa _, page => inferInstanceAs (Decidable (page = pa))
  | .freeContiguous pageAddr pageCount _ _, page =>
    inferInstanceAs (Decidable (page ∈ pagesFrom pageAddr pageCount))
  | .store address _, page => inferInstanceAs (Decidable (page ≤ address ∧ address < page + 4096))
  | .alloc, _ => inferInstanceAs (Decidable False)
  | .allocContiguous _, _ => inferInstanceAs (Decidable False)
  | .enableMmu, _ => inferInstanceAs (Decidable False)

/-- A call leaves alone every allocated page that is not its target. -/
theorem step_kept {op : Op} (inv : Invariant s) (taken : step s op = some t)
    (managed : Managed s page) (allocated : s.stateAt page = .allocated) (apart : ¬ op.targets page)
    : Kept s t page := by
  have same := Kept.refl managed allocated
  cases op with
  | alloc =>
    cases Option.some.inj taken
    cases result : pageAlloc s with
    | mk found t =>
      cases found with
      | none =>
        unfold pageAlloc at result
        split at result
        · exact (Prod.mk.inj result).2 ▸ same
        · cases result
      | some pa => exact (pageAlloc_acquired inv result).kept managed allocated
  | allocContiguous pageCount =>
    cases Option.some.inj taken
    cases result : pageAllocContiguous s pageCount with
    | mk found t =>
      cases found with
      | none =>
        rw [pageAllocContiguous_none result]
        exact same
      | some start => exact (pageAllocContiguous_spec inv result).1.kept managed allocated
  | free pa =>
    cases Option.some.inj taken
    by_cases owned : Managed s pa ∧ s.stateAt pa = .allocated
    · exact (pageFree_dropped inv owned.1 owned.2).kept owned.1 managed allocated apart
    · obtain ⟨_, _, counted⟩ := pageFree_ignored owned
      rw [counted]
      exact ⟨managed, allocated, rfl, fun _ _ _ => rfl⟩
  | freeContiguous pageAddr pageCount address fits =>
    rcases pageFreeContiguous_cases inv address taken with ⟨_, _, rfl⟩ | released
    · exact ⟨managed, allocated, rfl, fun _ _ _ => rfl⟩
    · exact released.1.kept managed allocated apart
  | refInc pa aligned =>
    cases Option.some.inj taken
    unfold pageRefInc
    split
    · exact same
    rename_i inside
    split
    · exact same
    have managedPa := managed_of_checks (not_not_intro aligned) inside
    change page ≠ pa at apart
    refine ⟨managed, ?_, ?_, fun _ _ _ => rfl⟩
    · rw [stateAt_setPage _ managedPa managed, if_neg apart, allocated]
    · rw [refAt_setPage _ managedPa managed, if_neg apart]
  | refDec pa aligned =>
    cases Option.some.inj taken
    by_cases owned : Managed s pa ∧ s.stateAt pa = .allocated
    · exact (pageRefDec_dropped inv owned.1 owned.2).kept owned.1 managed allocated apart
    · rw [pageRefDec_ignored aligned owned]
      exact same
  | enableMmu =>
    cases Option.some.inj taken
    exact ⟨managed, allocated, rfl, fun _ _ _ => rfl⟩
  | store address word =>
    simp only [step] at taken
    split at taken
    · cases Option.some.inj taken
      refine ⟨managed, allocated, rfl, fun a lower upper => Mem.set_other _ _ ?_⟩
      rintro rfl
      exact apart ⟨lower, upper⟩
    · cases taken

/-- The managed range is fixed at boot. -/
theorem step_managed {op : Op} (inv : Invariant s) (taken : step s op = some t) (page : Nat) :
    Managed t page ↔ Managed s page := by
  cases op with
  | alloc =>
    cases Option.some.inj taken
    unfold pageAlloc
    split <;> rfl
  | allocContiguous pageCount =>
    cases Option.some.inj taken
    cases result : pageAllocContiguous s pageCount with
    | mk found t =>
      cases found with
      | none => rw [pageAllocContiguous_none result]
      | some start => exact (pageAllocContiguous_spec inv result).1.same.managed_iff page
  | free pa =>
    cases Option.some.inj taken
    unfold pageFree
    split
    · rfl
    split
    · rfl
    split
    · rfl
    split
    · rfl
    split <;> rfl
  | freeContiguous pageAddr pageCount address fits =>
    rcases pageFreeContiguous_cases inv address taken with ⟨_, _, rfl⟩ | released
    · rfl
    · exact released.1.same.managed_iff page
  | refInc pa aligned =>
    cases Option.some.inj taken
    unfold pageRefInc
    split
    · rfl
    split <;> rfl
  | refDec pa aligned =>
    cases Option.some.inj taken
    unfold pageRefDec
    split
    · rfl
    split
    · rfl
    split <;> rfl
  | enableMmu =>
    cases Option.some.inj taken
    rfl
  | store address word =>
    simp only [step] at taken
    split at taken
    · cases Option.some.inj taken
      rfl
    · cases taken

end OsArmv8a.PageAlloc
