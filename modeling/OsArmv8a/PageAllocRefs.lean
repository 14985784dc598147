import OsArmv8a.PageAllocFrame

/-! The reference discipline of `page_alloc.c`: the calls about each page since its last allocation,
counted next to the allocator. -/

set_option autoImplicit false

namespace OsArmv8a.PageAlloc

open Intrusive

/-- The `page_ref_inc` calls and the drops since a page was last handed out. -/
structure Uses where
  incs : Nat
  drops : Nat
  deriving DecidableEq

/-- A page is held until there has been one drop more than increments. -/
def Uses.Held (uses : Uses) : Prop := uses.drops ≤ uses.incs

instance (uses : Uses) : Decidable uses.Held := inferInstanceAs (Decidable (_ ≤ _))

def Uses.fresh : Uses := { incs := 0, drops := 0 }

def Uses.inc (uses : Uses) : Uses := { uses with incs := uses.incs + 1 }

def Uses.drop (uses : Uses) : Uses := { uses with drops := uses.drops + 1 }

/-- The allocator with the counts of the calls. -/
structure Counted where
  pages : State
  uses : Nat → Uses

/-- Counts a call. Only calls about a held page count, and a contiguous free only when every page of its
range is held; what the allocator returns says which pages were handed out. -/
def Counted.count (c : Counted) (op : Op) (page : Nat) : Uses :=
  match op with
  | .alloc => if (pageAlloc c.pages).1 = some page then .fresh else c.uses page
  | .allocContiguous pageCount =>
    match (pageAllocContiguous c.pages pageCount).1 with
    | some start => if page ∈ pagesFrom start pageCount then .fresh else c.uses page
    | none => c.uses page
  | .free pa => if page = pa ∧ (c.uses pa).Held then (c.uses page).drop else c.uses page
  | .refDec pa _ => if page = pa ∧ (c.uses pa).Held then (c.uses page).drop else c.uses page
  | .refInc pa _ => if page = pa ∧ (c.uses pa).Held then (c.uses page).inc else c.uses page
  | .freeContiguous pageAddr pageCount _ _ =>
    if page ∈ pagesFrom pageAddr pageCount ∧
        ∀ other ∈ pagesFrom pageAddr pageCount, (c.uses other).Held then
      (c.uses page).drop
    else c.uses page
  | .enableMmu => c.uses page
  | .store _ _ => c.uses page

def countStep (c : Counted) (op : Op) : Option Counted :=
  (step c.pages op).map fun pages => { pages := pages, uses := c.count op }

/-- Nothing is held at boot. -/
def counted (image : KernelImage) (mem : Mem) (mmuEnabled : Bool) : Counted :=
  { pages := init image mem mmuEnabled, uses := fun _ => { incs := 0, drops := 1 } }

/-- A contiguous free is about pages with one reference, and no increment meets a full counter. -/
def Unshared (c : Counted) : Op → Prop
  | .freeContiguous pageAddr pageCount _ _ =>
    (∀ page ∈ pagesFrom pageAddr pageCount, c.pages.stateAt page = .allocated) →
      ∀ page ∈ pagesFrom pageAddr pageCount, c.pages.refAt page = 1
  | .refInc pa _ => c.pages.refAt pa ≠ 2 ^ 16 - 1
  | _ => True

instance (c : Counted) (op : Op) : Decidable (Unshared c op) := by
  unfold Unshared
  cases op <;> infer_instance

/-- A page of the managed window: allocated with the references the calls have left it, or free after
one drop more than increments. -/
def Tracks (c : Counted) (page : Nat) : Prop :=
  if (c.uses page).Held then
    c.pages.stateAt page = .allocated ∧ c.pages.refAt page + (c.uses page).drops = (c.uses page).incs + 1
  else c.pages.stateAt page = .free ∧ (c.uses page).drops = (c.uses page).incs + 1

structure Disciplined (c : Counted) : Prop where
  inv : Invariant c.pages
  managed : ∀ page, (c.uses page).Held → Managed c.pages page
  tracks : ∀ page, Managed c.pages page → Tracks c page

section Steps

variable {c : Counted} {t : State} {page pa : Nat}

theorem Tracks.held_iff (tracks : Tracks c page) :
    (c.uses page).Held ↔ c.pages.stateAt page = .allocated := by
  unfold Tracks at tracks
  split at tracks
  · rename_i held
    exact ⟨fun _ => tracks.1, fun _ => held⟩
  · rename_i free
    refine ⟨fun held => absurd held free, fun allocated => ?_⟩
    rw [tracks.1] at allocated
    cases allocated

theorem Tracks.refs (tracks : Tracks c page) (held : (c.uses page).Held) :
    c.pages.refAt page + (c.uses page).drops = (c.uses page).incs + 1 := by
  unfold Tracks at tracks
  rw [if_pos held] at tracks
  exact tracks.2

variable {d : Counted}

/-- A page whose entry and counts are as before. -/
theorem Tracks.same (tracks : Tracks c page) (uses : d.uses page = c.uses page)
    (state : d.pages.stateAt page = c.pages.stateAt page)
    (refs : d.pages.refAt page = c.pages.refAt page) : Tracks d page := by
  unfold Tracks at *
  rwa [uses, state, refs]

theorem tracks_fresh (uses : d.uses page = .fresh) (state : d.pages.stateAt page = .allocated)
    (refs : d.pages.refAt page = 1) : Tracks d page := by
  unfold Tracks
  rw [uses, if_pos (show Uses.fresh.Held from Nat.le_refl 0)]
  exact ⟨state, by rw [refs]; rfl⟩

/-- Dropping one of several references, and the last one. -/
theorem Tracks.drop (tracks : Tracks c page) (held : (c.uses page).Held)
    (uses : d.uses page = (c.uses page).drop)
    (state : d.pages.stateAt page = if 1 < c.pages.refAt page then .allocated else .free)
    (refs : 1 < c.pages.refAt page → d.pages.refAt page = c.pages.refAt page - 1) :
    Tracks d page := by
  have count := tracks.refs held
  have order : (c.uses page).drops ≤ (c.uses page).incs := held
  unfold Tracks
  rw [uses, state]
  by_cases shared : 1 < c.pages.refAt page
  · have still : (c.uses page).drop.Held := show (c.uses page).drops + 1 ≤ (c.uses page).incs by omega
    rw [if_pos still, if_pos shared, refs shared]
    exact ⟨rfl, show _ + ((c.uses page).drops + 1) = (c.uses page).incs + 1 by omega⟩
  · have last : ¬ (c.uses page).drop.Held :=
      show ¬ (c.uses page).drops + 1 ≤ (c.uses page).incs by omega
    rw [if_neg last, if_neg shared]
    exact ⟨rfl, show (c.uses page).drops + 1 = (c.uses page).incs + 1 by omega⟩

theorem Tracks.inc (tracks : Tracks c page) (held : (c.uses page).Held)
    (uses : d.uses page = (c.uses page).inc) (state : d.pages.stateAt page = .allocated)
    (refs : d.pages.refAt page = c.pages.refAt page + 1) : Tracks d page := by
  have count := tracks.refs held
  have still : (c.uses page).inc.Held := show (c.uses page).drops ≤ (c.uses page).incs + 1 by omega
  unfold Tracks
  rw [uses, state, refs, if_pos still]
  exact ⟨rfl, show _ + (c.uses page).drops = (c.uses page).incs + 1 + 1 by omega⟩

variable {pageAddr : Nat}

/-- A span of allocated pages passes the checking loop. -/
theorem checkSpan_all {s : State} (remaining : Nat) : ∀ {offset : Nat},
    (∀ index, offset ≤ index → index < offset + remaining →
      inPagesArray (Word64.add pageAddr (Word64.mul 4096 index)) ∧
      s.stateAt (Word64.add pageAddr (Word64.mul 4096 index)) = .allocated) →
    checkSpan s pageAddr offset remaining = .allAllocated := by
  induction remaining with
  | zero => exact fun _ => rfl
  | succ remaining ih =>
    intro offset all
    obtain ⟨inside, allocated⟩ := all offset (Nat.le_refl _) (by omega)
    simp only [checkSpan]
    rw [if_neg (not_not_intro inside), if_neg (not_not_intro allocated)]
    exact ih fun index lower upper => all index (by omega) (by omega)

/-- A contiguous free of allocated pages is not rejected. -/
theorem pageFreeContiguous_released {s t : State} (inv : Invariant s) {pageCount : Nat}
    (address : pageAddr < 2 ^ 64) (fits : 4096 * pageCount < 2 ^ 64) (nonempty : pageCount ≠ 0)
    (managed : ManagedSpan s pageAddr pageCount)
    (allocated : ∀ pa ∈ pagesFrom pageAddr pageCount, s.stateAt pa = .allocated)
    (freed : pageFreeContiguous s pageAddr pageCount = some t) :
    ReleasedSpan s t pageAddr pageCount := by
  have window := inv.core.window
  have first := managed pageAddr (mem_pagesFrom.mpr ⟨0, Nat.pos_of_ne_zero nonempty, rfl⟩)
  have last := managed (pageAddr + 4096 * (pageCount - 1)) (mem_pagesFrom.mpr ⟨_, by omega, rfl⟩)
  have bounds := window.bounds first
  have ends := window.bounds last
  have top := window.top
  rcases pageFreeContiguous_cases inv address freed with counted | released
  · -- Each check passes, so the state has changed.
    exfalso
    have checked : checkSpan s pageAddr 0 pageCount = .allAllocated := by
      refine checkSpan_all pageCount fun index _ below => ?_
      rw [Word64.mul_of_lt (by omega), Word64.add_of_lt (by omega)]
      have member : pageAddr + 4096 * index ∈ pagesFrom pageAddr pageCount :=
        mem_pagesFrom.mpr ⟨index, by omega, rfl⟩
      refine ⟨?_, allocated _ member⟩
      unfold inPagesArray pageIndexFromAddress
      omega
    obtain ⟨invalid, double, rfl⟩ := counted
    have start := first.1
    unfold pageFreeContiguous at freed
    rw [if_neg (by omega), if_neg (by omega), Word64.mul_of_lt fits, Word64.add_of_lt (by omega),
      if_neg (by omega), checked] at freed
    have painted := freeSpan_spec managed
    obtain ⟨-, rebuilt, -⟩ := painted.rebuild inv (_ + pageCount) (Or.inl rfl)
    have grown := rebuilt.freePages.symm.trans (congrArg State.freePages (Option.some.inj freed))
    rw [painted.freePages] at grown
    dsimp only at grown
    omega
  · exact released.1

section

variable (disciplined : Disciplined c)

include disciplined

/-- Only managed pages are counted. -/
theorem Disciplined.count_outside (op : Op) (unmanaged : ¬ Managed c.pages page) :
    c.count op page = c.uses page := by
  have free : ¬ (c.uses page).Held := fun held => unmanaged (disciplined.managed page held)
  cases op with
  | alloc =>
    refine if_neg fun found => unmanaged ?_
    exact (pageAlloc_acquired disciplined.inv (Prod.ext found rfl)).managed
  | allocContiguous pageCount =>
    unfold Counted.count
    dsimp only
    split
    · rename_i start found
      refine if_neg fun member => unmanaged ?_
      exact (pageAllocContiguous_spec disciplined.inv (Prod.ext found rfl)).1.managed page member
    · rfl
  | free pa => exact if_neg fun ⟨same, held⟩ => free (same ▸ held)
  | refInc pa aligned => exact if_neg fun ⟨same, held⟩ => free (same ▸ held)
  | refDec pa aligned => exact if_neg fun ⟨same, held⟩ => free (same ▸ held)
  | freeContiguous pageAddr pageCount address fits =>
    exact if_neg fun ⟨member, held⟩ => free (held page member)
  | enableMmu => rfl
  | store address word => rfl

/-- `page_free` and `page_ref_dec` drop one reference to a held page and ignore the others. -/
theorem Disciplined.tracks_drop
    (uses : d.uses page = if page = pa ∧ (c.uses pa).Held then (c.uses page).drop else c.uses page)
    (dropped : Managed c.pages pa → c.pages.stateAt pa = .allocated → Dropped c.pages d.pages pa)
    (ignored : ¬ (Managed c.pages pa ∧ c.pages.stateAt pa = .allocated) →
      d.pages.pages = c.pages.pages) (managed : Managed c.pages page) : Tracks d page := by
  have tracks := disciplined.tracks page managed
  by_cases held : (c.uses pa).Held
  · have managedPa := disciplined.managed pa held
    have allocated := (disciplined.tracks pa managedPa).held_iff.mp held
    have drop := dropped managedPa allocated
    by_cases same : page = pa
    · subst same
      rw [if_pos ⟨rfl, held⟩] at uses
      refine tracks.drop held uses ?_ fun _ => ?_
      · rw [drop.states page managed, if_pos rfl]
      · rw [drop.refs page managed, if_pos rfl]
    · rw [if_neg fun both => same both.1] at uses
      refine tracks.same uses ?_ ?_
      · rw [drop.states page managed, if_neg same]
      · rw [drop.refs page managed, if_neg same]
  · rw [if_neg fun both => held both.2] at uses
    have entries : d.pages.pages = c.pages.pages := ignored fun ⟨managedPa, allocated⟩ =>
      held ((disciplined.tracks pa managedPa).held_iff.mpr allocated)
    refine tracks.same uses ?_ ?_
    · unfold State.stateAt
      rw [entries]
    · unfold State.refAt
      rw [entries]

theorem Disciplined.tracks_inc (aligned : pa % 4096 = 0) (room : c.pages.refAt pa ≠ 2 ^ 16 - 1)
    (managed : Managed c.pages page) :
    Tracks { pages := pageRefInc c.pages pa, uses := c.count (.refInc pa aligned) } page := by
  have tracks := disciplined.tracks page managed
  by_cases held : (c.uses pa).Held
  · have managedPa := disciplined.managed pa held
    have allocated := (disciplined.tracks pa managedPa).held_iff.mp held
    have full := (disciplined.inv.core.refs pa managedPa allocated).2
    have raised := pageRefInc_raised disciplined.inv managedPa allocated (by omega)
    by_cases same : page = pa
    · subst same
      refine tracks.inc held (if_pos ⟨rfl, held⟩) ?_ ?_
      · exact (raised.states page managed).trans allocated
      · rw [raised.refs page managed, if_pos rfl]
    · refine tracks.same (if_neg fun both => same both.1) (raised.states page managed) ?_
      rw [raised.refs page managed, if_neg same]
  · have ignored : pageRefInc c.pages pa = c.pages := by
      unfold pageRefInc
      split
      · rfl
      rename_i inside
      split
      · rfl
      rename_i usable
      have managedPa := managed_of_checks (not_not_intro aligned) inside
      have allocated : c.pages.stateAt pa = .allocated :=
        Decidable.not_not.mp fun other => usable (Or.inl other)
      exact absurd ((disciplined.tracks pa managedPa).held_iff.mpr allocated) held
    refine tracks.same (if_neg fun both => held both.2) ?_ ?_ <;> rw [ignored]

/-- A contiguous free of unshared pages is a drop of the last reference of each. -/
theorem Disciplined.tracks_span {pageCount : Nat} (address : pageAddr < 2 ^ 64)
    (fits : 4096 * pageCount < 2 ^ 64)
    (unshared : Unshared c (.freeContiguous pageAddr pageCount address fits))
    (freed : pageFreeContiguous c.pages pageAddr pageCount = some t)
    (managed : Managed c.pages page) :
    Tracks { pages := t, uses := c.count (.freeContiguous pageAddr pageCount address fits) } page := by
  have tracks := disciplined.tracks page managed
  by_cases all : ∀ other ∈ pagesFrom pageAddr pageCount, (c.uses other).Held
  · have span : ManagedSpan c.pages pageAddr pageCount := fun other member =>
      disciplined.managed other (all other member)
    have allocated : ∀ other ∈ pagesFrom pageAddr pageCount, c.pages.stateAt other = .allocated :=
      fun other member => (disciplined.tracks other (span other member)).held_iff.mp (all other member)
    by_cases member : page ∈ pagesFrom pageAddr pageCount
    · have nonempty : pageCount ≠ 0 := by
        rintro rfl
        exact absurd member List.not_mem_nil
      have released := pageFreeContiguous_released disciplined.inv address fits nonempty span allocated
        freed
      have single : c.pages.refAt page = 1 := unshared allocated page member
      refine tracks.drop (all page member) (if_pos ⟨member, all⟩) ?_ (by omega)
      rw [released.states page managed, if_pos member, single]
      rfl
    · have uses : c.count (.freeContiguous pageAddr pageCount address fits) page = c.uses page :=
        if_neg fun both => member both.1
      rcases pageFreeContiguous_cases disciplined.inv address freed with ⟨_, _, rfl⟩ | ⟨released, _⟩
      · exact tracks.same uses rfl rfl
      · refine tracks.same uses ?_ (released.refs page managed)
        rw [released.states page managed, if_neg member]
  · have uses : c.count (.freeContiguous pageAddr pageCount address fits) page = c.uses page :=
      if_neg fun both => all both.2
    rcases pageFreeContiguous_cases disciplined.inv address freed with ⟨_, _, rfl⟩ | ⟨released, _⟩
    · exact tracks.same uses rfl rfl
    · refine absurd (fun other member => ?_) all
      exact (disciplined.tracks other (released.managed other member)).held_iff.mpr
        (released.wasAllocated other member)

theorem Disciplined.tracks_alloc (managed : Managed c.pages page) :
    Tracks { pages := (pageAlloc c.pages).2, uses := c.count .alloc } page := by
  have tracks := disciplined.tracks page managed
  cases result : pageAlloc c.pages with
  | mk found t =>
    have uses : c.count .alloc page = if found = some page then .fresh else c.uses page := by
      unfold Counted.count
      rw [result]
    cases found with
    | none =>
      have same : t = c.pages := by
        unfold pageAlloc at result
        split at result
        · exact (Prod.mk.inj result).2.symm
        · cases result
      subst same
      exact tracks.same uses rfl rfl
    | some pa =>
      have acquired := pageAlloc_acquired disciplined.inv result
      have state := acquired.states page managed
      have refs := acquired.refs page managed
      by_cases here : page = pa
      · rw [if_pos (by rw [here])] at uses
        rw [if_pos here] at state refs
        exact tracks_fresh uses state refs
      · rw [if_neg (by simpa using Ne.symm here)] at uses
        rw [if_neg here] at state refs
        exact tracks.same uses state refs

theorem Disciplined.tracks_allocSpan (pageCount : Nat) (managed : Managed c.pages page) :
    Tracks
      { pages := (pageAllocContiguous c.pages pageCount).2
        uses := c.count (.allocContiguous pageCount) } page := by
  have tracks := disciplined.tracks page managed
  cases result : pageAllocContiguous c.pages pageCount with
  | mk found t =>
    cases found with
    | none =>
      have uses : c.count (.allocContiguous pageCount) page = c.uses page := by
        unfold Counted.count
        dsimp only
        rw [result]
      cases pageAllocContiguous_none result
      exact tracks.same uses rfl rfl
    | some start =>
      have uses : c.count (.allocContiguous pageCount) page =
          if page ∈ pagesFrom start pageCount then .fresh else c.uses page := by
        unfold Counted.count
        dsimp only
        rw [result]
      have acquired := (pageAllocContiguous_spec disciplined.inv result).1
      have state := acquired.states page managed
      have refs := acquired.refs page managed
      by_cases here : page ∈ pagesFrom start pageCount
      · rw [if_pos here] at uses state refs
        exact tracks_fresh uses state refs
      · rw [if_neg here] at uses state refs
        exact tracks.same uses state refs

theorem Disciplined.step {op : Op} (unshared : Unshared c op) (taken : countStep c op = some d) :
    Disciplined d := by
  obtain ⟨t, moved, rfl⟩ := Option.map_eq_some_iff.mp taken
  have window := step_managed disciplined.inv moved
  refine ⟨step_invariant op disciplined.inv moved, ?_, ?_⟩
  · intro page held
    rw [window]
    by_contra unmanaged
    have same : c.count op page = c.uses page := disciplined.count_outside op unmanaged
    rw [show (Counted.mk t (c.count op)).uses page = c.uses page from same] at held
    exact unmanaged (disciplined.managed page held)
  · intro page managed
    replace managed := (window page).mp managed
    cases op with
    | alloc =>
      cases Option.some.inj moved
      exact disciplined.tracks_alloc managed
    | allocContiguous pageCount =>
      cases Option.some.inj moved
      exact disciplined.tracks_allocSpan pageCount managed
    | free pa =>
      cases Option.some.inj moved
      refine disciplined.tracks_drop rfl (pageFree_dropped disciplined.inv) (fun ignored => ?_) managed
      obtain ⟨_, _, counted⟩ := pageFree_ignored ignored
      rw [counted]
    | freeContiguous pageAddr pageCount address fits =>
      exact disciplined.tracks_span address fits unshared moved managed
    | refInc pa aligned =>
      cases Option.some.inj moved
      exact disciplined.tracks_inc aligned unshared managed
    | refDec pa aligned =>
      cases Option.some.inj moved
      exact disciplined.tracks_drop rfl (pageRefDec_dropped disciplined.inv)
        (fun ignored => by rw [pageRefDec_ignored aligned ignored]) managed
    | enableMmu =>
      cases Option.some.inj moved
      exact (disciplined.tracks page managed).same rfl rfl rfl
    | store address word =>
      simp only [PageAlloc.step] at moved
      split at moved
      · cases Option.some.inj moved
        exact (disciplined.tracks page managed).same rfl rfl rfl
      · cases moved

end

end Steps

/-- The page is a node of the free list. -/
def OnFreeList (s : State) (page : Nat) : Prop := ∃ xs, Chain s.link s.head xs ∧ page ∈ xs

/-- References keep a page alive. In a run whose contiguous frees are about unshared pages and whose
increments meet no full counter, a managed page is allocated as long as there have been no more drops
than increments since it was handed out, with that many references, and with one drop more it is back on
the free list. -/
theorem run_pageReferences (image : KernelImage) (mem : Mem) (mmuEnabled : Bool) {c : Counted}
    (reached : Transition.Reachable (· = counted image mem mmuEnabled) countStep Unshared c)
    {page : Nat} (managed : Managed c.pages page) :
    (c.uses page).drops ≤ (c.uses page).incs ∧ c.pages.stateAt page = .allocated ∧
        ¬ OnFreeList c.pages page ∧
        c.pages.refAt page + (c.uses page).drops = (c.uses page).incs + 1 ∨
      (c.uses page).drops = (c.uses page).incs + 1 ∧ OnFreeList c.pages page := by
  have disciplined : Disciplined c := by
    refine reached.invariant ?_ ?_
    · rintro start rfl
      refine ⟨init_invariant image mem mmuEnabled, fun page held => ?_, fun page managed => ?_⟩
      · exact absurd held (by decide : ¬ (Uses.mk 0 1).Held)
      · exact ⟨init_free image mem mmuEnabled managed, rfl⟩
    · intro before after op disciplined unshared taken
      exact disciplined.step unshared taken
  obtain ⟨xs, chain, members, _⟩ := disciplined.inv.linked
  have tracks := disciplined.tracks page managed
  unfold Tracks at tracks
  split at tracks
  · rename_i held
    refine .inl ⟨held, tracks.1, ?_, tracks.2⟩
    rintro ⟨ys, other, member⟩
    rw [← chain.unique other] at member
    rw [((members page).mp member).2] at tracks
    cases tracks.1
  · exact .inr ⟨tracks.2, xs, chain, (members page).mpr ⟨managed, tracks.1⟩⟩

theorem run_pageReferences_shared :
    ∃ c, Transition.run countStep (counted ⟨0x47ffe000, by decide⟩ (fun _ => 0) false)
        [.alloc, .refInc 0x47fff000 rfl, .refDec 0x47fff000 rfl, .free 0x47fff000] = some c ∧
      (c.uses 0x47fff000).drops = (c.uses 0x47fff000).incs + 1 ∧ OnFreeList c.pages 0x47fff000 := by
  have guarded : Transition.Guarded countStep Unshared
      (counted ⟨0x47ffe000, by decide⟩ (fun _ => 0) false)
      [.alloc, .refInc 0x47fff000 rfl, .refDec 0x47fff000 rfl, .free 0x47fff000] := by
    decide +kernel
  refine Transition.ends_imp (Q := fun c => Managed c.pages 0x47fff000 ∧
    ¬ (c.uses 0x47fff000).Held) (by decide +kernel) ?_
  rintro c ran ⟨managed, dropped⟩
  exact (run_pageReferences _ _ _ (.of_run _ (.start rfl) guarded ran) managed).resolve_left
    fun held => dropped held.1

/-- A page with two references is freed by the first contiguous free that covers it. -/
theorem run_pageReferences_early :
    ∃ c, Transition.run countStep (counted ⟨0x47ffe000, by decide⟩ (fun _ => 0) false)
        [.allocContiguous 1, .refInc 0x47ffe000 rfl,
          .freeContiguous 0x47ffe000 1 (by decide) (by decide)] = some c ∧
      Managed c.pages 0x47ffe000 ∧ c.pages.stateAt 0x47ffe000 = .free ∧
      c.pages.freeListPa = 0x47ffe000 ∧ c.uses 0x47ffe000 = { incs := 1, drops := 1 } := by
  decide +kernel

end OsArmv8a.PageAlloc
