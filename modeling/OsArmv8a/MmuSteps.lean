import OsArmv8a.MmuInvariant

/-! The elementary moves of a page: it is allocated, tracked, linked into the tables, unlinked
and given back. Each keeps the invariant and leaves the other address spaces alone. -/

set_option autoImplicit false

namespace OsArmv8a.Mmu

open PageAlloc (Managed pageAlloc pageFree pageRefInc pageRefDec)

section Count

variable {w : World} {inHand : List Nat}

/-- Only one context changes: the number of contexts that track a page follows it. -/
theorem listers_setContext (nodup : w.live.Nodup) {id : Nat} (live : id ∈ w.live) (mm : MmContext)
    (pa : Nat) : (w.setContext id mm).listers pa + (if pa ∈ (w.contexts id).pages then 1 else 0) =
      w.listers pa + if pa ∈ mm.pages then 1 else 0 := by
  have perm : w.live.Perm (id :: w.live.erase id) := List.perm_cons_erase live
  have rest : (w.live.erase id).countP (fun other => pa ∈ ((w.setContext id mm).contexts other).pages)
      = (w.live.erase id).countP fun other => pa ∈ (w.contexts other).pages := by
    apply List.countP_congr
    intro other member
    have different : other ≠ id := (nodup.mem_erase_iff.mp member).1
    show decide (pa ∈ (if other = id then mm else w.contexts other).pages) = true ↔ _
    rw [if_neg different]
  have here : (w.setContext id mm).contexts id = mm := if_pos rfl
  unfold World.listers
  show w.live.countP _ + _ = _
  rw [perm.countP_eq, perm.countP_eq (fun other => decide (pa ∈ (w.contexts other).pages)),
    List.countP_cons, List.countP_cons, rest, here]
  simp only [decide_eq_true_eq]
  omega

theorem held_cons (w : World) (inHand : List Nat) (pa q : Nat) :
    w.held (pa :: inHand) q = w.held inHand q + if q = pa then 1 else 0 := by
  unfold World.held
  rw [List.count_cons, Nat.add_assoc]
  by_cases same : q = pa
  · simp [same]
  · simp [same, Ne.symm same]

theorem held_erase (w : World) {pa : Nat} (member : pa ∈ inHand) (q : Nat) :
    w.held (inHand.erase pa) q + (if q = pa then 1 else 0) = w.held inHand q := by
  have perm : inHand.Perm (pa :: inHand.erase pa) := List.perm_cons_erase member
  have counted : inHand.count q = (pa :: inHand.erase pa).count q := perm.count_eq q
  have split := held_cons w (inHand.erase pa) pa q
  unfold World.held at split ⊢
  omega

end Count

section Steps

variable {foreign : Nat → Prop} {marked : Nat → List Nat → Prop} {w t : World}
  {inHand : List Nat} {active : Nat} {loose : List Nat}

/-- What `page_alloc` gives: a zeroed page whose only reference is in hand. -/
structure Taken (w t : World) (inHand : List Nat) (pa : Nat) : Prop where
  unheld : w.held inHand pa = 0
  single : t.held (pa :: inHand) pa = 1
  address : PageAddr pa
  scrubbed : ∀ a, pa ≤ a → a < pa + 4096 → t.pages.mem a = 0#64

variable {pa : Nat} {pages : PageAlloc.State}

theorem Inv.take (inv : Inv foreign marked w inHand active loose)
    (taken : pageAlloc w.pages = (some pa, pages)) :
    Inv foreign marked (w.setPages pages) (pa :: inHand) active loose ∧
      Quiet w (w.setPages pages) ∧ Taken w (w.setPages pages) inHand pa := by
  have acquired := PageAlloc.pageAlloc_acquired inv.alloc taken
  have allocated' : PageAlloc.Invariant pages := by
    have after := PageAlloc.pageAlloc_invariant inv.alloc
    rw [taken] at after
    exact after
  have unheld : w.held inHand pa = 0 := by
    by_contra positive
    have counted := inv.counted pa (Nat.pos_of_ne_zero positive)
    rw [acquired.wasFree] at counted
    cases counted.2.1
  have held : ∀ q, (w.setPages pages).held (pa :: inHand) q =
      w.held inHand q + if q = pa then 1 else 0 := fun q => held_cons _ inHand pa q
  have different : ∀ q, 0 < w.held inHand q → q ≠ pa := by
    intro q positive same
    rw [same, unheld] at positive
    exact Nat.lt_irrefl 0 positive
  have quiet : Quiet w (w.setPages pages) := by
    intro id member
    constructor
    · exact member
    · rfl
    · rfl
    · intro q listed a lower upper
      have managed := inv.managed_of_listed member listed
      exact (acquired.kept managed.1 managed.2).contents a lower upper
  have single : (w.setPages pages).held (pa :: inHand) pa = 1 := by
    rw [held, unheld, if_pos rfl]
  refine ⟨?_, quiet, unheld, single, inv.pageAddr acquired.managed, acquired.scrubbed⟩
  constructor
  · exact allocated'
  · exact inv.live
  · intro id member
    apply inv.space_of_undisturbed member (quiet id member)
    intro q listed one
    rw [held, one, if_neg (different q (by omega))]
  · intro q positive
    by_cases same : q = pa
    · rw [same]
      apply And.intro ((acquired.same.managed_iff pa).mpr acquired.managed)
      rw [single]
      exact ⟨(acquired.states pa acquired.managed).trans (if_pos rfl),
        (acquired.refs pa acquired.managed).trans (if_pos rfl)⟩
    · rw [held, if_neg same] at positive ⊢
      have counted := inv.counted q positive
      exact ⟨(acquired.same.managed_iff q).mpr counted.1,
        ((acquired.states q counted.1).trans (if_neg same)).trans counted.2.1,
        ((acquired.refs q counted.1).trans (if_neg same)).trans counted.2.2⟩
  · intro q managed allocated
    have managedBefore := (acquired.same.managed_iff q).mp managed
    by_cases same : q = pa
    · rw [same, single]
      exact Or.inl Nat.one_pos
    · rw [held, if_neg same]
      apply inv.accounted q managedBefore
      exact ((acquired.states q managedBefore).trans (if_neg same)).symm.trans allocated
  · intro q other
    have before := inv.apart q other
    have same : q ≠ pa := by
      intro same
      rw [same, acquired.wasFree] at before
      cases before.2.1
    rw [held, if_neg same]
    exact ⟨(acquired.same.managed_iff q).mpr before.1,
      ((acquired.states q before.1).trans (if_neg same)).trans before.2.1, before.2.2⟩
  · exact inv.cpus

/-- A reference in hand is given back. -/
theorem Inv.drop (inv : Inv foreign marked w inHand active loose) (member : pa ∈ inHand)
    (dropped : PageAlloc.Dropped w.pages pages pa) (after : PageAlloc.Invariant pages) :
    Inv foreign marked (w.setPages pages) (inHand.erase pa) active loose ∧
      Quiet w (w.setPages pages) := by
  have counted := inv.counted pa (held_pos_of_inHand member)
  have held : ∀ q, (w.setPages pages).held (inHand.erase pa) q + (if q = pa then 1 else 0) =
      w.held inHand q := fun q => held_erase w member q
  -- a page some context tracks has another reference, and so keeps its contents
  have shared : ∀ id ∈ w.live, pa ∈ (w.contexts id).pages → 1 < w.held inHand pa := by
    intro id live listed
    have tracked : 0 < w.listers pa := List.countP_pos_iff.mpr ⟨id, live, decide_eq_true listed⟩
    have hand : 0 < inHand.count pa := List.count_pos_iff.mpr member
    unfold World.held
    omega
  have quiet : Quiet w (w.setPages pages) := by
    intro id live
    constructor
    · exact live
    · rfl
    · rfl
    · intro q listed a lower upper
      by_cases same : q = pa
      · have more := shared id live (same ▸ listed)
        rw [← counted.2.2] at more
        exact congrFun (dropped.shared more) a
      · have managed := inv.managed_of_listed live listed
        exact (dropped.kept counted.1 managed.1 managed.2 same).contents a lower upper
  refine ⟨?_, quiet⟩
  constructor
  · exact after
  · exact inv.live
  · intro id live
    apply inv.space_of_undisturbed live (quiet id live)
    intro q listed one
    have same : q ≠ pa := by
      intro same
      have more := shared id live (same ▸ listed)
      rw [← same] at more
      omega
    have change := held q
    rw [if_neg same] at change
    exact change.trans one
  · intro q positive
    have change := held q
    have before := inv.counted q (by omega)
    apply And.intro ((dropped.same.managed_iff q).mpr before.1)
    show pages.stateAt q = .allocated ∧ pages.refAt q = _
    rw [dropped.states q before.1, dropped.refs q before.1]
    by_cases same : q = pa
    · subst same
      rw [if_pos rfl] at change
      have more : 1 < w.pages.refAt q := by omega
      rw [if_pos rfl, if_pos rfl, if_pos more]
      exact ⟨rfl, by omega⟩
    · rw [if_neg same] at change
      rw [if_neg same, if_neg same]
      exact ⟨before.2.1, before.2.2.trans change.symm⟩
  · intro q managed allocated
    have managedBefore := (dropped.same.managed_iff q).mp managed
    have change := held q
    have state : pages.stateAt q = .allocated := allocated
    rw [dropped.states q managedBefore] at state
    by_cases same : q = pa
    · subst same
      rw [if_pos rfl] at change state
      split at state
      · omega
      · cases state
    · rw [if_neg same] at change state
      have before := inv.accounted q managedBefore state
      rw [← change] at before
      exact before
  · intro q other
    have before := inv.apart q other
    have same : q ≠ pa := by
      intro same
      have positive : 0 < w.held inHand pa := held_pos_of_inHand member
      rw [← same] at positive
      omega
    have change := held q
    rw [if_neg same] at change
    have state : pages.stateAt q = .allocated := by
      rw [dropped.states q before.1, if_neg same]
      exact before.2.1
    exact ⟨(dropped.same.managed_iff q).mpr before.1, state, change.trans before.2.2⟩
  · exact inv.cpus

variable {id : Nat}

theorem inHand_unlisted (member : pa ∈ inHand) (single : w.held inHand pa = 1)
    (liveId : id ∈ w.live) : pa ∉ (w.contexts id).pages := by
  intro listed
  have tracked : 0 < w.listers pa := List.countP_pos_iff.mpr ⟨id, liveId, decide_eq_true listed⟩
  have hand : 0 < inHand.count pa := List.count_pos_iff.mpr member
  unfold World.held at single
  omega

/-- `mmu_context_add_page_locked` on a page that is not tracked yet. -/
theorem addPage_spec (absent : pa ∉ (w.contexts id).pages) (added : w.addPage id pa = some t) :
    (w.contexts id).pages.length < 256 ∧
      t = w.setContext id ((w.contexts id).withPages ((w.contexts id).pages ++ [pa])) := by
  obtain ⟨mm, found, rfl⟩ := Option.map_eq_some_iff.mp added
  unfold MmContext.addPage at found
  split at found
  · cases found
  · split at found
    · cases found
    · cases Option.some.inj found
      exact ⟨by omega, rfl⟩

/-- A page in hand is tracked: its reference is the context's from now on. -/
theorem Inv.track (inv : Inv foreign marked w inHand active loose) (live : active ∈ w.live)
    (member : pa ∈ inHand) (single : w.held inHand pa = 1) (added : w.addPage active pa = some t) :
    (Inv foreign marked t (inHand.erase pa) active (pa :: loose) ∧ Frame active w t) ∧
      t = w.setContext active
        ((w.contexts active).withPages ((w.contexts active).pages ++ [pa])) := by
  have absent : pa ∉ (w.contexts active).pages := inHand_unlisted member single live
  obtain ⟨room, rfl⟩ := addPage_spec absent added
  have space := inv.spaces active live
  rw [if_pos rfl] at space
  apply And.intro _ rfl
  apply inv.edit live
  · rfl
  · rfl
  · rfl
  · intro id other
    exact if_neg other
  · rw [World.setContext_same, MmContext.withPages_life]
  · intro q
    have counted := listers_setContext inv.live live
      ((w.contexts active).withPages ((w.contexts active).pages ++ [pa])) q
    have change := held_erase w member q
    rw [MmContext.withPages_pages] at counted
    unfold World.held at change ⊢
    by_cases same : q = pa
    · subst same
      rw [if_neg absent, if_pos (by simp)] at counted
      rw [if_pos rfl] at change
      omega
    · have iff : q ∈ (w.contexts active).pages ++ [pa] ↔ q ∈ (w.contexts active).pages := by
        simp [same]
      simp only [iff] at counted
      rw [if_neg same] at change
      omega
  · exact single
  · exact Or.inr member
  · intro a _
    rfl
  · rw [World.setContext_same]
    exact space.take absent room (inv.pageAddr (inv.counted pa (by omega)).1) single

theorem Inv.positive (inv : Inv foreign marked w inHand active loose) (live : id ∈ w.live)
    (listed : pa ∈ (w.contexts id).pages) : pa ≠ 0 :=
  (inv.alloc.core.window.low (inv.managed_of_listed live listed).1).1

theorem removePage_same (positive : pa ≠ 0) : (w.removePage id pa).contexts id =
    (w.contexts id).withPages ((w.contexts id).pages.erase pa) :=
  (World.setContext_same w id _).trans (if_neg positive)

/-- A page that leaves a context is in hand: the number of its references stays. -/
theorem held_removePage (nodup : w.live.Nodup) (live : id ∈ w.live) (positive : pa ≠ 0)
    (once : (w.contexts id).pages.Nodup) (listed : pa ∈ (w.contexts id).pages) (q : Nat) :
    (w.removePage id pa).held (pa :: inHand) q = w.held inHand q := by
  have removed : (w.contexts id).removePage pa =
      (w.contexts id).withPages ((w.contexts id).pages.erase pa) := if_neg positive
  have counted := listers_setContext nodup live ((w.contexts id).removePage pa) q
  have change := held_cons (w.removePage id pa) inHand pa q
  rw [removed, MmContext.withPages_pages] at counted
  unfold World.held World.removePage at change ⊢
  rw [removed] at change ⊢
  by_cases same : q = pa
  · subst same
    rw [if_pos listed, if_neg once.not_mem_erase] at counted
    rw [if_pos rfl] at change
    omega
  · have iff : q ∈ (w.contexts id).pages.erase pa ↔ q ∈ (w.contexts id).pages :=
      List.mem_erase_of_ne same
    simp only [iff] at counted
    rw [if_neg same] at change
    omega

/-- A page that was never linked leaves the context; its reference is in hand again. -/
theorem Inv.untrack (inv : Inv foreign marked w inHand active loose) (live : active ∈ w.live)
    (member : pa ∈ loose) :
    Inv foreign marked (w.removePage active pa) (pa :: inHand) active (loose.filter (· ≠ pa)) ∧
      Frame active w (w.removePage active pa) := by
  have space := inv.spaces active live
  rw [if_pos rfl] at space
  have listed := space.owned.kept pa member
  have positive := inv.positive live listed
  apply inv.edit live
  · rfl
  · rfl
  · rfl
  · intro id other
    exact World.setContext_other w _ other
  · rw [removePage_same positive, MmContext.withPages_life]
  · exact held_removePage inv.live live positive space.owned.nodup listed
  · exact space.alone pa member
  · exact Or.inl listed
  · intro a _
    rfl
  · rw [removePage_same positive]
    exact space.give member

variable {page : Nat}

/-- The pages of live contexts are disjoint blocks of memory. -/
theorem Inv.outside (inv : Inv foreign marked w inHand active loose) {other a : Nat}
    (held : 0 < w.held inHand page) (heldOther : 0 < w.held inHand other) (different : other ≠ page)
    (lower : other ≤ a) (upper : a < other + 4096) : a < page ∨ page + 4096 ≤ a := by
  have aligned := (inv.counted page held).1.2.2
  have alignedOther := (inv.counted other heldOther).1.2.2
  omega

/-- Only the contents of one page that nobody else has change. -/
theorem Inv.editMem (inv : Inv foreign marked w inHand active loose) (live : active ∈ w.live)
    (single : w.held inHand page = 1) (here : page ∈ (w.contexts active).pages ∨ page ∈ inHand)
    {m : Mem} (outside : ∀ a, a < page ∨ page + 4096 ≤ a → m a = w.pages.mem a) {loose' : List Nat}
    (space : Space m (w.contexts active) loose' (w.held inHand) (marked active)) :
    Inv foreign marked (w.setMem m) inHand active loose' ∧ Frame active w (w.setMem m) := by
  apply inv.edit live
  · rfl
  · rfl
  · rfl
  · exact fun _ _ => rfl
  · rfl
  · exact fun _ => rfl
  · exact single
  · exact here
  · exact outside
  · exact space

/-- The contents of a page that nobody else has and that is not a table may change. -/
theorem Inv.fill (inv : Inv foreign marked w inHand active loose) (live : active ∈ w.live)
    (single : w.held inHand page = 1) (here : page ∈ (w.contexts active).pages ∨ page ∈ inHand)
    (data : ∀ path table, TablePath path →
      node w.pages.mem (w.contexts active) path = some table → table ≠ page) {m : Mem}
    (outside : ∀ a, a < page ∨ page + 4096 ≤ a → m a = w.pages.mem a) :
    Inv foreign marked (w.setMem m) inHand active loose ∧ Frame active w (w.setMem m) := by
  have space := inv.spaces active live
  rw [if_pos rfl] at space
  apply inv.editMem live single here outside
  apply space.congr _ (fun _ _ one => one)
  intro path table slot ok found below
  apply outside
  have listed := (space.owned.nodes path table ok.node found).1
  exact inv.outside (by omega) (held_pos_of_listed live listed) (data path table ok found)
    (by omega) (by omega)

variable {place : List Nat} {table slot : Nat} {value : BitVec 64}

section

variable (inv : Inv foreign marked w inHand active loose) (live : active ∈ w.live)
  (ok : TablePath place)

include inv live ok

/-- A loose page is linked into the tables of the active context. -/
theorem Inv.link (found : node w.pages.mem (w.contexts active) place = some table)
    (below : slot < 512) (empty : ¬ Valid (w.load (table + 8 * slot))) (isTable : IsTable value)
    (member : descAddr value ∈ loose)
    (clear : place.length < 3 → ∀ more < 512, w.load (descAddr value + 8 * more) = 0#64)
    (permitted : place.length = 3 → marked active (place ++ [slot]) → ¬ Writable value) :
    (Inv foreign marked (w.store (table + 8 * slot) value) inHand active
        (loose.filter (· ≠ descAddr value)) ∧
      Frame active w (w.store (table + 8 * slot) value)) ∧
    ∀ path, NodePath path →
      node (w.store (table + 8 * slot) value).pages.mem (w.contexts active) path =
        if path = place ++ [slot] then child value else node w.pages.mem (w.contexts active) path := by
  have space := inv.spaces active live
  rw [if_pos rfl] at space
  have linked := space.link ok found below empty isTable member clear permitted
  apply And.intro _ linked.1
  have listed := (space.owned.nodes place table ok.node found).1
  apply inv.editMem live (space.tables place table ok found) (Or.inl listed) _ linked.2
  intro a outside
  exact Mem.set_other _ _ (by omega)

/-- A level 3 entry is cleared and its page is in hand. -/
theorem Inv.unlink (leaf : place.length = 3)
    (found : node w.pages.mem (w.contexts active) place = some table) (below : slot < 512)
    (isTable : IsTable (w.load (table + 8 * slot))) :
    Inv foreign marked ((w.store (table + 8 * slot) 0#64).removePage active
        (descAddr (w.load (table + 8 * slot)))) (descAddr (w.load (table + 8 * slot)) :: inHand)
        active loose ∧
      Frame active w ((w.store (table + 8 * slot) 0#64).removePage active
        (descAddr (w.load (table + 8 * slot)))) := by
  have space := inv.spaces active live
  rw [if_pos rfl] at space
  have tableListed := (space.owned.nodes place table ok.node found).1
  have listed : descAddr (w.load (table + 8 * slot)) ∈ (w.contexts active).pages :=
    (space.owned.nodes (place ++ [slot]) _ (ok.snoc below)
      ((node_snoc slot found).trans (child_of_isTable isTable))).1
  have positive := inv.positive live listed
  have removed : ((w.store (table + 8 * slot) 0#64).removePage active
      (descAddr (w.load (table + 8 * slot)))).contexts active = (w.contexts active).withPages
        ((w.contexts active).pages.erase (descAddr (w.load (table + 8 * slot)))) :=
    removePage_same positive
  apply inv.edit live
  · rfl
  · rfl
  · rfl
  · exact fun id other => World.setContext_other _ _ other
  · rw [removed, MmContext.withPages_life]
  · exact held_removePage inv.live live positive space.owned.nodup listed
  · exact space.tables place table ok found
  · exact Or.inl tableListed
  · intro a outside
    exact Mem.set_other _ _ (by omega)
  · rw [removed]
    exact space.unlink ok leaf found below isTable

/-- A level 3 entry changes its permissions. -/
theorem Inv.rewrite (leaf : place.length = 3)
    (found : node w.pages.mem (w.contexts active) place = some table) (below : slot < 512)
    (isTable : IsTable (w.load (table + 8 * slot))) (still : IsTable value)
    (samePage : descAddr value = descAddr (w.load (table + 8 * slot)))
    (single : Writable value → w.held inHand (descAddr value) = 1)
    (permitted : marked active (place ++ [slot]) → ¬ Writable value) :
    (Inv foreign marked (w.store (table + 8 * slot) value) inHand active loose ∧
      Frame active w (w.store (table + 8 * slot) value)) ∧
    ∀ path, NodePath path →
      node (w.store (table + 8 * slot) value).pages.mem (w.contexts active) path =
        node w.pages.mem (w.contexts active) path := by
  have space := inv.spaces active live
  rw [if_pos rfl] at space
  have rewritten := space.rewrite ok leaf found below isTable still samePage
    (fun _ _ _ one => one) single permitted
  apply And.intro _ rewritten.1
  have listed := (space.owned.nodes place table ok.node found).1
  apply inv.editMem live (space.tables place table ok found) (Or.inl listed) _ rewritten.2
  intro a outside
  exact Mem.set_other _ _ (by omega)

end

end Steps

end OsArmv8a.Mmu
