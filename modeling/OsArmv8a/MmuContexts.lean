import OsArmv8a.MmuSteps

/-! Moves that involve more than one address space or the set of them: a page becomes shared,
a context is added, a context is released. -/

set_option autoImplicit false

namespace OsArmv8a.Mmu

open PageAlloc (Managed pageAlloc pageFree pageRefInc pageRefDec)

section Contexts

variable {foreign : Nat → Prop} {marked : Nat → List Nat → Prop} {w t : World}
  {inHand : List Nat} {active : Nat} {loose : List Nat}

theorem Inv.activate (inv : Inv foreign marked w inHand active []) (other : Nat) :
    Inv foreign marked w inHand other [] where
  alloc := inv.alloc
  live := inv.live
  spaces id member := by
    have space := inv.spaces id member
    rw [ite_self] at space ⊢
    exact space
  counted := inv.counted
  accounted := inv.accounted
  apart := inv.apart
  cpus := inv.cpus

theorem Inv.space (inv : Inv foreign marked w inHand active loose) (live : active ∈ w.live) :
    Space w.pages.mem (w.contexts active) loose (w.held inHand) (marked active) := by
  have space := inv.spaces active live
  rw [if_pos rfl] at space
  exact space

variable {id : Nat}

theorem Inv.spaceOther (inv : Inv foreign marked w inHand active loose) (live : id ∈ w.live)
    (other : id ≠ active) : Space w.pages.mem (w.contexts id) [] (w.held inHand) (marked id) := by
  have space := inv.spaces id live
  rw [if_neg other] at space
  exact space

variable {mm : MmContext}

theorem Space.root_listed {m : Mem} {held : Nat → Nat} {marks : List Nat → Prop}
    (space : Space m mm loose held marks) : mm.rootPa ∈ mm.pages :=
  (space.owned.nodes [] mm.rootPa tablePath_nil.node rfl).1

/-- Contexts are told apart by their root tables, so there are no more of them than pages. -/
theorem Inv.live_length (inv : Inv foreign marked w inHand active loose) :
    w.live.length ≤ 0x8000 := by
  have listed : ∀ id ∈ w.live, (w.contexts id).rootPa ∈ (w.contexts id).pages :=
    fun id member => (inv.spaces id member).root_listed
  have nodup : (w.live.map fun id => (w.contexts id).rootPa).Nodup := by
    apply inv.live.map_on
    intro id member other memberOther same
    by_contra different
    have single := (inv.spaces id member).tables [] _ tablePath_nil rfl
    have two := two_le_listers memberOther member different
      (same ▸ listed other memberOther) (listed id member)
    unfold World.held at single
    omega
  have inside : (w.live.map fun id => (w.contexts id).rootPa) ⊆ w.pages.managedPages := by
    intro pa member
    obtain ⟨id, live, rfl⟩ := List.mem_map.mp member
    apply inv.alloc.core.window.mem_managedPages.mpr
    exact (inv.managed_of_listed live (listed id live)).1
  have length := (List.subperm_of_subset nodup inside).length_le
  rw [List.length_map] at length
  have window := inv.alloc.core.window
  have pages : w.pages.managedPages.length = (w.pages.managedEnd - w.pages.managedStart) / 4096 :=
    length_pagesFrom _ _
  have lower := window.lower
  have top := window.top
  omega

/-- A page has at most one reference for each context. -/
theorem Inv.held_lt (inv : Inv foreign marked w [] active loose) (pa : Nat) :
    w.held [] pa < 2 ^ 16 - 1 := by
  have bound := inv.live_length
  have counted : w.listers pa ≤ w.live.length := List.countP_le_length
  unfold World.held
  rw [List.count_nil]
  omega

/-- The state after the level 3 branch of the clone walk has shared one page. -/
def sharedLeaf (w : World) (dst srcEntry dstEntry : Nat) : World :=
  let entry := w.load srcEntry
  let mm := w.contexts dst
  let w := w.setContext dst (mm.withPages (mm.pages ++ [descAddr entry]))
  let w := w.setPages (pageRefInc w.pages (descAddr entry))
  (w.store dstEntry (cowEntry entry)).store srcEntry (cowEntry entry)

/-- The clone walk is about to share the page of one level 3 entry: both contexts have a table
at the same place, and the slot is in use in the source and empty in the destination. -/
structure Sharing (foreign : Nat → Prop) (marked : Nat → List Nat → Prop) (w : World)
    (loose : List Nat) (src dst : Nat) (place : List Nat) (srcTable dstTable slot : Nat) : Prop where
  inv : Inv foreign marked w [] dst loose
  liveSrc : src ∈ w.live
  liveDst : dst ∈ w.live
  different : src ≠ dst
  ok : TablePath place
  leaf : place.length = 3
  foundSrc : node w.pages.mem (w.contexts src) place = some srcTable
  foundDst : node w.pages.mem (w.contexts dst) place = some dstTable
  below : slot < 512
  isTable : IsTable (w.load (srcTable + 8 * slot))
  empty : ¬ Valid (w.load (dstTable + 8 * slot))
  absent : descAddr (w.load (srcTable + 8 * slot)) ∉ (w.contexts dst).pages
  room : (w.contexts dst).pages.length < 256

namespace Sharing

variable {src dst : Nat} {place : List Nat} {srcTable dstTable slot : Nat}

/-- The page to be shared. -/
abbrev page (w : World) (srcTable slot : Nat) : Nat := descAddr (w.load (srcTable + 8 * slot))

/-- The state after the page has been shared. -/
abbrev after (w : World) (dst srcTable dstTable slot : Nat) : World :=
  sharedLeaf w dst (srcTable + 8 * slot) (dstTable + 8 * slot)

section

variable (sharing : Sharing foreign marked w loose src dst place srcTable dstTable slot)

include sharing

theorem spaceSrc : Space w.pages.mem (w.contexts src) [] (w.held []) (marked src) :=
  sharing.inv.spaceOther sharing.liveSrc sharing.different

theorem spaceDst : Space w.pages.mem (w.contexts dst) loose (w.held []) (marked dst) :=
  sharing.inv.space sharing.liveDst

theorem srcListed : srcTable ∈ (w.contexts src).pages :=
  (sharing.spaceSrc.owned.nodes place srcTable sharing.ok.node sharing.foundSrc).1

theorem dstListed : dstTable ∈ (w.contexts dst).pages :=
  (sharing.spaceDst.owned.nodes place dstTable sharing.ok.node sharing.foundDst).1

theorem srcSingle :
    w.held [] srcTable = 1 := sharing.spaceSrc.tables place srcTable sharing.ok sharing.foundSrc

theorem dstSingle :
    w.held [] dstTable = 1 := sharing.spaceDst.tables place dstTable sharing.ok sharing.foundDst

theorem pageListed : page w srcTable slot ∈ (w.contexts src).pages :=
  (sharing.spaceSrc.owned.nodes (place ++ [slot]) _ (sharing.ok.snoc sharing.below)
    ((node_snoc slot sharing.foundSrc).trans (child_of_isTable sharing.isTable))).1

theorem raised :
    PageAlloc.Raised w.pages (pageRefInc w.pages (page w srcTable slot)) (page w srcTable slot) := by
  have counted := sharing.inv.counted _ (held_pos_of_listed sharing.liveSrc sharing.pageListed)
  exact PageAlloc.pageRefInc_raised sharing.inv.alloc counted.1 counted.2.1
    (counted.2.2 ▸ sharing.inv.held_lt _)

theorem held (q : Nat) : (after w dst srcTable dstTable slot).held [] q =
      w.held [] q + if q = page w srcTable slot then 1 else 0 := by
  have change := listers_setContext sharing.inv.live sharing.liveDst
    ((w.contexts dst).withPages ((w.contexts dst).pages ++ [page w srcTable slot])) q
  show (w.setContext dst ((w.contexts dst).withPages
    ((w.contexts dst).pages ++ [page w srcTable slot]))).listers q + 0 = w.listers q + 0 + _
  rw [MmContext.withPages_pages] at change
  by_cases here : q = page w srcTable slot
  · rw [here] at change ⊢
    rw [if_neg sharing.absent, if_pos (by simp)] at change
    rw [if_pos rfl]
    omega
  · have iff : q ∈ (w.contexts dst).pages ++ [page w srcTable slot] ↔
        q ∈ (w.contexts dst).pages := by
      simp [here]
    simp only [iff] at change
    rw [if_neg here]
    omega

theorem keep {pa : Nat} (other : pa ≠ page w srcTable slot) (single : w.held [] pa = 1) :
    (after w dst srcTable dstTable slot).held [] pa = 1 := by
  rw [sharing.held, if_neg other, single]

theorem memory :
    (after w dst srcTable dstTable slot).pages.mem =
      (w.pages.mem.set (dstTable + 8 * slot) (cowEntry (w.load (srcTable + 8 * slot)))).set
        (srcTable + 8 * slot) (cowEntry (w.load (srcTable + 8 * slot))) := by
  show ((pageRefInc w.pages _).mem.set _ _).set _ _ = _
  rw [sharing.raised.mem]

theorem srcAligned :
    4096 ∣ srcTable := (sharing.spaceSrc.addresses srcTable sharing.srcListed).aligned

theorem dstAligned :
    4096 ∣ dstTable := (sharing.spaceDst.addresses dstTable sharing.dstListed).aligned

theorem dstForeign : dstTable ∉ (w.contexts src).pages :=
  private_unlisted sharing.liveDst sharing.dstSingle (Or.inl sharing.dstListed) sharing.liveSrc
    sharing.different

theorem srcForeign : srcTable ∉ (w.contexts dst).pages :=
  private_unlisted sharing.liveSrc sharing.srcSingle (Or.inl sharing.srcListed) sharing.liveDst
    (Ne.symm sharing.different)

/-- Everything but the two tables reads as before. -/
theorem outside {a : Nat} (outsideSrc : a < srcTable ∨ srcTable + 4096 ≤ a)
    (outsideDst : a < dstTable ∨ dstTable + 4096 ≤ a) :
    (after w dst srcTable dstTable slot).pages.mem a = w.pages.mem a := by
  have below := sharing.below
  rw [sharing.memory, Mem.set_other _ _ (by omega), Mem.set_other _ _ (by omega)]

/-- The source: its entry becomes read-only, its pages stay where they are. -/
theorem source :
    (∀ path, NodePath path → node (after w dst srcTable dstTable slot).pages.mem (w.contexts src) path
        = node w.pages.mem (w.contexts src) path) ∧
      Space (after w dst srcTable dstTable slot).pages.mem (w.contexts src) []
        ((after w dst srcTable dstTable slot).held []) (marked src) := by
  rw [sharing.memory]
  have space := sharing.spaceSrc
  have first := space.set_outside sharing.dstAligned sharing.below
    (cowEntry (w.load (srcTable + 8 * slot))) fun path table okPath found same =>
      sharing.dstForeign (same ▸ (space.owned.nodes path table okPath.node found).1)
  have unchanged : w.pages.mem.set (dstTable + 8 * slot) (cowEntry (w.load (srcTable + 8 * slot)))
      (srcTable + 8 * slot) = w.load (srcTable + 8 * slot) := by
    apply Mem.set_other
    intro same
    have equal := (Radix.slot_once sharing.srcAligned sharing.dstAligned sharing.below
      sharing.below same).1
    exact sharing.dstForeign (equal ▸ sharing.srcListed)
  have second := first.2.rewrite sharing.ok sharing.leaf
    ((first.1 place sharing.ok.node).trans sharing.foundSrc) sharing.below
    (by rw [unchanged]; exact sharing.isTable) (isTable_cowEntry.mpr sharing.isTable)
    (by rw [unchanged, descAddr_cowEntry])
    (fun pa _ other single => sharing.keep (by rw [descAddr_cowEntry] at other; exact other) single)
    (fun writable => absurd writable not_writable_cowEntry) (fun _ => not_writable_cowEntry)
  exact ⟨fun path okPath => (second.1 path okPath).trans (first.1 path okPath), second.2⟩

end

theorem contextDst : (after w dst srcTable dstTable slot).contexts dst =
    (w.contexts dst).withPages ((w.contexts dst).pages ++ [page w srcTable slot]) :=
  World.setContext_same _ _ _

section

variable (sharing : Sharing foreign marked w loose src dst place srcTable dstTable slot)

include sharing

/-- The destination: the page is tracked and mapped at the same place. -/
theorem target :
    (∀ path, NodePath path → node (after w dst srcTable dstTable slot).pages.mem
        ((after w dst srcTable dstTable slot).contexts dst) path =
      if path = place ++ [slot] then some (page w srcTable slot)
      else node w.pages.mem (w.contexts dst) path) ∧
    Space (after w dst srcTable dstTable slot).pages.mem
      ((after w dst srcTable dstTable slot).contexts dst) loose
      ((after w dst srcTable dstTable slot).held []) (marked dst) := by
  rw [contextDst, sharing.memory]
  have isTable := isTable_cowEntry.mpr sharing.isTable
  have keep : ∀ pa ∈ (w.contexts dst).pages, w.held [] pa = 1 →
      (after w dst srcTable dstTable slot).held [] pa = 1 :=
    fun pa member => sharing.keep fun same => sharing.absent (by rw [same] at member; exact member)
  have first := sharing.spaceDst.share sharing.ok sharing.leaf sharing.foundDst sharing.below
    sharing.empty isTable not_writable_cowEntry
    (by rw [descAddr_cowEntry]; exact sharing.absent) sharing.room keep
  rw [descAddr_cowEntry] at first
  have second := first.2.set_outside sharing.srcAligned sharing.below
    (cowEntry (w.load (srcTable + 8 * slot))) (by
      intro path table okPath found same
      have single := first.2.tables path table okPath found
      rcases List.mem_append.mp (first.2.owned.nodes path table okPath.node found).1 with own | last
      · exact sharing.srcForeign (same ▸ own)
      · have positive : 0 < w.held [] (descAddr (w.load (srcTable + 8 * slot))) :=
          held_pos_of_listed sharing.liveSrc sharing.pageListed
        rw [List.mem_singleton.mp last, sharing.held, if_pos rfl] at single
        omega)
  apply And.intro _ second.2
  intro path okPath
  rw [second.1 path okPath]
  show node _ (w.contexts dst) path = _
  rw [first.1 path okPath, child_of_isTable isTable, descAddr_cowEntry]

theorem undisturbed {id : Nat} (live : id ∈ w.live) (notSrc : id ≠ src) (notDst : id ≠ dst) :
    Undisturbed w (after w dst srcTable dstTable slot) id := by
  have context : (after w dst srcTable dstTable slot).contexts id = w.contexts id :=
    World.setContext_other _ _ notDst
  have notSrcTable : srcTable ∉ (w.contexts id).pages :=
    private_unlisted sharing.liveSrc sharing.srcSingle (Or.inl sharing.srcListed) live notSrc
  have notDstTable : dstTable ∉ (w.contexts id).pages :=
    private_unlisted sharing.liveDst sharing.dstSingle (Or.inl sharing.dstListed) live notDst
  constructor
  · exact live
  · rw [context]
  · rw [context]
  · intro pa listed a lower upper
    have heldPa : 0 < w.held [] pa := held_pos_of_listed live listed
    apply sharing.outside
    · exact sharing.inv.outside (by rw [sharing.srcSingle]; exact Nat.one_pos) heldPa
        (fun same => notSrcTable (same ▸ listed)) lower upper
    · exact sharing.inv.outside (by rw [sharing.dstSingle]; exact Nat.one_pos) heldPa
        (fun same => notDstTable (same ▸ listed)) lower upper

theorem preserved : Inv foreign marked (after w dst srcTable dstTable slot) [] dst loose := by
  have inv := sharing.inv
  have raised := sharing.raised
  have window : ∀ q, Managed (after w dst srcTable dstTable slot).pages q ↔ Managed w.pages q :=
    raised.same.managed_iff
  have states : ∀ q, Managed w.pages q →
      (after w dst srcTable dstTable slot).pages.stateAt q = w.pages.stateAt q := raised.states
  have refs : ∀ q, Managed w.pages q → (after w dst srcTable dstTable slot).pages.refAt q =
      if q = page w srcTable slot then w.pages.refAt (page w srcTable slot) + 1
      else w.pages.refAt q := raised.refs
  have pageHeld : 0 < w.held [] (page w srcTable slot) :=
    held_pos_of_listed sharing.liveSrc sharing.pageListed
  constructor
  · have aligned := (inv.counted _ pageHeld).1.2.2
    apply PageAlloc.writeMem_invariant (PageAlloc.pageRefInc_invariant inv.alloc aligned)
    intro pa managed free
    have managed' := (raised.same.managed_iff pa).mp managed
    rw [raised.states pa managed'] at free
    have apart : ∀ table, w.held [] table = 1 → pa < table ∨ table + 4096 ≤ pa := by
      intro table single
      have counted := inv.counted table (by omega)
      have different : pa ≠ table := by
        intro same
        rw [same, counted.2.1] at free
        cases free
      have first := counted.1.2.2
      have second := managed'.2.2
      omega
    have same := sharing.outside (apart srcTable sharing.srcSingle) (apart dstTable sharing.dstSingle)
    rw [raised.mem]
    exact same
  · exact inv.live
  · intro id live
    by_cases isDst : id = dst
    · rw [if_pos isDst, isDst]
      exact sharing.target.2
    · rw [if_neg isDst, show (after w dst srcTable dstTable slot).contexts id = w.contexts id from
        World.setContext_other _ _ isDst]
      by_cases isSrc : id = src
      · rw [isSrc]
        exact sharing.source.2
      · have undisturbed := sharing.undisturbed live isSrc isDst
        have notShared : ∀ pa ∈ (w.contexts id).pages, w.held [] pa = 1 →
            (after w dst srcTable dstTable slot).held [] pa = 1 := by
          intro pa listed single
          apply sharing.keep _ single
          intro same
          rw [same] at listed single
          have two := two_le_listers sharing.liveSrc live isSrc sharing.pageListed listed
          unfold World.held at single
          omega
        have space := inv.space_of_undisturbed live undisturbed notShared
        rw [if_neg isDst, show (after w dst srcTable dstTable slot).contexts id = w.contexts id from
          World.setContext_other _ _ isDst] at space
        exact space
  · intro q positive
    rw [sharing.held] at positive ⊢
    have heldQ : 0 < w.held [] q := by
      by_cases same : q = page w srcTable slot
      · rw [same]
        exact pageHeld
      · rw [if_neg same] at positive
        exact positive
    have counted := inv.counted q heldQ
    apply And.intro ((window q).mpr counted.1)
    rw [states q counted.1, refs q counted.1]
    apply And.intro counted.2.1
    by_cases same : q = page w srcTable slot
    · rw [if_pos same, if_pos same, ← same, counted.2.2]
    · rw [if_neg same, if_neg same, counted.2.2]
      rfl
  · intro q managed allocated
    have managed' := (window q).mp managed
    rw [sharing.held]
    rw [states q managed'] at allocated
    rcases inv.accounted q managed' allocated with positive | other
    · exact Or.inl (by omega)
    · exact Or.inr other
  · intro q other
    have before := inv.apart q other
    rw [window, states q before.1, sharing.held]
    have notPage : q ≠ page w srcTable slot := by
      intro same
      rw [same] at before
      omega
    rw [if_neg notPage]
    exact before
  · intro cpu id installed
    have before := inv.cpus cpu id installed
    apply And.intro before.1
    by_cases isDst : id = dst
    · rw [isDst, contextDst, MmContext.withPages_life, ← isDst]
      exact before.2
    · rw [show (after w dst srcTable dstTable slot).contexts id = w.contexts id from
        World.setContext_other _ _ isDst]
      exact before.2

end

end Sharing

/-- The address space of a context whose root table is empty. -/
theorem emptySpace {m : Mem} {held : Nat → Nat} (marks : List Nat → Prop)
    (pages : mm.pages = [mm.rootPa]) (address : PageAddr mm.rootPa) (single : held mm.rootPa = 1)
    (clear : ∀ slot < 512, m (mm.rootPa + 8 * slot) = 0#64) : Space m mm [] held marks := by
  have only : ∀ path pa, NodePath path → node m mm path = some pa → path = [] ∧ pa = mm.rootPa := by
    intro path pa ok found
    cases path with
    | nil => exact ⟨rfl, (Option.some.inj found).symm⟩
    | cons slot rest =>
      have first : child (m (mm.rootPa + 8 * slot)) = none := by
        rw [clear slot (ok.slots slot List.mem_cons_self), child_zero]
      have none' : node m mm (slot :: rest) = none := by
        show (child (m (mm.rootPa + 8 * slot))).bind _ = none
        rw [first]
        rfl
      rw [none'] at found
      cases found
  have words : ∀ path table slot, TablePath path → node m mm path = some table → slot < 512 →
      m (table + 8 * slot) = 0#64 := by
    intro path table slot ok found below
    rw [(only path table ok.node found).2]
    exact clear slot below
  constructor
  · constructor
    · rw [pages]
      exact List.nodup_singleton _
    · intro pa member
      cases member
    · intro path pa ok found
      rw [(only path pa ok found).2, pages]
      exact ⟨List.mem_singleton.mpr rfl, List.not_mem_nil⟩
    · intro path other pa ok okOther found foundOther
      rw [(only path pa ok found).1, (only other pa okOther foundOther).1]
    · intro pa member
      rw [pages] at member
      exact Or.inr ⟨[], tablePath_nil.node, List.mem_singleton.mp member ▸ rfl⟩
  · rw [pages, List.length_singleton]
    omega
  · intro pa member
    rw [pages] at member
    exact List.mem_singleton.mp member ▸ address
  · intro path table slot ok found below valid
    rw [words path table slot ok found below] at valid
    exact absurd valid not_valid_zero
  · intro path table ok found
    rw [(only path table ok.node found).2]
    exact single
  · intro path table slot ok _ found below isTable
    rw [words path table slot ok found below] at isTable
    exact absurd isTable.valid not_valid_zero
  · intro path table slot ok _ found below isTable
    rw [words path table slot ok found below] at isTable
    exact absurd isTable.valid not_valid_zero
  · intro pa member
    cases member

/-- A new context takes over a zeroed root page that is in hand. -/
theorem Inv.enroll {root : Nat} (inv : Inv foreign marked w (root :: inHand) active [])
    (fresh : id ∉ w.live) (single : w.held (root :: inHand) root = 1)
    (clear : ∀ slot < 512, w.load (root + 8 * slot) = 0#64) (rootPa : mm.rootPa = root)
    (pages : mm.pages = [root]) :
    Inv foreign marked (w.enroll id mm) inHand id [] ∧
      Quiet w (w.enroll id mm) := by
  subst rootPa
  have others : ∀ {other}, other ∈ w.live → other ≠ id :=
    fun member same => fresh (same ▸ member)
  have context : ∀ {other}, other ∈ w.live →
      (w.enroll id mm).contexts other = w.contexts other :=
    fun member => World.setContext_other w mm (others member)
  have listers : ∀ q, (w.enroll id mm).listers q =
      w.listers q + if q = mm.rootPa then 1 else 0 := by
    intro q
    have rest : w.live.countP (fun other => q ∈ ((w.setContext id mm).contexts other).pages) =
        w.listers q := by
      apply List.countP_congr
      intro other member
      rw [World.setContext_other w mm (others member)]
    show (id :: w.live).countP (fun other => q ∈ ((w.setContext id mm).contexts other).pages) = _
    rw [List.countP_cons, rest, World.setContext_same, pages]
    simp only [List.mem_singleton, decide_eq_true_eq]
  have held : ∀ q, (w.enroll id mm).held inHand q =
      w.held (mm.rootPa :: inHand) q := by
    intro q
    rw [held_cons]
    unfold World.held
    rw [listers]
    omega
  have sameHeld : (w.enroll id mm).held inHand =
      w.held (mm.rootPa :: inHand) := funext held
  have quiet : Quiet w (w.enroll id mm) := by
    intro other member
    constructor
    · exact List.mem_cons_of_mem _ member
    · rw [context member]
    · rw [context member]
    · exact fun _ _ _ _ _ => rfl
  apply And.intro _ quiet
  constructor
  · exact inv.alloc
  · exact List.nodup_cons.mpr ⟨fresh, inv.live⟩
  · intro other member
    rw [sameHeld, ite_self]
    rcases List.mem_cons.mp member with here | there
    · rw [here, show (w.enroll id mm).contexts id = mm from
        World.setContext_same w id mm]
      have address := inv.pageAddr (inv.counted mm.rootPa (by omega)).1
      exact emptySpace (marked id) pages address single clear
    · have space := inv.space_of_undisturbed there (quiet other there) fun _ _ one => one
      rw [ite_self] at space
      exact space
  · intro q positive
    rw [sameHeld] at positive ⊢
    exact inv.counted q positive
  · intro q managed allocated
    rw [sameHeld]
    exact inv.accounted q managed allocated
  · intro q other
    rw [sameHeld]
    exact inv.apart q other
  · intro cpu other installed
    have before := inv.cpus cpu other installed
    rw [context before.1]
    exact ⟨List.mem_cons_of_mem _ before.1, before.2⟩

theorem Inv.perm (inv : Inv foreign marked w inHand active loose) {other : List Nat}
    (perm : inHand.Perm other) : Inv foreign marked w other active loose := by
  have held : w.held other = w.held inHand := by
    funext q
    unfold World.held
    rw [perm.count_eq]
  constructor
  · exact inv.alloc
  · exact inv.live
  · rw [held]
    exact inv.spaces
  · rw [held]
    exact inv.counted
  · rw [held]
    exact inv.accounted
  · rw [held]
    exact inv.apart
  · exact inv.cpus

/-- A context that no CPU has installed is taken off the list; its references are in hand. -/
theorem Inv.expel (inv : Inv foreign marked w [] active []) (member : id ∈ w.live)
    (uninstalled : ∀ cpu, w.cpuContext cpu ≠ some id) :
    Inv foreign marked (w.expel id) (w.contexts id).pages active [] ∧
      Frame id w (w.expel id) := by
  have nodup := (inv.spaces id member).owned.nodup
  have held : (w.expel id).held (w.contexts id).pages = w.held [] := by
    funext q
    have perm : w.live.Perm (id :: w.live.erase id) := List.perm_cons_erase member
    have counted : w.listers q = (id :: w.live.erase id).countP
        fun other => q ∈ (w.contexts other).pages := perm.countP_eq _
    rw [List.countP_cons] at counted
    show (w.live.erase id).countP (fun other => q ∈ (w.contexts other).pages) +
      (w.contexts id).pages.count q = w.listers q + 0
    rw [counted, nodup.count]
    simp only [decide_eq_true_eq]
    omega
  have frame : Frame id w (w.expel id) := by
    intro other live different
    exact ⟨(List.mem_erase_of_ne different).mpr live, rfl, rfl, fun _ _ _ _ _ => rfl⟩
  apply And.intro _ frame
  constructor
  · exact inv.alloc
  · exact inv.live.erase id
  · intro other live
    have before := List.mem_of_mem_erase live
    rw [held]
    exact inv.spaces other before
  · rw [held]
    exact inv.counted
  · rw [held]
    exact inv.accounted
  · rw [held]
    exact inv.apart
  · intro cpu other installed
    have before := inv.cpus cpu other installed
    have different : other ≠ id := fun same => uninstalled cpu (same ▸ installed)
    exact ⟨(List.mem_erase_of_ne different).mpr before.1, before.2⟩

theorem Inv.free (inv : Inv foreign marked w inHand active loose) {pa : Nat} (member : pa ∈ inHand) :
    Inv foreign marked (w.setPages (pageFree w.pages pa)) (inHand.erase pa) active loose ∧
      Quiet w (w.setPages (pageFree w.pages pa)) := by
  have counted := inv.counted pa (held_pos_of_inHand member)
  exact inv.drop member (PageAlloc.pageFree_dropped inv.alloc counted.1 counted.2.1)
    (PageAlloc.pageFree_invariant inv.alloc pa)

theorem Inv.refDec (inv : Inv foreign marked w inHand active loose) {pa : Nat}
    (member : pa ∈ inHand) :
    Inv foreign marked (w.setPages (pageRefDec w.pages pa).2) (inHand.erase pa) active loose ∧
      Quiet w (w.setPages (pageRefDec w.pages pa).2) := by
  have counted := inv.counted pa (held_pos_of_inHand member)
  exact inv.drop member (PageAlloc.pageRefDec_dropped inv.alloc counted.1 counted.2.1)
    (PageAlloc.pageRefDec_invariant inv.alloc counted.1.2.2)

/-- The loop of `mmu_context_release` gives back every page in hand. -/
theorem Inv.freeAll (pages : List Nat) : ∀ {inHand : List Nat},
    Inv foreign marked w (pages ++ inHand) active [] →
    Inv foreign marked (w.setPages (pages.foldr (fun pa s => if pa = 0 then s else pageFree s pa)
        w.pages)) inHand active [] ∧
      Quiet w (w.setPages (pages.foldr (fun pa s => if pa = 0 then s else pageFree s pa)
        w.pages)) := by
  induction pages with
  | nil =>
    intro inHand inv
    exact ⟨inv, fun _ member => .refl member⟩
  | cons pa rest ih =>
    intro inHand inv
    have rotated : (pa :: (rest ++ inHand)).Perm (rest ++ pa :: inHand) :=
      List.perm_middle.symm
    have below := ih (inv.perm rotated)
    have positive : pa ≠ 0 := by
      have managed := inv.counted pa (held_pos_of_inHand List.mem_cons_self)
      exact (inv.alloc.core.window.low managed.1).1
    have freed := below.1.free List.mem_cons_self
    rw [List.erase_cons_head] at freed
    rw [List.foldr_cons, if_neg positive]
    exact ⟨freed.1, below.2.trans freed.2⟩

/-- Only lifetime fields and the contexts installed on CPUs change. -/
theorem Inv.relive (inv : Inv foreign marked w inHand active loose) (pages : t.pages = w.pages)
    (live : t.live = w.live) (rootPa : ∀ id, (t.contexts id).rootPa = (w.contexts id).rootPa)
    (tracked : ∀ id, (t.contexts id).pages = (w.contexts id).pages)
    (cpus : ∀ cpu id, t.cpuContext cpu = some id → id ∈ t.live ∧
      (t.contexts id).life.activeCpuMask.getLsbD cpu.val = true) :
    Inv foreign marked t inHand active loose ∧ Quiet w t := by
  have held : t.held inHand = w.held inHand := by
    funext q
    unfold World.held World.listers
    rw [live]
    simp only [tracked]
  have quiet : Quiet w t := by
    intro id member
    constructor
    · rw [live]
      exact member
    · exact rootPa id
    · exact tracked id
    · rw [pages]
      exact fun _ _ _ _ _ => rfl
  apply And.intro _ quiet
  constructor
  · rw [pages]
    exact inv.alloc
  · rw [live]
    exact inv.live
  · intro id member
    rw [live] at member
    rw [held]
    exact inv.space_of_undisturbed member (quiet id member) fun _ _ one => one
  · rw [held, pages]
    exact inv.counted
  · rw [held, pages]
    exact inv.accounted
  · rw [held, pages]
    exact inv.apart
  · exact cpus

end Contexts

end OsArmv8a.Mmu
