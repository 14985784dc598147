import OsArmv8a.MmuTables

/-! What the page-fault handler, `mmu_unmap_user_range` and writes to user memory do to the
address spaces. -/

set_option autoImplicit false

namespace OsArmv8a.Mmu

open PageAlloc (Managed pageAlloc pageFree pageRefInc pageRefDec pageRefGet Acquired)

/-- The path to the level 3 table of an address. -/
def tablePathOf (va : Nat) : List Nat := [l0Index va, l1Index va, l2Index va]

/-- The path to the page of an address. -/
def pathOf (va : Nat) : List Nat := tablePathOf va ++ [l3Index va]

theorem l3Index_lt (va : Nat) : l3Index va < 512 := Nat.mod_lt _ (by decide)

theorem tablePathOf_ok (va : Nat) : TablePath (tablePathOf va) := by
  constructor
  · exact Nat.le_refl 3
  · intro slot member
    simp only [tablePathOf, List.mem_cons, List.not_mem_nil, or_false] at member
    rcases member with rfl | rfl | rfl <;> exact Nat.mod_lt _ (by decide)

theorem pathOf_ok (va : Nat) : NodePath (pathOf va) := (tablePathOf_ok va).snoc (l3Index_lt va)

variable {m : Mem} {mm : MmContext} {va : Nat}

theorem resolveUserPageDesc_some {entry : Nat} :
    resolveUserPageDesc m mm va = some entry ↔
      ∃ table, node m mm (tablePathOf va) = some table ∧ entry = table + 8 * l3Index va := by
  unfold resolveUserPageDesc
  rw [Option.map_eq_some_iff]
  exact exists_congr fun table => and_congr_right fun _ => eq_comm

/-- An address resolves to the page at the end of its path. -/
theorem resolveUserPage_some {pa : Nat} {entry : BitVec 64} :
    resolveUserPage m mm va = some (pa, entry) ↔
      ∃ table, node m mm (tablePathOf va) = some table ∧ entry = m (table + 8 * l3Index va) ∧
        IsTable entry ∧ pa = descAddr entry := by
  unfold resolveUserPage
  rw [Option.bind_eq_some_iff]
  constructor
  · intro resolved
    obtain ⟨address, desc, found⟩ := resolved
    obtain ⟨table, reached, rfl⟩ := resolveUserPageDesc_some.mp desc
    split at found
    · rename_i isTable
      cases Option.some.inj found
      exact ⟨table, reached, rfl, isTable, rfl⟩
    · cases found
  · intro resolved
    obtain ⟨table, reached, rfl, isTable, rfl⟩ := resolved
    exact ⟨_, resolveUserPageDesc_some.mpr ⟨table, reached, rfl⟩, if_pos isTable⟩

theorem node_pathOf {table : Nat} (found : node m mm (tablePathOf va) = some table) :
    node m mm (pathOf va) = child (m (table + 8 * l3Index va)) := node_snoc _ found

theorem resolveUserPage_none : resolveUserPage m mm va = none ↔ node m mm (pathOf va) = none := by
  cases reached : node m mm (tablePathOf va) with
  | none =>
    have desc : resolveUserPageDesc m mm va = none := by
      show (node m mm (tablePathOf va)).map _ = none
      rw [reached]
      rfl
    have path : node m mm (pathOf va) = none := by
      show Radix.descend child m mm.rootPa (tablePathOf va ++ [l3Index va]) = none
      rw [Radix.descend_append]
      show (node m mm (tablePathOf va)).bind _ = none
      rw [reached]
      rfl
    unfold resolveUserPage
    rw [desc, path]
    exact ⟨fun _ => rfl, fun _ => rfl⟩
  | some table =>
    rw [node_pathOf reached]
    have desc := resolveUserPageDesc_some.mpr ⟨table, reached, rfl⟩
    unfold resolveUserPage child
    rw [desc, Option.bind_some]
    by_cases isTable : IsTable (m (table + 8 * l3Index va))
    · rw [if_pos isTable, if_pos isTable]
      exact ⟨fun impossible => (nomatch impossible), fun impossible => (nomatch impossible)⟩
    · rw [if_neg isTable, if_neg isTable]
      exact ⟨fun _ => rfl, fun _ => rfl⟩

section Faults

variable {foreign : Nat → Prop} {marked : Nat → List Nat → Prop} {w t : World}
  {inHand : List Nat} {active : Nat} {loose : List Nat}

/-- An operation on the active context is over: nothing is in hand or loose. -/
structure Settled (foreign : Nat → Prop) (marked : Nat → List Nat → Prop) (w t : World)
    (active : Nat) : Prop where
  inv : Inv foreign marked t [] active []
  frame : Frame active w t
  live : t.live = w.live

theorem Settled.refl (inv : Inv foreign marked w [] active []) :
    Settled foreign marked w w active := ⟨inv, Frame.refl active w, rfl⟩

theorem Settled.trans {u : World} (first : Settled foreign marked w t active)
    (second : Settled foreign marked t u active) : Settled foreign marked w u active :=
  ⟨second.inv, first.frame.trans second.frame, second.live.trans first.live⟩

variable {pa : Nat} {words : Nat → Prop}

/-- The page an address resolves to, with its descriptor. -/
structure Resident (w : World) (id va pa : Nat) (entry : BitVec 64) : Prop where
  desc : ∃ table, node w.pages.mem (w.contexts id) (tablePathOf va) = some table ∧
    w.load (table + 8 * l3Index va) = entry
  page : IsTable entry ∧ descAddr entry = pa

theorem resident_iff {id va : Nat} {entry : BitVec 64} : Resident w id va pa entry ↔
    resolveUserPage w.pages.mem (w.contexts id) va = some (pa, entry) := by
  rw [resolveUserPage_some]
  constructor
  · intro resident
    obtain ⟨table, found, word⟩ := resident.desc
    exact ⟨table, found, word.symm, resident.page.1, resident.page.2.symm⟩
  · intro resolved
    obtain ⟨table, found, word, isTable, address⟩ := resolved
    exact ⟨⟨table, found, word.symm⟩, isTable, address.symm⟩

/-- What mapping one page does: guarded words stay, no other leaf appears, and on success the
page is there with its flags. -/
structure Mapped (w t : World) (active va pa : Nat) (flags : BitVec 64) (words : Nat → Prop)
    (mapped : Bool) : Prop where
  spared : Spared w t active words
  root : (t.contexts active).rootPa = (w.contexts active).rootPa
  others : ∀ path, NodePath path → path.length = 4 → mapped = false ∨ path ≠ pathOf va →
    node t.pages.mem (t.contexts active) path = node w.pages.mem (w.contexts active) path
  here : mapped = true → Resident t active va pa (pageEntry pa flags)

variable {flags : BitVec 64}

/-- `mmu_map_user_page_locked` on an address that does not resolve. -/
theorem mapUserPage_spec (inv : Inv foreign marked w inHand active loose) (live : active ∈ w.live)
    {va : Nat} {mapped : Bool} (member : pa ∈ loose)
    (unresolved : node w.pages.mem (w.contexts active) (pathOf va) = none)
    (plain : flags &&& ~~~userAttributes = 0#64)
    (permitted : marked active (pathOf va) → flags &&& userApMask ≠ userApRw)
    (result : mapUserPage w active va pa flags = (mapped, t)) :
    (Inv foreign marked t inHand active (if mapped = true then loose.filter (· ≠ pa) else loose) ∧
      Frame active w t ∧ t.live = w.live) ∧
      ∀ words, Guards w active words → Mapped w t active va pa flags words mapped := by
  unfold mapUserPage at result
  split at result
  · rename_i u failed
    cases result
    have walk := (findTable_create _ inv live (tablePathOf_ok va) (node_root _ _) failed).1
    exact ⟨⟨walk.inv, walk.frame, walk.live⟩, fun words guards => ⟨walk.spared words guards,
      walk.root, fun path ok length _ => walk.leaves path ok length, nofun⟩⟩
  · rename_i l3 u reached
    cases result
    have walk := findTable_create _ inv live (tablePathOf_ok va) (node_root _ _) reached
    have liveU : active ∈ u.live := walk.1.live ▸ live
    have found : node u.pages.mem (u.contexts active) (tablePathOf va) = some l3 := walk.2 l3 rfl
    have space := walk.1.inv.space liveU
    have empty : ¬ Valid (u.load (l3 + 8 * l3Index va)) := by
      intro valid
      have isTable := space.typed _ l3 _ (tablePathOf_ok va) found (l3Index_lt va) valid
      have leaf := walk.1.leaves (pathOf va) (pathOf_ok va) rfl
      rw [unresolved, node_pathOf found] at leaf
      rw [show child (u.pages.mem (l3 + 8 * l3Index va)) = _ from child_of_isTable isTable] at leaf
      cases leaf
    have address := descAddr_pageEntry (space.addresses pa (space.owned.kept pa member)) plain
    have linked := walk.1.inv.link liveU (tablePathOf_ok va) found (l3Index_lt va) empty
      isTable_pageEntry (by rw [address]; exact member) (fun deep => absurd deep (Nat.lt_irrefl 3))
      (fun _ mark writable => permitted mark (writable_pageEntry.mp writable))
    rw [address] at linked
    refine ⟨⟨linked.1.1, walk.1.frame.trans linked.1.2, walk.1.live⟩, fun words guards => ?_⟩
    have spared := walk.1.spared words guards
    have shallow : ∀ path, TablePath path → path ≠ tablePathOf va ++ [l3Index va] := by
      intro path ok same
      have length := ok.short
      rw [same] at length
      simp [tablePathOf] at length
    constructor
    · refine spared.trans (spared.guards.of_nodes spared.guards.reserved ?_ ?_)
      · intro a inside
        apply Mem.set_other
        intro same
        exact empty (spared.guards.entries _ l3 _ (tablePathOf_ok va) found (l3Index_lt va)
          (same ▸ inside))
      · intro path table slot ok reached _ _
        have before := linked.2 path ok.node
        rw [if_neg (shallow path ok)] at before
        exact before.symm.trans reached
    · exact walk.1.root
    · intro path ok length other
      have different : path ≠ tablePathOf va ++ [l3Index va] := other.resolve_left (by decide)
      exact ((linked.2 path ok).trans (if_neg different)).trans (walk.1.leaves path ok length)
    · intro _
      refine ⟨⟨l3, ?_, Mem.set_same _ _ _⟩, isTable_pageEntry, address⟩
      have before := linked.2 (tablePathOf va) (tablePathOf_ok va).node
      rw [if_neg (shallow _ (tablePathOf_ok va))] at before
      exact before.trans found

variable {fewer : Nat → Prop} {pages : PageAlloc.State}

theorem Guards.mono (guards : Guards w active words) (subset : ∀ a, fewer a → words a) :
    Guards w active fewer :=
  ⟨fun a member => guards.reserved a (subset a member),
    fun path table slot ok found below member =>
      guards.entries path table slot ok found below (subset _ member)⟩

theorem Spared.mono (spared : Spared w t active words) (subset : ∀ a, fewer a → words a) :
    Spared w t active fewer :=
  ⟨spared.guards.mono subset, fun a member => spared.same a (subset a member)⟩

/-- A page that has been allocated, written and tracked joins the guarded words. -/
theorem Guards.acquire (inv : Inv foreign marked w inHand active loose) (live : active ∈ w.live)
    (guards : Guards w active words) (taken : pageAlloc w.pages = (some pa, pages)) {m : Mem}
    (outside : ∀ a, a < pa ∨ pa + 4096 ≤ a → m a = pages.mem a)
    (added : ((w.setPages pages).setMem m).addPage active pa = some t) :
    Guards t active (fun a => words a ∨ pa ≤ a ∧ a < pa + 4096) ∧
      ∀ a, words a → t.pages.mem a = w.pages.mem a := by
  have acquired := PageAlloc.pageAlloc_acquired inv.alloc taken
  have grown := inv.acquire live taken outside added
  obtain ⟨mm, -, rfl⟩ := Option.map_eq_some_iff.mp added
  have same : ∀ a, words a → m a = w.pages.mem a := fun a member =>
    have beyond := guards.reserved.apart acquired member
    (outside a beyond).trans (acquired.frame a beyond)
  refine ⟨⟨?_, ?_⟩, same⟩
  · rintro a (member | inside) page managed lower upper
    · exact guards.reserved.acquired acquired a member page managed lower upper
    · have aligned := acquired.managed.2.2
      have alignedPage := managed.2.2
      have here : page = pa := by omega
      rw [here]
      exact (acquired.states pa acquired.managed).trans (if_pos rfl)
  · intro path table slot ok found below member
    have before := (grown.2.1.node (inv.space live) ok.node).symm.trans found
    rcases member with member | inside
    · show Valid (m (table + 8 * slot))
      rw [same _ member]
      exact guards.entries path table slot ok before below member
    · have space := inv.space live
      have listed := (space.owned.nodes path table ok.node before).1
      have aligned := (space.addresses table listed).aligned
      have alignedPa := acquired.managed.2.2
      have here : table = pa := by omega
      exact absurd (here ▸ listed) grown.2.2.2

theorem removePage_node {id : Nat} (path : List Nat) :
    node (w.removePage id pa).pages.mem ((w.removePage id pa).contexts id) path =
      node w.pages.mem (w.contexts id) path := by
  unfold World.removePage node
  rw [World.setContext_same]
  unfold MmContext.removePage
  split <;> rfl

/-- A page that could not be mapped is untracked and given back. -/
theorem Inv.discard (inv : Inv foreign marked w [] active [pa]) (live : active ∈ w.live) :
    Inv foreign marked
        ((w.removePage active pa).setPages (pageFree (w.removePage active pa).pages pa)) [] active [] ∧
      Frame active w
        ((w.removePage active pa).setPages (pageFree (w.removePage active pa).pages pa)) ∧
      (∀ words, Guards w active words → (∀ a, words a → a < pa ∨ pa + 4096 ≤ a) → Spared w
        ((w.removePage active pa).setPages (pageFree (w.removePage active pa).pages pa)) active words) ∧
      ∀ path, NodePath path → node (pageFree (w.removePage active pa).pages pa).mem
        ((w.removePage active pa).contexts active) path = node w.pages.mem (w.contexts active) path := by
  have removed := inv.untrack live List.mem_cons_self
  rw [filter_fresh List.not_mem_nil] at removed
  have counted := removed.1.counted pa (held_pos_of_inHand List.mem_cons_self)
  have dropped := PageAlloc.pageFree_dropped removed.1.alloc counted.1 counted.2.1
  have freed := removed.1.free List.mem_cons_self
  rw [List.erase_cons_head] at freed
  have nodes : ∀ path, NodePath path → node (pageFree (w.removePage active pa).pages pa).mem
      ((w.removePage active pa).contexts active) path = node w.pages.mem (w.contexts active) path :=
    fun path ok => ((freed.2 active live).node (removed.1.space live) ok).trans (removePage_node path)
  refine ⟨freed.1, removed.2.trans (freed.2.frame active), fun words guards apart => ?_, nodes⟩
  refine guards.of_nodes (Reserved.dropped guards.reserved dropped apart) ?_ ?_
  · intro a member
    have beyond := apart a member
    exact dropped.frame a (by omega)
  · intro path table slot ok found _ _
    exact (nodes path ok.node).symm.trans found

/-- Both translation-fault paths: a fresh page, with the contents it was prepared with. -/
theorem mapNewPage_spec (inv : Inv foreign marked w [] active []) (live : active ∈ w.live)
    {pageVa : Nat} {prepare : Nat → Mem → Mem} {mapped : Bool}
    (unresolved : node w.pages.mem (w.contexts active) (pathOf pageVa) = none)
    (plain : flags &&& ~~~userAttributes = 0#64)
    (permitted : marked active (pathOf pageVa) → flags &&& userApMask ≠ userApRw)
    (inside : ∀ pa m a, 4096 ∣ pa → a < pa ∨ pa + 4096 ≤ a → prepare pa m a = m a)
    (result : mapNewPage w active pageVa flags prepare = (mapped, t)) :
    Settled foreign marked w t active ∧ ∀ words, Guards w active words →
      ∃ pa pages, Mapped w t active pageVa pa flags words mapped ∧
        (mapped = true → Acquired w.pages pages pa ∧
          ∀ a, pa ≤ a → a < pa + 4096 → t.pages.mem a = prepare pa pages.mem a) := by
  unfold mapNewPage at result
  split at result
  · cases result
    exact ⟨Settled.refl inv, fun words guards =>
      ⟨0, w.pages, ⟨⟨guards, fun _ _ => rfl⟩, rfl, fun _ _ _ _ => rfl, nofun⟩, nofun⟩⟩
  rename_i pa pages taken
  have acquired := PageAlloc.pageAlloc_acquired inv.alloc taken
  have outside := fun a => inside pa pages.mem a (inv.take taken).2.2.address.aligned
  dsimp only at result
  split at result
  · cases result
    obtain ⟨after, quiet, spared⟩ := inv.abandon live taken outside rfl
    exact ⟨⟨after, quiet.frame active, rfl⟩, fun words guards => ⟨pa, pages, ⟨spared words guards,
      rfl, fun path ok _ _ => (quiet active live).node (inv.space live) ok, nofun⟩, nofun⟩⟩
  rename_i u added
  have grown := inv.acquire live taken outside added
  have liveU : active ∈ u.live := grown.2.1.live ▸ live
  have nodes := fun path (ok : NodePath path) => grown.2.1.node (inv.space live) ok
  have still := (nodes _ (pathOf_ok pageVa)).trans unresolved
  split at result
  · rename_i v success
    cases result
    have spec := mapUserPage_spec grown.1.1 liveU List.mem_cons_self still plain permitted success
    rw [if_pos rfl, filter_fresh List.not_mem_nil] at spec
    refine ⟨⟨spec.1.1, grown.1.2.trans spec.1.2.1, spec.1.2.2.trans grown.2.1.live⟩,
      fun words guards => ⟨pa, pages, ?_⟩⟩
    have guarded := guards.acquire inv live taken outside added
    have mapping := spec.2 _ guarded.1
    have first : Spared w u active words :=
      ⟨guarded.1.mono fun a member => Or.inl member, guarded.2⟩
    refine ⟨⟨first.trans (mapping.spared.mono fun a member => Or.inl member),
      mapping.root.trans grown.2.1.root, ?_, mapping.here⟩, fun _ => ⟨acquired, ?_⟩⟩
    · exact fun path ok length other => (mapping.others path ok length other).trans (nodes path ok)
    · intro a lower upper
      rw [mapping.spared.same a (Or.inr ⟨lower, upper⟩), grown.2.2.1]
  · rename_i v failure
    cases result
    have spec := mapUserPage_spec grown.1.1 liveU List.mem_cons_self still plain permitted failure
    rw [if_neg (by decide)] at spec
    have liveV : active ∈ v.live := spec.1.2.2 ▸ liveU
    obtain ⟨after, frame, spared, same⟩ := spec.1.1.discard liveV
    refine ⟨⟨after, (grown.1.2.trans spec.1.2.1).trans frame, spec.1.2.2.trans grown.2.1.live⟩,
      fun words guards => ⟨pa, pages, ?_, nofun⟩⟩
    have guarded := guards.acquire inv live taken outside added
    have mapping := spec.2 _ guarded.1
    have second : Spared _ v active words := mapping.spared.mono fun a member => Or.inl member
    refine ⟨⟨(spared words second.guards fun a member => guards.reserved.apart acquired member).guards,
      fun a member => ?_⟩, ?_, ?_, nofun⟩
    · exact ((spared words second.guards fun a member => guards.reserved.apart acquired member).same a
        member).trans ((second.same a member).trans (guarded.2 a member))
    · rw [← grown.2.1.root, ← mapping.root]
      show ((v.removePage active pa).contexts active).rootPa = _
      exact Option.some.inj (removePage_node [])
    · intro path ok length _
      exact ((same path ok).trans (mapping.others path ok length (Or.inl rfl))).trans (nodes path ok)

/-- The allocator's count is the number of references. -/
theorem Inv.pageRefGet (inv : Inv foreign marked w inHand active loose) {pa : Nat}
    (positive : 0 < w.held inHand pa) : pageRefGet w.pages pa = w.held inHand pa := by
  have counted := inv.counted pa positive
  have lower := counted.1.1
  have upper := counted.1.2.1
  unfold PageAlloc.pageRefGet
  rw [if_neg (by omega), if_neg (not_not_intro counted.2.1)]
  exact counted.2.2

/-- A level 3 entry is redirected to a loose page and the old page is in hand. -/
theorem Inv.replace (inv : Inv foreign marked w inHand active loose) (live : active ∈ w.live)
    {place : List Nat} {table slot : Nat} {value : BitVec 64} (ok : TablePath place)
    (leaf : place.length = 3) (found : node w.pages.mem (w.contexts active) place = some table)
    (below : slot < 512) (isTable : IsTable (w.load (table + 8 * slot))) (still : IsTable value)
    (member : descAddr value ∈ loose) (unmarked : ¬ marked active (place ++ [slot])) :
    Inv foreign marked ((w.store (table + 8 * slot) value).removePage active
        (descAddr (w.load (table + 8 * slot)))) (descAddr (w.load (table + 8 * slot)) :: inHand)
        active (loose.filter (· ≠ descAddr value)) ∧
      Frame active w ((w.store (table + 8 * slot) value).removePage active
        (descAddr (w.load (table + 8 * slot)))) := by
  have cleared := inv.unlink live ok leaf found below isTable
  -- clearing the entry first reaches the same state
  have same : ((w.store (table + 8 * slot) 0#64).removePage active
      (descAddr (w.load (table + 8 * slot)))).store (table + 8 * slot) value =
        (w.store (table + 8 * slot) value).removePage active
          (descAddr (w.load (table + 8 * slot))) := by
    unfold World.store World.removePage World.setContext World.setMem
    rw [Mem.set_set]
  have positive := inv.positive live ((inv.space live).owned.nodes (place ++ [slot]) _
    (ok.snoc below) ((node_snoc slot found).trans (child_of_isTable isTable))).1
  have foundAfter : node ((w.store (table + 8 * slot) 0#64).removePage active
      (descAddr (w.load (table + 8 * slot)))).pages.mem
      (((w.store (table + 8 * slot) 0#64).removePage active
        (descAddr (w.load (table + 8 * slot)))).contexts active) place = some table := by
    rw [removePage_same positive]
    show node (w.pages.mem.set (table + 8 * slot) 0#64) (w.contexts active) place = some table
    rw [(inv.space live).leaf_write ok leaf found below 0#64 ok.node, if_neg, found]
    intro equal
    have length := congrArg List.length equal
    rw [List.length_append, List.length_singleton] at length
    omega
  have empty : ¬ Valid (((w.store (table + 8 * slot) 0#64).removePage active
      (descAddr (w.load (table + 8 * slot)))).load (table + 8 * slot)) := by
    show ¬ Valid (w.pages.mem.set (table + 8 * slot) 0#64 (table + 8 * slot))
    rw [Mem.set_same]
    exact not_valid_zero
  have linked := cleared.1.link live ok foundAfter below empty still member
    (fun deep => absurd deep (by omega)) (fun _ mark => absurd mark unmarked)
  rw [same] at linked
  exact ⟨linked.1.1, cleared.2.trans linked.1.2⟩

variable {far : Nat} {handled : Bool}

/-- The copy-on-write path. A page that must stay read-only is not one it would make writable. -/
theorem permissionFault_spec (inv : Inv foreign marked w [] active []) (live : active ∈ w.live)
    (permitted : ∀ table, node w.pages.mem (w.contexts active) (tablePathOf far) = some table →
      marked active (pathOf far) → ¬ IsCow (w.load (table + 8 * l3Index far)))
    (result : permissionFault w active far = (handled, t)) : Settled foreign marked w t active := by
  unfold permissionFault at result
  split at result
  · cases result
    exact Settled.refl inv
  rename_i ptr desc
  obtain ⟨table, found, rfl⟩ := resolveUserPageDesc_some.mp desc
  dsimp only at result
  split at result
  · cases result
    exact Settled.refl inv
  rename_i cow
  have cow := Decidable.not_not.mp cow
  have unmarked : ¬ marked active (pathOf far) := fun mark => permitted table found mark cow
  have space := inv.space live
  have ok := tablePathOf_ok far
  have below := l3Index_lt far
  have isTable := space.typed _ table _ ok found below cow.1
  have listed := (space.owned.nodes (pathOf far) _ (pathOf_ok far)
    ((node_pathOf found).trans (child_of_isTable isTable))).1
  split at result
  · rename_i last
    cases result
    have single : w.held [] (descAddr (w.load (table + 8 * l3Index far))) = 1 := by
      rw [← inv.pageRefGet (held_pos_of_listed live listed)]
      exact last
    have rewritten := inv.rewrite live ok rfl found below isTable
      (isTable_upgradedEntry.mpr isTable) descAddr_upgradedEntry
      (fun _ => by rw [descAddr_upgradedEntry]; exact single) (fun mark => absurd mark unmarked)
    exact ⟨rewritten.1.1, rewritten.1.2, rfl⟩
  split at result
  · cases result
    exact Settled.refl inv
  rename_i pa pages taken
  have outside : ∀ a, a < pa ∨ pa + 4096 ≤ a → pages.mem.copyBytes pa
      (descAddr (w.load (table + 8 * l3Index far))) 4096 a = pages.mem a := by
    intro a apart
    have aligned := (inv.take taken).2.2.address.aligned
    exact Mem.fillBytes_outside _ _ _ (by omega)
  split at result
  · cases result
    have abandoned := inv.abandon live taken outside rfl
    exact ⟨abandoned.1, abandoned.2.1.frame active, rfl⟩
  rename_i u added
  cases result
  have acquired := inv.acquire live taken outside added
  have grown := acquired.2.1
  have liveU : active ∈ u.live := grown.live ▸ live
  have spaceU := acquired.1.1.space liveU
  have tableListed := (space.owned.nodes _ table ok.node found).1
  have word : u.load (table + 8 * l3Index far) = w.load (table + 8 * l3Index far) :=
    grown.words table tableListed _ (by omega) (by omega)
  have address : descAddr (copiedEntry pa (w.load (table + 8 * l3Index far))) = pa :=
    descAddr_copiedEntry (spaceU.addresses pa (spaceU.owned.kept pa List.mem_cons_self))
  have replaced := acquired.1.1.replace liveU ok rfl ((grown.node space ok.node).trans found) below
    (by rw [word]; exact isTable) (isTable_copiedEntry.mpr isTable)
    (by rw [address]; exact List.mem_cons_self) unmarked
  rw [word, address, filter_fresh List.not_mem_nil] at replaced
  have dropped := replaced.1.refDec List.mem_cons_self
  rw [List.erase_cons_head] at dropped
  exact ⟨dropped.1, (acquired.1.2.trans replaced.2).trans (dropped.2.frame active), grown.live⟩

/-- The flags a translation fault at an address would map its page with. -/
def faultFlags (layout : VmLayout) (far : Nat) : Option (BitVec 64) :=
  match regionFor layout far with
  | some region => some region.flags
  | none => if growable layout far = true then some defaultFlags else none

theorem pathOf_page (far : Nat) : pathOf (4096 * (far / 4096)) = pathOf far := by
  have l0 : l0Index (4096 * (far / 4096)) = l0Index far := by unfold l0Index; omega
  have l1 : l1Index (4096 * (far / 4096)) = l1Index far := by unfold l1Index; omega
  have l2 : l2Index (4096 * (far / 4096)) = l2Index far := by unfold l2Index; omega
  have l3 : l3Index (4096 * (far / 4096)) = l3Index far := by unfold l3Index; omega
  unfold pathOf tablePathOf
  rw [l0, l1, l2, l3]

theorem elfSource_length {region : VmRegion} {pageVa source length : Nat}
    (found : elfSource region pageVa = some (source, length)) : length ≤ 4096 := by
  unfold elfSource at found
  dsimp only at found
  split at found
  · have second := (Prod.mk.inj (Option.some.inj found)).2
    rw [← second]
    exact Nat.min_le_right _ _
  · cases found

theorem fillFromRegion_outside (region : VmRegion) (pageVa pa : Nat) (m : Mem) {a : Nat}
    (aligned : 4096 ∣ pa) (outside : a < pa ∨ pa + 4096 ≤ a) :
    fillFromRegion region pageVa pa m a = m a := by
  unfold fillFromRegion
  cases found : elfSource region pageVa with
  | none => exact Mem.zero_outside m outside
  | some copied =>
    have short := elfSource_length found
    show (m.zero pa 4096).fillBytes pa _ copied.2 a = m a
    rw [Mem.fillBytes_outside _ _ _ (by omega)]
    exact Mem.zero_outside m outside

variable {layout : VmLayout}

/-- A translation fault is refused, or maps a page built from the region or as it came from the
allocator. -/
theorem translationFault_cases (result : translationFault layout w active far = (handled, t)) :
    (faultFlags layout far = none ∧ handled = false ∧ t = w) ∨ ∃ flags prepare,
      faultFlags layout far = some flags ∧ flags &&& ~~~userAttributes = 0#64 ∧
      (∀ pa m a, 4096 ∣ pa → a < pa ∨ pa + 4096 ≤ a → prepare pa m a = m a) ∧
      (∀ region, regionFor layout far = some region →
        flags = region.flags ∧ prepare = fillFromRegion region (4096 * (far / 4096))) ∧
      (regionFor layout far = none →
        growable layout far = true ∧ flags = defaultFlags ∧ prepare = fun _ m => m) ∧
      mapNewPage w active (4096 * (far / 4096)) flags prepare = (handled, t) := by
  unfold translationFault at result
  unfold faultFlags
  cases found : regionFor layout far with
  | some region =>
    rw [found] at result
    refine Or.inr ⟨region.flags, fillFromRegion region (4096 * (far / 4096)), rfl, region.plain,
      fun pa m a => fillFromRegion_outside region _ pa m, fun other same => ?_, nofun, result⟩
    cases same
    exact ⟨rfl, rfl⟩
  | none =>
    rw [found] at result
    dsimp only at result
    split at result
    · rename_i grows
      exact Or.inr ⟨defaultFlags, _, if_pos grows, by decide, fun _ _ _ _ _ => rfl, nofun,
        fun _ => ⟨grows, rfl, rfl⟩, result⟩
    · rename_i fixed
      cases result
      exact Or.inl ⟨if_neg fixed, rfl, rfl⟩

theorem translationFault_spec (inv : Inv foreign marked w [] active []) (live : active ∈ w.live)
    (unresolved : node w.pages.mem (w.contexts active) (pathOf far) = none)
    (permitted : ∀ flags ∈ faultFlags layout far, marked active (pathOf far) →
      flags &&& userApMask ≠ userApRw)
    (result : translationFault layout w active far = (handled, t)) :
    Settled foreign marked w t active := by
  rw [← pathOf_page] at unresolved permitted
  obtain ⟨-, -, rfl⟩ | ⟨flags, prepare, found, plain, inside, -, -, mapped⟩ :=
    translationFault_cases result
  · exact Settled.refl inv
  · exact (mapNewPage_spec inv live unresolved plain (permitted flags found) inside mapped).1

/-- A fault makes no page writable that must stay read-only. -/
structure Permitted (marked : Nat → List Nat → Prop) (layout : VmLayout) (w : World)
    (id far esr : Nat) : Prop where
  permission : fscType esr = 0x0C → ∀ table,
    node w.pages.mem (w.contexts id) (tablePathOf far) = some table → marked id (pathOf far) →
    ¬ IsCow (w.load (table + 8 * l3Index far))
  translation : fscType esr = 0x04 →
    node w.pages.mem (w.contexts id) (pathOf far) = none →
    ∀ flags ∈ faultFlags layout far, marked id (pathOf far) → flags &&& userApMask ≠ userApRw

variable {esr : Nat}

/-- A fault is refused, spurious, a permission fault, or a translation fault on an absent page. -/
theorem handlePageFault_cases (result : handlePageFault layout w active far esr = (handled, t)) :
    (handled = false ∧ t = w) ∨
    (fscType esr = 0x04 ∧ t = w ∧ ∃ pa entry, Resident w active far pa entry) ∨
    (fscType esr = 0x0C ∧ permissionFault w active far = (handled, t)) ∨
    (fscType esr = 0x04 ∧ node w.pages.mem (w.contexts active) (pathOf far) = none ∧
      translationFault layout w active far = (handled, t)) := by
  unfold handlePageFault at result
  split at result
  · cases result
    exact Or.inl ⟨rfl, rfl⟩
  split at result
  · rename_i present
    cases result
    obtain ⟨⟨pa, entry⟩, resolved⟩ := Option.isSome_iff_exists.mp present.2
    exact Or.inr (Or.inl ⟨present.1, rfl, pa, entry, resident_iff.mpr resolved⟩)
  rename_i unresolved
  split at result
  · rename_i permission
    exact Or.inr (Or.inr (Or.inl ⟨permission, result⟩))
  split at result
  · rename_i translation
    refine Or.inr (Or.inr (Or.inr ⟨translation, ?_, result⟩))
    apply resolveUserPage_none.mp
    apply Option.not_isSome_iff_eq_none.mp
    exact fun present => unresolved ⟨translation, present⟩
  · cases result
    exact Or.inl ⟨rfl, rfl⟩

/-- `mmu_handle_process_page_fault_locked`. -/
theorem handlePageFault_spec (inv : Inv foreign marked w [] active []) (live : active ∈ w.live)
    (permitted : Permitted marked layout w active far esr)
    (result : handlePageFault layout w active far esr = (handled, t)) :
    Settled foreign marked w t active := by
  obtain ⟨-, rfl⟩ | ⟨-, rfl, -⟩ | ⟨permission, faulted⟩ | ⟨translation, absent, faulted⟩ :=
    handlePageFault_cases result
  · exact Settled.refl inv
  · exact Settled.refl inv
  · exact permissionFault_spec inv live (permitted.permission permission) faulted
  · exact translationFault_spec inv live absent (permitted.translation translation absent) faulted

theorem findPte_look (inv : Inv foreign marked w inHand active loose) (live : active ∈ w.live)
    (va : Nat) : findPte w active va false =
      (node w.pages.mem (w.contexts active) (tablePathOf va), w) :=
  findTable_look (tablePathOf va) inv live (tablePathOf_ok va) (node_root _ _)

/-- One iteration of `mmu_unmap_user_range`. -/
theorem unmapAt_spec (inv : Inv foreign marked w [] active []) (live : active ∈ w.live) (curr : Nat) :
    Settled foreign marked w (unmapAt active w curr) active := by
  unfold unmapAt
  rw [findPte_look inv live curr]
  cases found : node w.pages.mem (w.contexts active) (tablePathOf curr) with
  | none => exact Settled.refl inv
  | some table =>
    dsimp only
    split
    · rename_i valid
      have ok := tablePathOf_ok curr
      have isTable := (inv.space live).typed _ table 0 ok found (by decide) valid
      have cleared := inv.unlink live ok rfl found (by decide) isTable
      have dropped := cleared.1.refDec List.mem_cons_self
      rw [List.erase_cons_head] at dropped
      exact ⟨dropped.1, cleared.2.trans (dropped.2.frame active), rfl⟩
    · exact Settled.refl inv

theorem unmapPages_spec (pages : List Nat) : ∀ {w : World}, Inv foreign marked w [] active [] →
    active ∈ w.live → Settled foreign marked w (pages.foldl (unmapAt active) w) active := by
  induction pages with
  | nil =>
    intro w inv _
    exact Settled.refl inv
  | cons curr rest ih =>
    intro w inv live
    have first := unmapAt_spec inv live curr
    exact first.trans (ih first.inv (first.live ▸ live))

/-- `mmu_unmap_user_range`. -/
theorem unmapUserRange_spec (inv : Inv foreign marked w [] active []) (live : active ∈ w.live)
    (va len : Nat) : Settled foreign marked w (unmapUserRange w active va len) active := by
  unfold unmapUserRange
  split
  · exact Settled.refl inv
  · exact unmapPages_spec _ inv live

/-- A write through an address space: the page it goes to is nobody else's. -/
theorem writeUser_spec (inv : Inv foreign marked w [] active []) (live : active ∈ w.live) {va : Nat}
    {bytes : List (BitVec 8)} (fits : va % 4096 + bytes.length ≤ 4096)
    (written : writeUser w active va bytes = some t) : Settled foreign marked w t active := by
  obtain ⟨⟨pa, entry⟩, resolved, allowed⟩ := Option.bind_eq_some_iff.mp written
  obtain ⟨table, found, rfl, isTable, rfl⟩ := resolveUserPage_some.mp resolved
  obtain ⟨writable, rfl⟩ := Transition.of_guard allowed
  have space := inv.space live
  have ok := tablePathOf_ok va
  have writable : Writable (w.load (table + 8 * l3Index va)) := of_decide_eq_true writable
  have reached := (node_pathOf found).trans (child_of_isTable isTable)
  have listed := (space.owned.nodes _ _ (pathOf_ok va) reached).1
  have single := space.leaves _ table _ ok rfl found (l3Index_lt va) isTable writable
  have aligned : 4096 ∣ descAddr (w.load (table + 8 * l3Index va)) :=
    (space.addresses _ listed).aligned
  have data : ∀ path other, TablePath path → node w.pages.mem (w.contexts active) path = some other →
      other ≠ descAddr (w.load (table + 8 * l3Index va)) := by
    intro path other okPath there equal
    have route := space.owned.once path (pathOf va) _ okPath.node (pathOf_ok va)
      (equal ▸ there) reached
    have short := okPath.short
    rw [route] at short
    exact absurd short (show ¬ 4 ≤ 3 by decide)
  have outside : ∀ a, a < descAddr (w.load (table + 8 * l3Index va)) ∨
      descAddr (w.load (table + 8 * l3Index va)) + 4096 ≤ a →
      w.pages.mem.storeBytes (descAddr (w.load (table + 8 * l3Index va)) + va % 4096) bytes a =
        w.pages.mem a := fun a apart => Mem.storeBytes_outside (by omega)
  have filled := inv.fill live single (Or.inl listed) data outside
  exact ⟨filled.1, filled.2, rfl⟩

end Faults

end OsArmv8a.Mmu
