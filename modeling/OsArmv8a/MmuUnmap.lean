import OsArmv8a.MmuRun

/-! What `mmu_unmap_user_range` unmaps. -/

set_option autoImplicit false

namespace OsArmv8a.Mmu

open PageAlloc (Managed pageRefDec)

/-- A page of the context is mapped at one of the given paths. -/
def Lost (w : World) (id : Nat) (gone : List Nat → Prop) (pa : Nat) : Prop :=
  ∃ path, NodePath path ∧ gone path ∧ node w.pages.mem (w.contexts id) path = some pa

/-- The entries at the given full paths have been cleared, with their pages given up, and
nothing else in the context has changed. -/
structure Cleared (w t : World) (id : Nat) (gone : List Nat → Prop) : Prop where
  root : (t.contexts id).rootPa = (w.contexts id).rootPa
  window : ∀ pa, Managed t.pages pa ↔ Managed w.pages pa
  kept : ∀ path table slot, TablePath path → node w.pages.mem (w.contexts id) path = some table →
    slot < 512 → ¬ gone (path ++ [slot]) → t.load (table + 8 * slot) = w.load (table + 8 * slot)
  empty : ∀ path table slot, TablePath path → node w.pages.mem (w.contexts id) path = some table →
    slot < 512 → gone (path ++ [slot]) → ¬ Valid (t.load (table + 8 * slot))
  pages : ∀ pa, pa ∈ (t.contexts id).pages ↔ pa ∈ (w.contexts id).pages ∧ ¬ Lost w id gone pa
  dropped : ∀ pa, Managed w.pages pa → Lost w id gone pa →
    t.pages.refAt pa + 1 = w.pages.refAt pa
  same : ∀ pa, Managed w.pages pa → ¬ Lost w id gone pa → t.pages.refAt pa = w.pages.refAt pa

section Cleared

variable {foreign : Nat → Prop} {marked : Nat → List Nat → Prop} {w t u : World} {id : Nat}
  {gone more : List Nat → Prop}

theorem Cleared.nodes (cleared : Cleared w t id gone) (leafy : ∀ path, gone path → path.length = 4)
    {path : List Nat} (ok : NodePath path) (still : ¬ gone path) :
    node t.pages.mem (t.contexts id) path = node w.pages.mem (w.contexts id) path := by
  unfold node
  rw [cleared.root]
  apply Radix.descend_congr
  intro start slot table inside found
  have okStart := ok.initial inside
  have length := okStart.short
  rw [List.length_append, List.length_singleton] at length
  have short : TablePath start :=
    ⟨by omega, fun other member => okStart.slots other (List.mem_append_left _ member)⟩
  apply cleared.kept start table slot short found (okStart.slots slot (by simp))
  intro lost
  -- A full path that is a prefix of another is that path.
  have full := leafy _ lost
  have bound := ok.short
  have below := inside.length_le
  exact still (inside.eq_of_length (by omega) ▸ lost)

theorem Cleared.vacated (cleared : Cleared w t id gone) (leafy : ∀ path, gone path → path.length = 4)
    {path : List Nat} {slot : Nat} (ok : TablePath path) (below : slot < 512)
    (lost : gone (path ++ [slot])) : node t.pages.mem (t.contexts id) (path ++ [slot]) = none := by
  have short : ¬ gone path := by
    intro early
    have length := leafy _ early
    have bound := ok.short
    omega
  have same := cleared.nodes leafy ok.node short
  cases found : node w.pages.mem (w.contexts id) path with
  | none => exact node_beyond (same.trans found) [slot]
  | some table =>
    rw [node_snoc slot (same.trans found)]
    exact if_neg fun isTable => cleared.empty path table slot ok found below lost isTable.valid

/-- Paths that become unmapped later are the later ones among those that still were mapped. -/
theorem Cleared.lost_later (first : Cleared w t id gone)
    (leafy : ∀ path, gone path → path.length = 4) {pa : Nat} :
    Lost t id more pa ↔ ∃ path, NodePath path ∧ (¬ gone path ∧ more path) ∧
      node w.pages.mem (w.contexts id) path = some pa := by
  constructor
  · rintro ⟨path, ok, later, found⟩
    by_cases early : gone path
    · exfalso
      have full := leafy path early
      obtain ⟨start, slot, rfl⟩ : ∃ start slot, path = start ++ [slot] :=
        ⟨path.dropLast, path.getLast (by intro empty; rw [empty] at full; cases full),
          (List.dropLast_append_getLast _).symm⟩
      have okStart : TablePath start := by
        constructor
        · rw [List.length_append, List.length_singleton] at full
          omega
        · exact fun other member => ok.slots other (List.mem_append_left _ member)
      rw [first.vacated leafy okStart (ok.slots slot (by simp)) early] at found
      cases found
    · exact ⟨path, ok, ⟨early, later⟩, (first.nodes leafy ok early).symm.trans found⟩
  · rintro ⟨path, ok, ⟨early, later⟩, found⟩
    exact ⟨path, ok, later, (first.nodes leafy ok early).trans found⟩

theorem lost_or {pa : Nat} : Lost w id (fun path => gone path ∨ more path) pa ↔
    Lost w id gone pa ∨ ∃ path, NodePath path ∧ (¬ gone path ∧ more path) ∧
      node w.pages.mem (w.contexts id) path = some pa := by
  constructor
  · rintro ⟨path, ok, lost, found⟩
    by_cases early : gone path
    · exact Or.inl ⟨path, ok, early, found⟩
    · exact Or.inr ⟨path, ok, ⟨early, lost.resolve_left early⟩, found⟩
  · rintro (⟨path, ok, lost, found⟩ | ⟨path, ok, lost, found⟩)
    · exact ⟨path, ok, Or.inl lost, found⟩
    · exact ⟨path, ok, Or.inr lost.2, found⟩

theorem Cleared.trans {loose : List Nat} {held : Nat → Nat} {marks : List Nat → Prop}
    (space : Space w.pages.mem (w.contexts id) loose held marks) (first : Cleared w t id gone)
    (second : Cleared t u id more) (leafy : ∀ path, gone path → path.length = 4) :
    Cleared w u id fun path => gone path ∨ more path := by
  have later : ∀ pa, Lost t id more pa ↔ ∃ path, NodePath path ∧ (¬ gone path ∧ more path) ∧
      node w.pages.mem (w.contexts id) path = some pa := fun _ => first.lost_later leafy
  -- A page is mapped at one place only, so it is not lost twice.
  have apart : ∀ {pa}, Lost w id gone pa → ¬ ∃ path, NodePath path ∧ (¬ gone path ∧ more path) ∧
      node w.pages.mem (w.contexts id) path = some pa := by
    rintro pa ⟨path, ok, early, found⟩ ⟨other, okOther, late, foundOther⟩
    exact late.1 (space.owned.once path other pa ok okOther found foundOther ▸ early)
  have table : ∀ {path table}, TablePath path → node w.pages.mem (w.contexts id) path = some table →
      node t.pages.mem (t.contexts id) path = some table := by
    intro path table ok found
    have short : ¬ gone path := by
      intro early
      have length := leafy _ early
      have bound := ok.short
      omega
    exact (first.nodes leafy ok.node short).trans found
  constructor
  · exact second.root.trans first.root
  · exact fun pa => (second.window pa).trans (first.window pa)
  · intro path at' slot ok found below still
    rw [second.kept path at' slot ok (table ok found) below fun lost => still (Or.inr lost)]
    exact first.kept path at' slot ok found below fun lost => still (Or.inl lost)
  · intro path at' slot ok found below lost
    by_cases again : more (path ++ [slot])
    · exact second.empty path at' slot ok (table ok found) below again
    · rw [second.kept path at' slot ok (table ok found) below again]
      exact first.empty path at' slot ok found below (lost.resolve_right again)
  · intro pa
    rw [second.pages, first.pages, lost_or, later, not_or, and_assoc]
  · intro pa managed lost
    have managedT := (first.window pa).mpr managed
    rcases lost_or.mp lost with early | late
    · rw [second.same pa managedT fun again => apart early ((later pa).mp again)]
      exact first.dropped pa managed early
    · rw [second.dropped pa managedT ((later pa).mpr late)]
      exact first.same pa managed fun early => apart early late
  · intro pa managed still
    rw [lost_or, not_or] at still
    rw [second.same pa ((first.window pa).mpr managed) fun lost => still.2 ((later pa).mp lost)]
    exact first.same pa managed still.1

theorem Cleared.refl (vacant : ∀ path table slot, TablePath path →
      node w.pages.mem (w.contexts id) path = some table → slot < 512 → gone (path ++ [slot]) →
      ¬ Valid (w.load (table + 8 * slot)))
    (unlost : ∀ pa, ¬ Lost w id gone pa) : Cleared w w id gone where
  root := rfl
  window _ := Iff.rfl
  kept _ _ _ _ _ _ _ := rfl
  empty := vacant
  pages pa := ⟨fun listed => ⟨listed, unlost pa⟩, fun listed => listed.1⟩
  dropped pa _ lost := absurd lost (unlost pa)
  same _ _ _ := rfl

/-- Clearing the first entry of a level 3 table, with the page it maps. -/
theorem unlinkFirst_cleared (inv : Inv foreign marked w [] id []) (live : id ∈ w.live)
    {place : List Nat} {table : Nat} (ok : TablePath place) (leaf : place.length = 3)
    (found : node w.pages.mem (w.contexts id) place = some table)
    (valid : Valid (w.load table)) :
    Cleared w (((w.store table 0#64).removePage id (descAddr (w.load table))).setPages
      (pageRefDec (w.store table 0#64).pages (descAddr (w.load table))).2) id (· = place ++ [0]) := by
  have space := inv.space live
  have zeroth : table + 8 * 0 = table := rfl
  have below : 0 < 512 := by decide
  have isTable : IsTable (w.load (table + 8 * 0)) := space.typed place table 0 ok found below valid
  have mapped := (node_snoc 0 found).trans (child_of_isTable isTable)
  have okHere := ok.snoc below
  have listed := (space.owned.nodes _ _ okHere mapped).1
  have address := space.addresses _ listed
  have unlinked := inv.unlink live ok leaf found below isTable
  have counted := unlinked.1.counted _ (held_pos_of_inHand List.mem_cons_self)
  have dropped := PageAlloc.pageRefDec_dropped unlinked.1.alloc counted.1 counted.2.1
  have removed : ((w.store table 0#64).removePage id (descAddr (w.load table))).contexts id =
      (w.contexts id).withPages ((w.contexts id).pages.erase (descAddr (w.load table))) :=
    removePage_same (inv.positive live listed)
  have lost : ∀ {pa}, Lost w id (· = place ++ [0]) pa ↔ pa = descAddr (w.load table) := by
    intro pa
    constructor
    · rintro ⟨path, _, rfl, foundPa⟩
      exact Option.some.inj (foundPa.symm.trans mapped)
    · rintro rfl
      exact ⟨_, okHere, rfl, mapped⟩
  -- Dropping the reference can write the free-list link into the page, never into a table.
  have words : ∀ {path other slot}, TablePath path →
      node w.pages.mem (w.contexts id) path = some other → slot < 512 →
      (pageRefDec (w.store table 0#64).pages (descAddr (w.load table))).2.mem (other + 8 * slot) =
        (w.pages.mem.set table 0#64) (other + 8 * slot) := by
    intro path other slot okPath foundPath belowSlot
    apply dropped.frame
    intro same
    have aligned : 4096 ∣ other :=
      (space.addresses other (space.owned.nodes path other okPath.node foundPath).1).aligned
    have alignedPage : 4096 ∣ descAddr (w.load table) := address.aligned
    have samePage : other = descAddr (w.load table) := by
      change other + 8 * slot = descAddr (w.load table) at same
      omega
    have paths := space.owned.once path _ _ okPath.node okHere foundPath (samePage ▸ mapped)
    have short := okPath.short
    rw [paths, List.length_append, List.length_singleton] at short
    omega
  have refs : ∀ pa, Managed w.pages pa →
      (((w.store table 0#64).removePage id (descAddr (w.load table))).setPages
        (pageRefDec (w.store table 0#64).pages (descAddr (w.load table))).2).pages.refAt pa =
      if pa = descAddr (w.load table) then w.pages.refAt (descAddr (w.load table)) - 1
      else w.pages.refAt pa := dropped.refs
  constructor
  · show (((w.store table 0#64).removePage id (descAddr (w.load table))).contexts id).rootPa = _
    rw [removed]
    rfl
  · exact dropped.same.managed_iff
  · intro path other slot okPath foundPath belowSlot elsewhere
    apply (words okPath foundPath belowSlot).trans
    apply Mem.set_other
    intro same
    have parts := Radix.slot_once (space.dvd other (space.owned.nodes path other okPath.node foundPath).1)
      (space.dvd table (space.owned.nodes place table ok.node found).1) belowSlot below same
    apply elsewhere
    rw [parts.2, space.owned.once path place table okPath.node ok.node (parts.1 ▸ foundPath) found]
  · intro path other slot okPath foundPath belowSlot here
    obtain ⟨rfl, samePath⟩ := List.append_inj' here rfl
    cases Option.some.inj (foundPath.symm.trans found)
    cases List.singleton_inj.mp samePath
    show ¬ Valid ((pageRefDec (w.store table 0#64).pages (descAddr (w.load table))).2.mem
      (table + 8 * 0))
    rw [words okPath found below, zeroth, Mem.set_same]
    exact not_valid_zero
  · intro pa
    show pa ∈ (((w.store table 0#64).removePage id (descAddr (w.load table))).contexts id).pages ↔ _
    rw [removed, MmContext.withPages_pages, space.owned.nodup.mem_erase_iff, lost, and_comm]
  · intro pa managed gone
    have positive : 1 ≤ w.pages.refAt (descAddr (w.load table)) :=
      (unlinked.1.alloc.core.refs _ counted.1 counted.2.1).1
    rw [refs pa managed, if_pos (lost.mp gone), lost.mp gone, Nat.sub_add_cancel positive]
  · intro pa managed still
    exact (refs pa managed).trans (if_neg fun same => still (lost.mpr same))

/-- The loop body of `mmu_unmap_user_range` clears the first entry of the level 3 table. -/
theorem unmapAt_cleared (inv : Inv foreign marked w [] id []) (live : id ∈ w.live) (curr : Nat) :
    Cleared w (unmapAt id w curr) id (· = tablePathOf curr ++ [0]) := by
  have ok := tablePathOf_ok curr
  have sameTable : ∀ {path table slot other}, path ++ [slot] = tablePathOf curr ++ [0] →
      node w.pages.mem (w.contexts id) path = some table →
      node w.pages.mem (w.contexts id) (tablePathOf curr) = some other → table = other ∧ slot = 0 := by
    intro path table slot other same found foundOther
    have parts := List.append_inj' same rfl
    rw [parts.1, foundOther] at found
    exact ⟨(Option.some.inj found).symm, List.singleton_inj.mp parts.2⟩
  unfold unmapAt
  rw [findPte_look inv live curr]
  cases found : node w.pages.mem (w.contexts id) (tablePathOf curr) with
  | none =>
    apply Cleared.refl
    · intro path table slot _ foundPath _ same
      rw [(List.append_inj' same rfl).1, found] at foundPath
      cases foundPath
    · rintro pa ⟨path, _, rfl, foundPath⟩
      rw [node_beyond found] at foundPath
      cases foundPath
  | some table =>
    dsimp only
    split
    · rename_i valid
      exact unlinkFirst_cleared inv live ok rfl found valid
    · rename_i invalid
      apply Cleared.refl
      · intro path other slot _ foundPath _ same
        obtain ⟨rfl, rfl⟩ := sameTable same foundPath found
        exact invalid
      · rintro pa ⟨path, _, rfl, foundPath⟩
        rw [node_snoc 0 found] at foundPath
        exact invalid (child_eq_some.mp foundPath).1.valid

/-- The loop of `mmu_unmap_user_range`. -/
theorem unmapPages_cleared (curr : List Nat) : ∀ {w : World}, Inv foreign marked w [] id [] →
    id ∈ w.live → Cleared w (curr.foldl (unmapAt id) w) id
      fun path => ∃ p ∈ curr, path = tablePathOf p ++ [0] := by
  induction curr with
  | nil =>
    intro w inv _
    apply Cleared.refl
    · rintro path table slot _ _ _ ⟨p, member, _⟩
      cases member
    · rintro pa ⟨path, _, ⟨p, member, _⟩, _⟩
      cases member
  | cons p rest ih =>
    intro w inv live
    have first := unmapAt_spec inv live p
    have head := unmapAt_cleared inv live p
    have tail := ih first.inv (first.live ▸ live)
    have both := head.trans (inv.space live) tail fun path same => by rw [same]; rfl
    have paths : (fun path => path = tablePathOf p ++ [0] ∨ ∃ q ∈ rest, path = tablePathOf q ++ [0])
        = fun path => ∃ q ∈ p :: rest, path = tablePathOf q ++ [0] := by
      funext path
      simp only [List.mem_cons, exists_eq_or_imp]
    rw [paths] at both
    exact both

end Cleared

section Range

/-- `p` is one of the pages of `[va, va + len)`, rounded out. -/
def InRange (va len p : Nat) : Prop := ∃ a, va ≤ a ∧ a < va + len ∧ p = 4096 * (a / 4096)

/-- A page of the range is mapped to `pa`. -/
def MappedIn (w : World) (id va len pa : Nat) : Prop :=
  ∃ p entry, InRange va len p ∧
    resolveUserPage w.pages.mem (w.contexts id) p = some (pa, entry)

/-- What unmapping a range is meant to do: the pages of the range are gone, everything else
resolves as before, and exactly the pages that were mapped in the range are given up. -/
structure ExactUnmap (w t : World) (id va len : Nat) : Prop where
  gone : ∀ p, InRange va len p → resolveUserPage t.pages.mem (t.contexts id) p = none
  kept : ∀ p < 2 ^ 48, 4096 ∣ p → ¬ InRange va len p →
    resolveUserPage t.pages.mem (t.contexts id) p = resolveUserPage w.pages.mem (w.contexts id) p
  pages : ∀ pa, pa ∈ (t.contexts id).pages ↔
    pa ∈ (w.contexts id).pages ∧ ¬ MappedIn w id va len pa
  dropped : ∀ pa, MappedIn w id va len pa → t.pages.refAt pa + 1 = w.pages.refAt pa
  same : ∀ pa, Managed w.pages pa → ¬ MappedIn w id va len pa →
    t.pages.refAt pa = w.pages.refAt pa

/-- The first page of the 2 MiB that one level 3 table maps. -/
def blockStart (p : Nat) : Nat := 2 ^ 21 * (p % 2 ^ 48 / 2 ^ 21)

/-- The mapped pages of the range are first pages of their level 3 tables, and so is no mapped
page next to the range. -/
def FirstPagesOnly (w : World) (id va len : Nat) : Prop :=
  ∀ p, InRange va len p →
    ((resolveUserPage w.pages.mem (w.contexts id) p).isSome = true → l3Index p = 0) ∧
    ((resolveUserPage w.pages.mem (w.contexts id) (blockStart p)).isSome = true →
      InRange va len (blockStart p))

theorem pathOf_blockStart (p : Nat) : pathOf (blockStart p) = tablePathOf p ++ [0] := by
  have l0 : l0Index (blockStart p) = l0Index p := by unfold l0Index blockStart; omega
  have l1 : l1Index (blockStart p) = l1Index p := by unfold l1Index blockStart; omega
  have l2 : l2Index (blockStart p) = l2Index p := by unfold l2Index blockStart; omega
  have l3 : l3Index (blockStart p) = 0 := by unfold l3Index blockStart; omega
  unfold pathOf tablePathOf
  rw [l0, l1, l2, l3]

theorem eq_blockStart {p q : Nat} (bound : p < 2 ^ 48) (aligned : 4096 ∣ p)
    (same : pathOf p = tablePathOf q ++ [0]) : p = blockStart q := by
  rw [← pathOf_blockStart] at same
  unfold pathOf tablePathOf at same
  simp only [List.cons_append, List.nil_append, List.cons.injEq, and_true] at same
  unfold l0Index l1Index l2Index l3Index blockStart at same
  unfold blockStart
  omega

/-- Without overflow the loop visits the pages of the range. -/
theorem unmapUserRange_loop {w : World} {id va len : Nat} (fits : va + len + 4095 < 2 ^ 64) :
    ∃ curr : List Nat, unmapUserRange w id va len = curr.foldl (unmapAt id) w ∧
      ∀ p, p ∈ curr ↔ InRange va len p := by
  unfold unmapUserRange
  split
  · refine ⟨[], rfl, fun p => ⟨fun member => (nomatch member), ?_⟩⟩
    rintro ⟨a, lower, upper, _⟩
    omega
  · have stop : Word64.add (Word64.add va len) 4095 = va + len + 4095 := by
      rw [Word64.add_of_lt (by rw [Word64.add_of_lt (by omega)]; omega), Word64.add_of_lt (by omega)]
    refine ⟨_, rfl, fun p => ?_⟩
    rw [stop, mem_pagesFrom]
    unfold Word64.alignDown
    constructor
    · rintro ⟨offset, below, rfl⟩
      -- The first page may start before the range.
      by_cases first : offset = 0
      · exact ⟨va, by omega, by omega, by omega⟩
      · exact ⟨4096 * (va / 4096 + offset), by omega, by omega, by omega⟩
    · rintro ⟨a, lower, upper, rfl⟩
      exact ⟨a / 4096 - va / 4096, by omega, by omega⟩

variable {foreign : Nat → Prop} {marked : Nat → List Nat → Prop} {w t : World} {id va len : Nat}

/-- The paths `mmu_unmap_user_range` clears. -/
def clearedPath (va len : Nat) (path : List Nat) : Prop :=
  ∃ p, InRange va len p ∧ path = tablePathOf p ++ [0]

theorem clearedPath_leaf (path : List Nat) (cleared : clearedPath va len path) : path.length = 4 := by
  obtain ⟨p, _, rfl⟩ := cleared
  rfl

theorem unmapUserRange_cleared (inv : Inv foreign marked w [] id []) (live : id ∈ w.live)
    (fits : va + len + 4095 < 2 ^ 64) :
    Cleared w (unmapUserRange w id va len) id (clearedPath va len) := by
  obtain ⟨curr, loop, members⟩ := unmapUserRange_loop fits
  have cleared := unmapPages_cleared curr inv live
  have paths : (fun path => ∃ p ∈ curr, path = tablePathOf p ++ [0]) = clearedPath va len := by
    funext path
    unfold clearedPath
    simp only [members]
  rw [loop, ← paths]
  exact cleared

/-- A page of the range is cleared only if it is the first of its table. -/
theorem clearedPath_pathOf {p : Nat} (inside : InRange va len p) :
    clearedPath va len (pathOf p) ↔ l3Index p = 0 := by
  constructor
  · rintro ⟨q, _, same⟩
    exact List.singleton_inj.mp (List.append_inj' same rfl).2
  · intro first
    refine ⟨p, inside, ?_⟩
    unfold pathOf
    rw [first]

/-- Addresses whose path is not cleared resolve as before, the others not at all. -/
theorem Cleared.resolve {gone : List Nat → Prop} (cleared : Cleared w t id gone)
    (leafy : ∀ path, gone path → path.length = 4) (p : Nat) :
    (gone (pathOf p) → resolveUserPage t.pages.mem (t.contexts id) p = none) ∧
    (¬ gone (pathOf p) → resolveUserPage t.pages.mem (t.contexts id) p =
      resolveUserPage w.pages.mem (w.contexts id) p) := by
  constructor
  · intro lost
    exact resolveUserPage_none.mpr (cleared.vacated leafy (tablePathOf_ok p) (l3Index_lt p) lost)
  · intro still
    have ok := tablePathOf_ok p
    have short : ¬ gone (tablePathOf p) :=
      fun lost => absurd (leafy _ lost) (show ¬ 3 = 4 by decide)
    have same := cleared.nodes leafy ok.node short
    change (Option.map _ (node t.pages.mem (t.contexts id) (tablePathOf p))).bind _ =
      (Option.map _ (node w.pages.mem (w.contexts id) (tablePathOf p))).bind _
    rw [same]
    cases found : node w.pages.mem (w.contexts id) (tablePathOf p) with
    | none => rfl
    | some table =>
      have word := cleared.kept _ table _ ok found (l3Index_lt p) still
      simp only [Option.map_some, Option.bind_some]
      rw [show t.pages.mem (table + 8 * l3Index p) = w.pages.mem (table + 8 * l3Index p) from word]

theorem resolved_iff {m : Mem} {mm : MmContext} {p pa : Nat} :
    (∃ entry, resolveUserPage m mm p = some (pa, entry)) ↔ node m mm (pathOf p) = some pa := by
  have forward : ∀ {pa entry}, resolveUserPage m mm p = some (pa, entry) →
      node m mm (pathOf p) = some pa := by
    intro pa entry resolved
    obtain ⟨table, found, same, isTable, rfl⟩ := resolveUserPage_some.mp resolved
    rw [node_pathOf found, ← same, child_of_isTable isTable]
  constructor
  · rintro ⟨entry, resolved⟩
    exact forward resolved
  · intro mapped
    cases resolved : resolveUserPage m mm p with
    | none =>
      rw [resolveUserPage_none.mp resolved] at mapped
      cases mapped
    | some page =>
      cases Option.some.inj (mapped.symm.trans (forward resolved))
      exact ⟨page.2, rfl⟩

theorem resolved_isSome {m : Mem} {mm : MmContext} {p pa : Nat}
    (mapped : node m mm (pathOf p) = some pa) : (resolveUserPage m mm p).isSome = true := by
  obtain ⟨entry, resolved⟩ := resolved_iff.mpr mapped
  rw [resolved]
  rfl

/-- The condition makes the cleared pages the mapped pages of the range. -/
theorem lost_iff_mappedIn (only : FirstPagesOnly w id va len) (pa : Nat) :
    Lost w id (clearedPath va len) pa ↔ MappedIn w id va len pa := by
  constructor
  · rintro ⟨path, _, ⟨p, inside, rfl⟩, mapped⟩
    rw [← pathOf_blockStart] at mapped
    obtain ⟨entry, resolved⟩ := resolved_iff.mpr mapped
    exact ⟨blockStart p, entry, (only p inside).2 (resolved_isSome mapped), resolved⟩
  · rintro ⟨p, entry, inside, resolved⟩
    have mapped := resolved_iff.mp ⟨entry, resolved⟩
    have first := (only p inside).1 (resolved_isSome mapped)
    exact ⟨pathOf p, pathOf_ok p, (clearedPath_pathOf inside).mpr first, mapped⟩

/-- `mmu_unmap_user_range` unmaps a range exactly when the range's mapped pages are the first
pages of the 2 MiB blocks it touches: the entry it clears is always the first of the table. -/
theorem unmapUserRange_exact (inv : Inv foreign marked w [] id []) (live : id ∈ w.live)
    (fits : va + len + 4095 < 2 ^ 64) :
    ExactUnmap w (unmapUserRange w id va len) id va len ↔ FirstPagesOnly w id va len := by
  have cleared := unmapUserRange_cleared inv live fits
  have resolve := cleared.resolve clearedPath_leaf
  constructor
  · intro exact' p inside
    constructor
    · intro mapped
      by_contra notFirst
      have still : ¬ clearedPath va len (pathOf p) := fun gone =>
        notFirst ((clearedPath_pathOf inside).mp gone)
      rw [← (resolve p).2 still, exact'.gone p inside] at mapped
      cases mapped
    · intro mapped
      by_contra outside
      have gone : clearedPath va len (pathOf (blockStart p)) := ⟨p, inside, pathOf_blockStart p⟩
      have bound : blockStart p < 2 ^ 48 := by unfold blockStart; omega
      have aligned : 4096 ∣ blockStart p := by unfold blockStart; omega
      rw [← exact'.kept _ bound aligned outside, (resolve _).1 gone] at mapped
      cases mapped
  · intro only
    have lost := lost_iff_mappedIn only
    constructor
    · intro p inside
      by_cases gone : clearedPath va len (pathOf p)
      · exact (resolve p).1 gone
      · rw [(resolve p).2 gone]
        by_contra mapped
        exact gone ((clearedPath_pathOf inside).mpr
          ((only p inside).1 (Option.isSome_iff_ne_none.mpr mapped)))
    · intro p bound aligned outside
      by_cases gone : clearedPath va len (pathOf p)
      · rw [(resolve p).1 gone]
        obtain ⟨q, inside, same⟩ := gone
        have start := eq_blockStart bound aligned same
        by_contra mapped
        exact outside (start ▸ (only q inside).2
          (start ▸ Option.isSome_iff_ne_none.mpr (Ne.symm mapped)))
      · exact (resolve p).2 gone
    · intro pa
      rw [cleared.pages, lost]
    · intro pa mapped
      have gone := (lost pa).mpr mapped
      obtain ⟨path, ok, _, found⟩ := gone
      have listed := ((inv.space live).owned.nodes path pa ok found).1
      exact cleared.dropped pa (inv.managed_of_listed live listed).1 ((lost pa).mpr mapped)
    · intro pa managed notMapped
      exact cleared.same pa managed fun gone => notMapped ((lost pa).mp gone)

/-- A context with one mapped page. -/
def onePage (va : Nat) : List Event := [.create (some 1), .fault sampleLayout 1 va 0x04]

theorem inRange_page {p q : Nat} (aligned : 4096 ∣ p) : InRange p 4096 q ↔ q = p := by
  constructor
  · rintro ⟨a, lower, upper, rfl⟩
    omega
  · rintro rfl
    exact ⟨q, by omega, by omega, by omega⟩

/-- The first page of a 2 MiB block is unmapped as intended. -/
theorem unmapUserRange_exact_first :
    ∃ s, Transition.run step (booted (PageAlloc.init eightPages (fun _ => 0) true))
        (onePage 0x400000) = some s ∧
      (resolveUserPage s.world.pages.mem (s.world.contexts 1) 0x400000).isSome = true ∧
      ExactUnmap s.world (unmapUserRange s.world 1 0x400000 4096) 1 0x400000 4096 := by
  refine Transition.ends_imp (Q := fun s => 1 ∈ s.live ∧
    (resolveUserPage s.world.pages.mem (s.world.contexts 1) 0x400000).isSome = true)
    (by decide +kernel) ?_
  rintro s ran ⟨live, present⟩
  have sound := reachable_sound (.of_ran (booted_boot _ _ _) ran)
  refine ⟨present, (unmapUserRange_exact (sound.inv 1) live (by decide)).mpr fun p inside => ?_⟩
  have page := (inRange_page (by decide)).mp inside
  subst page
  exact ⟨fun _ => rfl, fun _ => inside⟩

/-- The second page of a 2 MiB block survives being unmapped. -/
theorem unmapUserRange_second_page :
    ∃ s, Transition.Reachable Boot step Transition.always s ∧ 1 ∈ s.live ∧
      ¬ ExactUnmap s.world (unmapUserRange s.world 1 0x401000 4096) 1 0x401000 4096 := by
  obtain ⟨s, ran, live, present⟩ : ∃ s, Transition.run step
      (booted (PageAlloc.init eightPages (fun _ => 0) true)) (onePage 0x401000) = some s ∧
      1 ∈ s.live ∧ resolveUserPage (unmapUserRange s.world 1 0x401000 4096).pages.mem
        ((unmapUserRange s.world 1 0x401000 4096).contexts 1) 0x401000 ≠ none := by
    decide +kernel
  refine ⟨s, .of_ran (booted_boot _ _ _) ran, live, fun exact' => present ?_⟩
  exact exact'.gone 0x401000 ((inRange_page (by decide)).mpr rfl)

end Range

end OsArmv8a.Mmu
