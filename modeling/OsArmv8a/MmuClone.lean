import OsArmv8a.MmuLifetime

/-! `mmu_clone_walk_locked` and `mmu_context_clone`: the new context maps the pages of the
source at the same addresses, and both map them read-only. -/

set_option autoImplicit false

namespace OsArmv8a.Mmu

open PageAlloc (pageAlloc pageFree pageRefInc)

/-- The pages the destination maps are where the source maps them. -/
def Matched (src dst : Nat) (w : World) : Prop :=
  ∀ path pa, NodePath path → path.length = 4 →
    node w.pages.mem (w.contexts dst) path = some pa →
    node w.pages.mem (w.contexts src) path = some pa

/-- Below `place` the two contexts map the same pages. -/
def Copied (src dst : Nat) (place : List Nat) (w : World) : Prop :=
  ∀ path, NodePath path → path.length = 4 → place <+: path →
    node w.pages.mem (w.contexts dst) path = node w.pages.mem (w.contexts src) path

/-- What holds between the steps of a clone walk. -/
structure Cloning (foreign : Nat → Prop) (marked : Nat → List Nat → Prop) (src dst : Nat)
    (w : World) : Prop where
  inv : Inv foreign marked w [] dst []
  liveSrc : src ∈ w.live
  liveDst : dst ∈ w.live
  different : src ≠ dst
  matched : Matched src dst w

/-- What a part of a clone walk does: it gives the destination new tables and pages at touched
paths only, and no other context and no page contents change. -/
structure Cloned (foreign : Nat → Prop) (marked : Nat → List Nat → Prop) (src dst : Nat)
    (touched : List Nat → Prop) (w t : World) : Prop where
  after : Cloning foreign marked src dst t
  live : t.live = w.live
  others : ∀ id ∈ w.live, id ≠ src → id ≠ dst → Undisturbed w t id
  sources : ∀ path, NodePath path → node t.pages.mem (t.contexts src) path =
    node w.pages.mem (w.contexts src) path
  data : ∀ path pa, NodePath path → path.length = 4 →
    node w.pages.mem (w.contexts src) path = some pa →
    ∀ a, pa ≤ a → a < pa + 4096 → t.pages.mem a = w.pages.mem a
  targets : ∀ path, NodePath path → ¬ touched path → node t.pages.mem (t.contexts dst) path =
    node w.pages.mem (w.contexts dst) path

section Walk

variable {foreign : Nat → Prop} {marked : Nat → List Nat → Prop} {src dst : Nat} {w t u : World}
  {touched wider : List Nat → Prop} {place : List Nat} {srcTable dstTable slot : Nat} {done : Bool}

theorem Cloned.refl (before : Cloning foreign marked src dst w) (touched : List Nat → Prop) :
    Cloned foreign marked src dst touched w w :=
  ⟨before, rfl, fun _ member _ _ => .refl member, fun _ _ => rfl, fun _ _ _ _ _ _ _ _ => rfl,
    fun _ _ _ => rfl⟩

theorem Cloned.weaken (cloned : Cloned foreign marked src dst touched w t)
    (implies : ∀ path, touched path → wider path) : Cloned foreign marked src dst wider w t where
  after := cloned.after
  live := cloned.live
  others := cloned.others
  sources := cloned.sources
  data := cloned.data
  targets path ok untouched := cloned.targets path ok fun inside => untouched (implies path inside)

theorem Cloned.trans (first : Cloned foreign marked src dst touched w t)
    (second : Cloned foreign marked src dst touched t u) :
    Cloned foreign marked src dst touched w u where
  after := second.after
  live := second.live.trans first.live
  others id member notSrc notDst := (first.others id member notSrc notDst).trans
    (second.others id (first.live ▸ member) notSrc notDst)
  sources path ok := (second.sources path ok).trans (first.sources path ok)
  data path pa ok length found a lower upper :=
    (second.data path pa ok length ((first.sources path ok).trans found) a lower upper).trans
      (first.data path pa ok length found a lower upper)
  targets path ok untouched := (second.targets path ok untouched).trans (first.targets path ok untouched)

/-- A step that leaves every context alone. -/
theorem Cloned.of_extended (before : Cloning foreign marked src dst w)
    (extended : Extended foreign marked w t [] dst [])
    (nodes : ∀ path, NodePath path → ¬ touched path → node t.pages.mem (t.contexts dst) path =
      node w.pages.mem (w.contexts dst) path) : Cloned foreign marked src dst touched w t := by
  have source := extended.frame src before.liveSrc before.different
  have spaceSrc := before.inv.spaceOther before.liveSrc before.different
  have sources : ∀ path, NodePath path → node t.pages.mem (t.contexts src) path =
      node w.pages.mem (w.contexts src) path := fun path ok => source.node spaceSrc ok
  constructor
  · constructor
    · exact extended.inv
    · exact source.live
    · exact extended.live ▸ before.liveDst
    · exact before.different
    · intro path pa ok length found
      rw [extended.leaves path ok length] at found
      exact (sources path ok).trans (before.matched path pa ok length found)
  · exact extended.live
  · exact fun id member _ notDst => extended.frame id member notDst
  · exact sources
  · intro path pa ok length found
    exact source.words pa (spaceSrc.owned.nodes path pa ok found).1
  · exact nodes

variable {path : List Nat}

/-- A page of the source is not tracked by the destination before its own slot is reached. -/
theorem Cloning.absent (before : Cloning foreign marked src dst w) {pa : Nat} (ok : NodePath path)
    (found : node w.pages.mem (w.contexts src) path = some pa)
    (empty : node w.pages.mem (w.contexts dst) path = none) : pa ∉ (w.contexts dst).pages := by
  intro listed
  have spaceSrc := before.inv.spaceOther before.liveSrc before.different
  have spaceDst := before.inv.space before.liveDst
  have listedSrc := (spaceSrc.owned.nodes path pa ok found).1
  rcases spaceDst.owned.covered pa listed with loose | ⟨other, okOther, foundOther⟩
  · cases loose
  by_cases full : other.length = 4
  · have again := before.matched other pa okOther full foundOther
    have same := spaceSrc.owned.once other path pa okOther ok again found
    rw [same, empty] at foundOther
    cases foundOther
  · -- A table of the destination has one reference, this page has at least two.
    have okTable : TablePath other := ⟨by have := okOther.short; omega, okOther.slots⟩
    have single := spaceDst.tables other pa okTable foundOther
    have two := two_le_listers before.liveSrc before.liveDst (Ne.symm before.different) listedSrc
      listed
    unfold World.held at single
    omega

/-- A slot whose path leads nowhere holds no entry. -/
theorem Inv.vacant {inHand loose : List Nat} {active table : Nat}
    (inv : Inv foreign marked w inHand active loose) (live : active ∈ w.live)
    (ok : TablePath place) (found : node w.pages.mem (w.contexts active) place = some table)
    (below : slot < 512) (empty : node w.pages.mem (w.contexts active) (place ++ [slot]) = none) :
    ¬ Valid (w.load (table + 8 * slot)) := by
  intro valid
  have isTable := (inv.space live).typed place table slot ok found below valid
  rw [node_snoc slot found, child_of_isTable isTable] at empty
  cases empty

/-- Sharing one page, as a step of the walk. -/
theorem Sharing.cloned (sharing : Sharing foreign marked w [] src dst place srcTable dstTable slot)
    (matched : Matched src dst w) :
    Cloned foreign marked src dst (place ++ [slot] <+: ·) w
        (Sharing.after w dst srcTable dstTable slot) ∧
      node (Sharing.after w dst srcTable dstTable slot).pages.mem
          ((Sharing.after w dst srcTable dstTable slot).contexts dst) (place ++ [slot]) =
        node (Sharing.after w dst srcTable dstTable slot).pages.mem
          ((Sharing.after w dst srcTable dstTable slot).contexts src) (place ++ [slot]) := by
  have context : (Sharing.after w dst srcTable dstTable slot).contexts src = w.contexts src :=
    World.setContext_other _ _ sharing.different
  have sources := sharing.source.1
  have targets := sharing.target.1
  have here : node w.pages.mem (w.contexts src) (place ++ [slot]) =
      some (Sharing.page w srcTable slot) :=
    (node_snoc slot sharing.foundSrc).trans (child_of_isTable sharing.isTable)
  have okHere := sharing.ok.snoc sharing.below
  constructor
  · constructor
    · constructor
      · exact sharing.preserved
      · exact sharing.liveSrc
      · exact sharing.liveDst
      · exact sharing.different
      · intro path pa ok length found
        rw [context, sources path ok]
        rw [targets path ok] at found
        split at found
        · rename_i same
          rw [same, here]
          exact found
        · exact matched path pa ok length found
    · rfl
    · exact fun id member notSrc notDst => sharing.undisturbed member notSrc notDst
    · intro path ok
      rw [context]
      exact sources path ok
    · intro path pa ok length found a lower upper
      have listed := (sharing.spaceSrc.owned.nodes path pa ok found).1
      have heldPa : 0 < w.held [] pa := held_pos_of_listed sharing.liveSrc listed
      apply sharing.outside
      · apply sharing.inv.outside (by rw [sharing.srcSingle]; exact Nat.one_pos) heldPa _ lower upper
        intro same
        have paths := sharing.spaceSrc.owned.once place path pa sharing.ok.node ok
          (same ▸ sharing.foundSrc) found
        have leaf := sharing.leaf
        rw [paths] at leaf
        omega
      · exact sharing.inv.outside (by rw [sharing.dstSingle]; exact Nat.one_pos) heldPa
          (fun same => sharing.dstForeign (same ▸ listed)) lower upper
    · intro path ok untouched
      have elsewhere : path ≠ place ++ [slot] :=
        fun same => untouched (same ▸ List.prefix_refl (place ++ [slot]))
      rw [targets path ok, if_neg elsewhere]
  · rw [targets _ okHere, if_pos rfl, context, sources _ okHere, here]

/-- Level 3, one slot. -/
theorem cloneLeaf_spec (before : Cloning foreign marked src dst w) (ok : TablePath place)
    (leaf : place.length = 3) (foundSrc : node w.pages.mem (w.contexts src) place = some srcTable)
    (foundDst : node w.pages.mem (w.contexts dst) place = some dstTable) (below : slot < 512)
    (empty : node w.pages.mem (w.contexts dst) (place ++ [slot]) = none)
    (result : cloneLeaf dst srcTable dstTable slot w = (done, t)) :
    Cloned foreign marked src dst (place ++ [slot] <+: ·) w t ∧
      (done = true → Copied src dst (place ++ [slot]) t) := by
  have spaceSrc := before.inv.spaceOther before.liveSrc before.different
  have okHere := ok.snoc below
  have length : (place ++ [slot]).length = 4 := by simp [leaf]
  -- At level 3 there is one full path below the slot, the slot's own.
  have copied : ∀ {v : World}, node v.pages.mem (v.contexts dst) (place ++ [slot]) =
      node v.pages.mem (v.contexts src) (place ++ [slot]) → Copied src dst (place ++ [slot]) v := by
    intro v same path okPath full inside
    rw [← inside.eq_of_length (length.trans full.symm)]
    exact same
  unfold cloneLeaf at result
  dsimp only at result
  split at result
  · rename_i invalid
    cases result
    apply And.intro (Cloned.refl before _)
    intro _
    apply copied
    have none : child (w.load (srcTable + 8 * slot)) = none :=
      if_neg fun isTable => invalid isTable.valid
    rw [empty, node_snoc slot foundSrc, none]
  rename_i valid
  have isTable := spaceSrc.typed place srcTable slot ok foundSrc below (not_not.mp valid)
  have found : node w.pages.mem (w.contexts src) (place ++ [slot]) =
      some (descAddr (w.load (srcTable + 8 * slot))) :=
    (node_snoc slot foundSrc).trans (child_of_isTable isTable)
  have absent := before.absent okHere found empty
  split at result
  · cases result
    exact ⟨Cloned.refl before _, fun failed => nomatch failed⟩
  · rename_i u added
    obtain ⟨room, rfl⟩ := addPage_spec absent added
    have sharing : Sharing foreign marked w [] src dst place srcTable dstTable slot :=
      ⟨before.inv, before.liveSrc, before.liveDst, before.different, ok, leaf, foundSrc, foundDst,
        below, isTable, before.inv.vacant before.liveDst ok foundDst below empty, absent, room⟩
    have shared := sharing.cloned before.matched
    cases result
    exact ⟨shared.1, fun _ => copied shared.2⟩

theorem cloneSubTable_eq (entry : BitVec 64) : cloneSubTable dst dstTable slot entry w =
    match allocSubTable w dst with
    | (none, w) => (none, w)
    | (some pa, w) => (some pa, w.store (dstTable + 8 * slot) (clonedTableEntry pa entry)) := by
  unfold cloneSubTable allocSubTable
  cases pageAlloc w.pages with
  | mk taken pages =>
    cases taken with
    | none => rfl
    | some pa =>
      dsimp only
      cases (w.setPages pages).addPage dst pa with
      | none => rfl
      | some u => rfl

/-- Below a place that leads nowhere there is nothing. -/
theorem node_beyond {m : Mem} {mm : MmContext} (none : node m mm path = none) (more : List Nat) :
    node m mm (path ++ more) = .none := by
  unfold node at none ⊢
  rw [Radix.descend_append, none]
  rfl

/-- The table branch above level 3: the destination gets an empty table in the slot. -/
theorem cloneSubTable_spec (before : Cloning foreign marked src dst w) (ok : TablePath place)
    (short : place.length < 3)
    (foundDst : node w.pages.mem (w.contexts dst) place = some dstTable) (below : slot < 512)
    (empty : node w.pages.mem (w.contexts dst) (place ++ [slot]) = none) {entry : BitVec 64}
    (isTable : IsTable entry) {made : Option Nat}
    (result : cloneSubTable dst dstTable slot entry w = (made, t)) :
    Cloned foreign marked src dst (place ++ [slot] <+: ·) w t ∧
      ∀ pa ∈ made, node t.pages.mem (t.contexts dst) (place ++ [slot]) = some pa ∧
        ∀ more < 512, node t.pages.mem (t.contexts dst) (place ++ [slot] ++ [more]) = none := by
  have inv := before.inv
  have live := before.liveDst
  rw [cloneSubTable_eq] at result
  split at result
  · rename_i u failed
    cases result
    have failing := allocSubTable_none inv live failed
    apply And.intro _ fun pa member => nomatch member
    apply Cloned.of_extended before failing.1.toExtended
    exact fun path okPath _ => (failing.2 dst live).node (inv.space live) okPath
  · rename_i pa u allocated
    cases result
    have vacant := inv.vacant live ok foundDst below empty
    have linked := allocSubTable_link inv live ok short foundDst below vacant allocated
      (isTable_clonedTableEntry.mpr isTable) descAddr_clonedTableEntry
    have elsewhere : ∀ {path}, NodePath path → path ≠ place ++ [slot] →
        node (u.store (dstTable + 8 * slot) (clonedTableEntry pa entry)).pages.mem (u.contexts dst)
          path = node w.pages.mem (w.contexts dst) path :=
      fun okPath other => (linked.2 _ okPath).trans (if_neg other)
    constructor
    · apply Cloned.of_extended before linked.1.toExtended
      intro path okPath untouched
      exact elsewhere okPath fun same => untouched (same ▸ List.prefix_refl (place ++ [slot]))
    · intro other member
      cases Option.some.inj member
      apply And.intro ((linked.2 _ (ok.snoc below)).trans (if_pos rfl))
      intro more inside
      have okTable : TablePath (place ++ [slot]) := by
        constructor
        · simp only [List.length_append, List.length_singleton]
          omega
        · exact (ok.snoc below).slots
      have longer : place ++ [slot] ++ [more] ≠ place ++ [slot] :=
        fun same => by simpa using congrArg List.length same
      exact (elsewhere (okTable.snoc inside) longer).trans (node_beyond empty [more])

theorem slot_prefix_ne {other : Nat} (different : slot ≠ other) (inside : place ++ [slot] <+: path)
    : ¬ place ++ [other] <+: path := by
  intro insideOther
  have same := List.prefix_of_prefix_length_le inside insideOther (by simp)
  have equal := same.eq_of_length (by simp)
  exact different (List.singleton_inj.mp (List.append_cancel_left equal))

/-- A relation that holds across both kinds of steps of the walk. -/
structure WalkRule (foreign : Nat → Prop) (marked : Nat → List Nat → Prop) (src dst : Nat)
    (rel : World → World → Prop) : Prop where
  refl : ∀ w, rel w w
  trans : ∀ {w t u}, rel w t → rel t u → rel w u
  leaf : ∀ {w t : World} {place : List Nat} {srcTable dstTable slot : Nat} {done : Bool},
    Cloning foreign marked src dst w → TablePath place → place.length = 3 →
    node w.pages.mem (w.contexts src) place = some srcTable →
    node w.pages.mem (w.contexts dst) place = some dstTable → slot < 512 →
    node w.pages.mem (w.contexts dst) (place ++ [slot]) = none →
    cloneLeaf dst srcTable dstTable slot w = (done, t) → rel w t
  table : ∀ {w t : World} {place : List Nat} {dstTable slot : Nat} {entry : BitVec 64}
    {made : Option Nat}, Cloning foreign marked src dst w → TablePath place → place.length < 3 →
    node w.pages.mem (w.contexts dst) place = some dstTable → slot < 512 →
    node w.pages.mem (w.contexts dst) (place ++ [slot]) = none → IsTable entry →
    cloneSubTable dst dstTable slot entry w = (made, t) → rel w t

variable {rel : World → World → Prop} {body : Nat → World → Bool × World}

section

variable (rule : WalkRule foreign marked src dst rel) (ok : TablePath place)
  (step : ∀ slot w t done, slot < 512 → Cloning foreign marked src dst w →
    node w.pages.mem (w.contexts src) place = some srcTable →
    node w.pages.mem (w.contexts dst) place = some dstTable →
    node w.pages.mem (w.contexts dst) (place ++ [slot]) = none → body slot w = (done, t) →
    Cloned foreign marked src dst (place ++ [slot] <+: ·) w t ∧
      (done = true → Copied src dst (place ++ [slot]) t) ∧ rel w t)

include rule ok step

/-- The loop over the slots of one table. Each slot touches its own paths only. -/
theorem untilFailure_spec (slots : List Nat) :
    ∀ w, slots.Nodup → (∀ slot ∈ slots, slot < 512) → Cloning foreign marked src dst w →
      node w.pages.mem (w.contexts src) place = some srcTable →
      node w.pages.mem (w.contexts dst) place = some dstTable →
      (∀ slot ∈ slots, node w.pages.mem (w.contexts dst) (place ++ [slot]) = none) →
      untilFailure body slots w = (done, t) →
      Cloned foreign marked src dst (fun path => ∃ slot ∈ slots, place ++ [slot] <+: path) w t ∧
        (done = true → ∀ slot ∈ slots, Copied src dst (place ++ [slot]) t) ∧ rel w t := by
  induction slots with
  | nil =>
    intro w _ _ before _ _ _ result
    cases result
    exact ⟨Cloned.refl before _, (fun _ slot member => nomatch member), rule.refl t⟩
  | cons slot rest ih =>
    intro w nodup below before foundSrc foundDst empty result
    have belowSlot := below slot List.mem_cons_self
    have fresh : ∀ other ∈ rest, slot ≠ other :=
      fun other member same => (List.nodup_cons.mp nodup).1 (same ▸ member)
    unfold untilFailure at result
    split at result
    · rename_i u stopped
      cases result
      have head := step slot w t false belowSlot before foundSrc foundDst
        (empty slot List.mem_cons_self) stopped
      exact ⟨head.1.weaken fun path inside => ⟨slot, List.mem_cons_self, inside⟩,
        (fun failed => nomatch failed), head.2.2⟩
    · rename_i u went
      have head := step slot w u true belowSlot before foundSrc foundDst
        (empty slot List.mem_cons_self) went
      have above : ¬ place ++ [slot] <+: place := by
        intro inside
        have longer := inside.length_le
        rw [List.length_append, List.length_singleton] at longer
        omega
      have tail := ih u (List.nodup_cons.mp nodup).2
        (fun other member => below other (List.mem_cons_of_mem _ member)) head.1.after
        ((head.1.sources place ok.node).trans foundSrc)
        ((head.1.targets place ok.node above).trans foundDst)
        (fun other member => by
          rw [head.1.targets _ (ok.snoc (below other (List.mem_cons_of_mem _ member)))
            fun inside => slot_prefix_ne (fresh other member) inside (List.prefix_refl _)]
          exact empty other (List.mem_cons_of_mem _ member))
        result
      refine ⟨?_, ?_, rule.trans head.2.2 tail.2.2⟩
      · exact (head.1.weaken fun path inside => ⟨slot, List.mem_cons_self, inside⟩).trans
          (tail.1.weaken fun path ⟨other, member, inside⟩ =>
            ⟨other, List.mem_cons_of_mem _ member, inside⟩)
      · intro finished other member
        rcases List.mem_cons.mp member with rfl | member
        · -- The later slots do not touch what this one copied.
          intro path okPath full inside
          rw [tail.1.targets path okPath fun ⟨later, memberLater, insideLater⟩ =>
              slot_prefix_ne (fresh later memberLater) inside insideLater,
            tail.1.sources path okPath]
          exact head.2.1 rfl path okPath full inside
        · exact tail.2.1 finished other member

/-- The loop over all 512 slots copies everything below the table. -/
theorem untilFailure_all (before : Cloning foreign marked src dst w)
    (foundSrc : node w.pages.mem (w.contexts src) place = some srcTable)
    (foundDst : node w.pages.mem (w.contexts dst) place = some dstTable)
    (empty : ∀ slot < 512, node w.pages.mem (w.contexts dst) (place ++ [slot]) = none)
    (result : untilFailure body (List.range 512) w = (done, t)) :
    Cloned foreign marked src dst (place <+: ·) w t ∧ (done = true → Copied src dst place t) ∧
      rel w t := by
  have looped := untilFailure_spec rule ok step (List.range 512) w List.nodup_range
    (fun slot => List.mem_range.mp) before foundSrc foundDst
    (fun slot member => empty slot (List.mem_range.mp member)) result
  refine ⟨?_, ?_, looped.2.2⟩
  · apply looped.1.weaken
    intro path ⟨slot, _, inside⟩
    exact (List.prefix_append place [slot]).trans inside
  · intro finished path okPath full inside
    obtain ⟨rest, rfl⟩ := inside
    cases rest with
    | nil =>
      have short := ok.short
      rw [List.append_nil] at full
      omega
    | cons slot rest =>
      have below : slot < 512 := okPath.slots slot (by simp)
      apply looped.2.1 finished slot (List.mem_range.mpr below) _ okPath full
      exact ⟨rest, by simp⟩

end

/-- `mmu_clone_walk_locked` on a table of the source and an empty table of the destination at
the same place, with whatever else its steps keep. -/
theorem cloneWalk_rule (rule : WalkRule foreign marked src dst rel) (below : Nat) :
    ∀ {w t : World} {place : List Nat} {srcTable dstTable : Nat}
    {done : Bool}, Cloning foreign marked src dst w → TablePath place → place.length + below = 3 →
    node w.pages.mem (w.contexts src) place = some srcTable →
    node w.pages.mem (w.contexts dst) place = some dstTable →
    (∀ slot < 512, node w.pages.mem (w.contexts dst) (place ++ [slot]) = none) →
    cloneWalk dst below srcTable dstTable w = (done, t) →
    Cloned foreign marked src dst (place <+: ·) w t ∧ (done = true → Copied src dst place t) ∧
      rel w t := by
  induction below with
  | zero =>
    intro w t place srcTable dstTable done before ok level foundSrc foundDst empty result
    unfold cloneWalk at result
    apply untilFailure_all rule ok _ before foundSrc foundDst empty result
    intro slot w t done inside before foundSrc foundDst empty result
    have spec := cloneLeaf_spec before ok level foundSrc foundDst inside empty result
    exact ⟨spec.1, spec.2, rule.leaf before ok level foundSrc foundDst inside empty result⟩
  | succ below ih =>
    intro w t place srcTable dstTable done before ok level foundSrc foundDst empty result
    unfold cloneWalk at result
    apply untilFailure_all rule ok _ before foundSrc foundDst empty result
    intro slot w t done inside before foundSrc foundDst empty result
    dsimp only at result
    split at result
    · rename_i isTable
      have okTable : TablePath (place ++ [slot]) := by
        constructor
        · simp only [List.length_append, List.length_singleton]
          omega
        · exact (ok.snoc inside).slots
      have made := fun {next u} (sub : cloneSubTable dst dstTable slot _ w = (next, u)) =>
        cloneSubTable_spec before ok (by omega) foundDst inside empty isTable sub
      have also := fun {next u} (sub : cloneSubTable dst dstTable slot _ w = (next, u)) =>
        rule.table before ok (by omega) foundDst inside empty isTable sub
      split at result
      · rename_i u failed
        cases result
        exact ⟨(made failed).1, (fun finished => nomatch finished), also failed⟩
      · rename_i pa u allocated
        have sub := made allocated
        have table := sub.2 pa rfl
        have foundSub : node u.pages.mem (u.contexts src) (place ++ [slot]) = some _ :=
          (sub.1.sources _ okTable.node).trans
            ((node_snoc slot foundSrc).trans (child_of_isTable isTable))
        have walked := ih sub.1.after okTable
          (by simp only [List.length_append, List.length_singleton]; omega) foundSub table.1
          table.2 result
        exact ⟨sub.1.trans walked.1, walked.2.1, rule.trans (also allocated) walked.2.2⟩
    · rename_i noTable
      cases result
      refine ⟨Cloned.refl before _, ?_, rule.refl w⟩
      intro _ path okPath full inside
      have noneSrc : node w.pages.mem (w.contexts src) (place ++ [slot]) = none :=
        (node_snoc slot foundSrc).trans (if_neg noTable)
      obtain ⟨rest, rfl⟩ := inside
      rw [node_beyond empty, node_beyond noneSrc]

theorem WalkRule.trivial : WalkRule foreign marked src dst fun _ _ => True :=
  ⟨fun _ => .intro, fun _ _ => .intro, fun _ _ _ _ _ _ _ _ => .intro, fun _ _ _ _ _ _ _ _ => .intro⟩

theorem cloneWalk_spec (below : Nat) {w t : World} {place : List Nat} {srcTable dstTable : Nat}
    {done : Bool} (before : Cloning foreign marked src dst w) (ok : TablePath place)
    (level : place.length + below = 3)
    (foundSrc : node w.pages.mem (w.contexts src) place = some srcTable)
    (foundDst : node w.pages.mem (w.contexts dst) place = some dstTable)
    (empty : ∀ slot < 512, node w.pages.mem (w.contexts dst) (place ++ [slot]) = none)
    (result : cloneWalk dst below srcTable dstTable w = (done, t)) :
    Cloned foreign marked src dst (place <+: ·) w t ∧ (done = true → Copied src dst place t) := by
  have walked := cloneWalk_rule .trivial below before ok level foundSrc foundDst empty result
  exact ⟨walked.1, walked.2.1⟩

end Walk

section Life

variable {w t : World} (dst : Nat)

/-- The reference count and the CPU mask of a context are not the walk's business. -/
def KeepsLife (id : Nat) (w t : World) : Prop := (t.contexts id).life = (w.contexts id).life

theorem addPage_life {dst pa : Nat} (added : w.addPage dst pa = some t) : KeepsLife dst w t := by
  obtain ⟨mm, found, rfl⟩ := Option.map_eq_some_iff.mp added
  unfold KeepsLife
  rw [World.setContext_same]
  unfold MmContext.addPage at found
  split at found
  · cases found
  split at found
  · cases Option.some.inj found
    rfl
  split at found
  · cases found
  · cases Option.some.inj found
    rfl

theorem cloneLeaf_life (srcTable dstTable slot : Nat) (w : World) :
    KeepsLife dst w (cloneLeaf dst srcTable dstTable slot w).2 := by
  unfold cloneLeaf
  dsimp only
  split
  · rfl
  split
  · rfl
  · rename_i u added
    have life := addPage_life added
    exact life

theorem cloneSubTable_life (dstTable slot : Nat) (entry : BitVec 64) (w : World) :
    KeepsLife dst w (cloneSubTable dst dstTable slot entry w).2 := by
  unfold cloneSubTable
  split
  · rfl
  split
  · rfl
  · rename_i u added
    have life := addPage_life added
    exact life

theorem untilFailure_life {dst : Nat} {body : Nat → World → Bool × World}
    (step : ∀ slot w, KeepsLife dst w (body slot w).2) (slots : List Nat) :
    ∀ w, KeepsLife dst w (untilFailure body slots w).2 := by
  induction slots with
  | nil => exact fun w => rfl
  | cons slot rest ih =>
    intro w
    have head := step slot w
    unfold untilFailure
    split
    · rename_i u stopped
      rw [stopped] at head
      exact head
    · rename_i u went
      rw [went] at head
      exact (ih u).trans head

theorem cloneWalk_life (below : Nat) : ∀ srcTable dstTable w,
    KeepsLife dst w (cloneWalk dst below srcTable dstTable w).2 := by
  induction below with
  | zero => exact fun srcTable dstTable => untilFailure_life (cloneLeaf_life dst srcTable dstTable) _
  | succ below ih =>
    intro srcTable dstTable
    apply untilFailure_life
    intro slot w
    dsimp only
    split
    · have sub := cloneSubTable_life dst dstTable slot (w.load (srcTable + 8 * slot)) w
      split
      · rename_i u failed
        rw [failed] at sub
        exact sub
      · rename_i pa u made
        rw [made] at sub
        exact (ih _ _ u).trans sub
    · rfl

end Life

section Context

variable {foreign : Nat → Prop} {marked : Nat → List Nat → Prop} {w t u : World} {active : Nat}

/-- A context maps the same pages at the same addresses, with the same contents. -/
structure SameView (w t : World) (id : Nat) : Prop where
  leaves : ∀ path, NodePath path → path.length = 4 →
    node t.pages.mem (t.contexts id) path = node w.pages.mem (w.contexts id) path
  data : ∀ path pa, NodePath path → path.length = 4 →
    node w.pages.mem (w.contexts id) path = some pa →
    ∀ a, pa ≤ a → a < pa + 4096 → t.pages.mem a = w.pages.mem a

variable {id : Nat}

theorem SameView.trans (first : SameView w t id) (second : SameView t u id) :
    SameView w u id where
  leaves path ok full := (second.leaves path ok full).trans (first.leaves path ok full)
  data path pa ok full found a lower upper :=
    (second.data path pa ok full ((first.leaves path ok full).trans found) a lower upper).trans
      (first.data path pa ok full found a lower upper)

theorem Undisturbed.view {inHand loose : List Nat} (same : Undisturbed w t id)
    (inv : Inv foreign marked w inHand active loose) (member : id ∈ w.live) : SameView w t id where
  leaves _ ok _ := same.node (inv.spaces id member) ok
  data _ pa ok _ found := same.words pa ((inv.spaces id member).owned.nodes _ pa ok found).1

variable {src : Nat}

/-- The clone walk shows in no context but the new one. -/
theorem Cloned.view {dst : Nat} {touched : List Nat → Prop}
    (cloned : Cloned foreign marked src dst touched w t) (before : Cloning foreign marked src dst w)
    (member : id ∈ w.live) (other : id ≠ dst) : SameView w t id := by
  by_cases source : id = src
  · subst source
    exact ⟨fun path ok _ => cloned.sources path ok, cloned.data⟩
  · exact (cloned.others id member source other).view before.inv member

/-- A new context maps nothing. -/
theorem Created.empty (created : Created w t id) {slot : Nat} (below : slot < 512) (more : List Nat)
    : node t.pages.mem (t.contexts id) (slot :: more) = none := by
  have first : node t.pages.mem (t.contexts id) [slot] = none := by
    rw [show [slot] = [] ++ [slot] from rfl, node_snoc slot (node_root _ _)]
    show child (t.load ((t.contexts id).rootPa + 8 * slot)) = none
    rw [created.clear slot below, child_zero]
  exact node_beyond first more

theorem Created.cloning {dst : Nat} (created : Created w t dst)
    (inv : Inv foreign marked t [] dst []) (member : src ∈ w.live) (fresh : dst ∉ w.live) :
    Cloning foreign marked src dst t where
  inv := inv
  liveSrc := created.live ▸ List.mem_cons_of_mem _ member
  liveDst := created.live ▸ List.mem_cons_self
  different same := fresh (same ▸ member)
  matched := by
    intro path pa ok full found
    cases path with
    | nil => cases full
    | cons slot more =>
      rw [created.empty (ok.slots slot List.mem_cons_self) more] at found
      cases found

/-- What `mmu_context_clone` leaves behind. -/
structure CloneResult (w t : World) (src : Nat) (made : Option Nat) : Prop where
  views : ∀ id ∈ w.live, id ∈ t.live ∧ SameView w t id
  others : ∀ id ∈ w.live, id ≠ src → Undisturbed w t id
  live : t.live = made.toList ++ w.live
  copied : ∀ dst ∈ made, Copied src dst [] t

/-- `mmu_context_clone`. -/
theorem contextClone_spec (inv : Inv foreign marked w [] active []) (member : src ∈ w.live)
    {block made : Option Nat} (fresh : ∀ id ∈ block, id ∉ w.live)
    (result : contextClone w src block = (made, t)) :
    Inv foreign marked t [] active [] ∧ CloneResult w t src made := by
  unfold contextClone at result
  split at result
  · rename_i v failed
    cases result
    have failing := contextCreate_none inv failed
    apply And.intro failing.1
    exact ⟨fun id live => ⟨(failing.2.1 id live).live, (failing.2.1 id live).view inv live⟩,
      fun id live _ => failing.2.1 id live, failing.2.2, fun dst none => nomatch none⟩
  rename_i dst v succeeded
  have creation := contextCreate_some inv fresh succeeded
  have created := creation.2.1
  have unused : dst ∉ w.live := fresh dst creation.2.2
  have cloning := created.cloning creation.1 member unused
  have empty : ∀ slot < 512, node v.pages.mem (v.contexts dst) ([] ++ [slot]) = none :=
    fun slot below => created.empty below []
  have walked := fun {done u} (run : cloneWalk dst 3 (v.contexts src).rootPa (v.contexts dst).rootPa
      v = (done, u)) =>
    cloneWalk_spec 3 cloning tablePath_nil rfl (node_root _ _) (node_root _ _) empty run
  have notNew : ∀ {id}, id ∈ w.live → id ≠ dst := fun live same => unused (same ▸ live)
  have liveV : ∀ {id}, id ∈ w.live → id ∈ v.live :=
    fun live => created.live ▸ List.mem_cons_of_mem _ live
  split at result
  · rename_i u finished
    cases result
    have walk := walked finished
    apply And.intro (walk.1.after.inv.activate active)
    constructor
    · intro id live
      exact ⟨walk.1.live ▸ liveV live, ((created.quiet id live).view inv live).trans
        (walk.1.view cloning (liveV live) (notNew live))⟩
    · intro id live notSrc
      exact (created.quiet id live).trans (walk.1.others id (liveV live) notSrc (notNew live))
    · rw [walk.1.live, created.live]
      rfl
    · intro other same
      cases Option.some.inj same
      exact walk.2 rfl
  · rename_i u stopped
    cases result
    have walk := walked stopped
    have life : (u.contexts dst).life = MmLifecycle.created := by
      have kept := cloneWalk_life dst 3 (v.contexts src).rootPa (v.contexts dst).rootPa v
      rw [stopped] at kept
      exact kept.trans created.life
    have dropped := contextPut_spec walk.1.after.inv walk.1.after.liveDst
    have live : (contextPut u dst).live = w.live := by
      rw [dropped.2.2, life, if_pos (by decide), walk.1.live, created.live, List.erase_cons_head]
    have kept : ∀ {id}, id ∈ w.live → id ∈ u.live ∧ Undisturbed u (contextPut u dst) id :=
      fun live' => dropped.2.1 _ (live ▸ live')
    apply And.intro (dropped.1.activate active)
    constructor
    · intro id member
      exact ⟨live ▸ member, (((created.quiet id member).view inv member).trans
        (walk.1.view cloning (liveV member) (notNew member))).trans
          ((kept member).2.view walk.1.after.inv (kept member).1)⟩
    · intro id member notSrc
      exact ((created.quiet id member).trans
        (walk.1.others id (liveV member) notSrc (notNew member))).trans (kept member).2
    · exact live
    · exact fun other none => nomatch none

end Context

end OsArmv8a.Mmu
