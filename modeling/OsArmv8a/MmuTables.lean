import OsArmv8a.MmuContexts

/-! What `mmu_alloc_sub_table_locked`, `mmu_find_pte_locked` and `mmu_map_user_page_locked` do
to an address space. -/

set_option autoImplicit false

namespace OsArmv8a.Mmu

open PageAlloc (Managed pageAlloc pageFree pageRefInc pageRefDec Acquired Dropped)

/-- The next slot of a walk. -/
theorem TablePath.next {place rest : List Nat} {slot : Nat} (ok : TablePath (place ++ slot :: rest)) :
    TablePath place ∧ slot < 512 ∧ place.length < 3 ∧ TablePath ((place ++ [slot]) ++ rest) := by
  have length := ok.short
  rw [List.length_append, List.length_cons] at length
  refine ⟨ok.initial (List.prefix_append _ _), ok.slots slot (by simp), by omega, ?_⟩
  rwa [List.append_assoc]

/-- Words that lie in no free page. -/
def Reserved (s : PageAlloc.State) (words : Nat → Prop) : Prop :=
  ∀ a, words a → ∀ pa, Managed s pa → pa ≤ a → a < pa + 4096 → s.stateAt pa = .allocated

section Reserved

variable {s t : PageAlloc.State} {pa : Nat} {words : Nat → Prop}

theorem Reserved.apart (reserved : Reserved s words) (acquired : Acquired s t pa) {a : Nat}
    (member : words a) : a < pa ∨ pa + 4096 ≤ a := by
  by_contra inside
  have allocated := reserved a member pa acquired.managed (by omega) (by omega)
  rw [acquired.wasFree] at allocated
  cases allocated

theorem Reserved.acquired (reserved : Reserved s words) (acquired : Acquired s t pa) :
    Reserved t words := by
  intro a member page managed lower upper
  have before := (acquired.same.managed_iff page).mp managed
  rw [acquired.states page before]
  split
  · rfl
  · exact reserved a member page before lower upper

theorem Reserved.dropped (reserved : Reserved s words) (dropped : Dropped s t pa)
    (apart : ∀ a, words a → a < pa ∨ pa + 4096 ≤ a) : Reserved t words := by
  intro a member page managed lower upper
  have before := (dropped.same.managed_iff page).mp managed
  have different : page ≠ pa := by
    intro same
    have outside := apart a member
    omega
  rw [dropped.states page before, if_neg different]
  exact reserved a member page before lower upper

/-- Contents do not matter. -/
theorem Reserved.withMem (reserved : Reserved s words) (m : Mem) :
    Reserved { s with mem := m } words := fun a => reserved a

end Reserved

/-- Words that mapping a page in the active context may not touch: they lie in no free page,
and those in its tables are valid entries. -/
structure Guards (w : World) (active : Nat) (words : Nat → Prop) : Prop where
  reserved : Reserved w.pages words
  entries : ∀ path table slot, TablePath path →
    node w.pages.mem (w.contexts active) path = some table → slot < 512 →
    words (table + 8 * slot) → Valid (w.load (table + 8 * slot))

/-- The words keep their values and their protection. -/
structure Spared (w t : World) (active : Nat) (words : Nat → Prop) : Prop where
  guards : Guards t active words
  same : ∀ a, words a → t.pages.mem a = w.pages.mem a

theorem Spared.trans {w t u : World} {active : Nat} {words : Nat → Prop}
    (first : Spared w t active words) (second : Spared t u active words) :
    Spared w u active words :=
  ⟨second.guards, fun a member => (second.same a member).trans (first.same a member)⟩

/-- The active context may have taken pages, but what it had reads as before. -/
structure Grown (w t : World) (id : Nat) : Prop where
  live : t.live = w.live
  mode : t.pages.mmuEnabled = w.pages.mmuEnabled
  root : (t.contexts id).rootPa = (w.contexts id).rootPa
  tracked : ∀ pa ∈ (w.contexts id).pages, pa ∈ (t.contexts id).pages
  words : ∀ pa ∈ (w.contexts id).pages, ∀ a, pa ≤ a → a < pa + 4096 →
    t.pages.mem a = w.pages.mem a

theorem Grown.node {w t : World} {id : Nat} (grown : Grown w t id) {loose : List Nat}
    {held : Nat → Nat} {marks : List Nat → Prop}
    (space : Space w.pages.mem (w.contexts id) loose held marks) {path : List Nat}
    (ok : NodePath path) : node t.pages.mem (t.contexts id) path =
      node w.pages.mem (w.contexts id) path := by
  have same : Mmu.node t.pages.mem (t.contexts id) path =
      Mmu.node t.pages.mem (w.contexts id) path := by
    unfold Mmu.node
    rw [grown.root]
  rw [same]
  exact space.node_words grown.words ok

section Acquire

variable {foreign : Nat → Prop} {marked : Nat → List Nat → Prop} {w t : World}
  {inHand : List Nat} {active : Nat} {loose : List Nat}
variable {pa : Nat}

theorem data_of_inHand (space : Space w.pages.mem (w.contexts active) loose (w.held inHand)
    (marked active)) (live : active ∈ w.live) (member : pa ∈ inHand) (single : w.held inHand pa = 1)
    : ∀ path table, TablePath path →
      node w.pages.mem (w.contexts active) path = some table → table ≠ pa := by
  intro path table ok found same
  exact inHand_unlisted member single live
    (same ▸ (space.owned.nodes path table ok.node found).1)

theorem data_of_loose (space : Space w.pages.mem (w.contexts active) loose (w.held inHand)
    (marked active)) (member : pa ∈ loose) : ∀ path table, TablePath path →
      node w.pages.mem (w.contexts active) path = some table → table ≠ pa := by
  intro path table ok found same
  exact (space.owned.nodes path table ok.node found).2 (same ▸ member)

variable {pages : PageAlloc.State}

/-- A page that has just been allocated may be written. -/
theorem Inv.prepare (inv : Inv foreign marked w inHand active loose) (live : active ∈ w.live)
    (taken : pageAlloc w.pages = (some pa, pages)) {m : Mem}
    (outside : ∀ a, a < pa ∨ pa + 4096 ≤ a → m a = pages.mem a) :
    Inv foreign marked ((w.setPages pages).setMem m) (pa :: inHand) active loose ∧
      Quiet w ((w.setPages pages).setMem m) := by
  have first := inv.take taken
  have data := data_of_inHand (first.1.space live) live List.mem_cons_self first.2.2.single
  have second := first.1.fill live first.2.2.single (Or.inr List.mem_cons_self) data outside
  apply And.intro second.1
  intro id member
  apply (first.2.1 id member).trans
  constructor
  · exact member
  · rfl
  · rfl
  · intro other listed a lower upper
    apply outside
    have absent : pa ∉ ((w.setPages pages).contexts id).pages :=
      inHand_unlisted List.mem_cons_self first.2.2.single member
    exact first.1.outside (by rw [first.2.2.single]; exact Nat.one_pos)
      (held_pos_of_listed (show id ∈ (w.setPages pages).live from member) listed)
      (fun same => absent (same ▸ listed)) lower upper

/-- Allocating, writing and then tracking a page. -/
theorem Inv.acquire (inv : Inv foreign marked w inHand active loose) (live : active ∈ w.live)
    (taken : pageAlloc w.pages = (some pa, pages)) {m : Mem}
    (outside : ∀ a, a < pa ∨ pa + 4096 ≤ a → m a = pages.mem a)
    (added : ((w.setPages pages).setMem m).addPage active pa = some t) :
    (Inv foreign marked t inHand active (pa :: loose) ∧ Frame active w t) ∧ Grown w t active ∧
      t.pages.mem = m ∧ pa ∉ (w.contexts active).pages := by
  have prepared := inv.prepare live taken outside
  have single := (inv.take taken).2.2.single
  have absent : pa ∉ (w.contexts active).pages :=
    inHand_unlisted (w := w.setPages pages) List.mem_cons_self single live
  have tracked := prepared.1.track live List.mem_cons_self single added
  rw [List.erase_cons_head] at tracked
  have same := (PageAlloc.pageAlloc_acquired inv.alloc taken).same
  constructor
  · exact ⟨tracked.1.1, (prepared.2.frame active).trans tracked.1.2⟩
  · constructor
    · rw [tracked.2]
      constructor
      · rfl
      · exact same.mode
      · rw [World.setContext_same]
        rfl
      · intro other member
        rw [World.setContext_same, MmContext.withPages_pages]
        exact List.mem_append_left _ member
      · exact (prepared.2 active live).words
    · rw [tracked.2]
      exact ⟨rfl, absent⟩

variable {words : Nat → Prop}

/-- Nodes that are as before keep the entries guarded. -/
theorem Guards.of_nodes (guards : Guards w active words) (reserved : Reserved t.pages words)
    (same : ∀ a, words a → t.pages.mem a = w.pages.mem a)
    (nodes : ∀ path table slot, TablePath path →
      node t.pages.mem (t.contexts active) path = some table → slot < 512 →
      words (table + 8 * slot) → node w.pages.mem (w.contexts active) path = some table) :
    Spared w t active words := by
  refine ⟨⟨reserved, fun path table slot ok found below member => ?_⟩, same⟩
  show Valid (t.pages.mem (table + 8 * slot))
  rw [same _ member]
  exact guards.entries path table slot ok (nodes path table slot ok found below member) below member

/-- A page that was allocated, written and given back again. -/
theorem Reserved.returned {s : PageAlloc.State} (reserved : Reserved s words)
    (acquired : Acquired s pages pa) {m : Mem}
    (outside : ∀ a, a < pa ∨ pa + 4096 ≤ a → m a = pages.mem a)
    (after : PageAlloc.Invariant { pages with mem := m }) :
    Reserved (pageFree { pages with mem := m } pa) words ∧
      ∀ a, words a → (pageFree { pages with mem := m } pa).mem a = s.mem a := by
  have dropped := PageAlloc.pageFree_dropped after ((acquired.same.managed_iff pa).mpr acquired.managed)
    ((acquired.states pa acquired.managed).trans (if_pos rfl))
  have apart := fun a => reserved.apart acquired (a := a)
  refine ⟨((reserved.acquired acquired).withMem m).dropped dropped apart, fun a member => ?_⟩
  have beyond := apart a member
  exact ((dropped.frame a (by omega)).trans (outside a beyond)).trans (acquired.frame a beyond)

/-- Allocating a page that cannot be tracked, and giving it back. -/
theorem Inv.abandon (inv : Inv foreign marked w inHand active loose) (live : active ∈ w.live)
    (taken : pageAlloc w.pages = (some pa, pages)) {m : Mem}
    (outside : ∀ a, a < pa ∨ pa + 4096 ≤ a → m a = pages.mem a)
    (given : t = w.setPages (pageFree ((w.setPages pages).setMem m).pages pa)) :
    Inv foreign marked t inHand active loose ∧ Quiet w t ∧
      ∀ words, Guards w active words → Spared w t active words := by
  subst given
  have prepared := inv.prepare live taken outside
  have freed := prepared.1.free List.mem_cons_self
  rw [List.erase_cons_head] at freed
  have quiet := prepared.2.trans freed.2
  refine ⟨freed.1, quiet, fun words guards => ?_⟩
  have returned := guards.reserved.returned (PageAlloc.pageAlloc_acquired inv.alloc taken) outside
    prepared.1.alloc
  apply guards.of_nodes returned.1 returned.2
  intro path table slot ok found _ _
  exact ((quiet active live).node (inv.space live) ok.node).symm.trans found

/-- The tables of the active context may have grown; no page moved and no leaf changed place. -/
structure Extended (foreign : Nat → Prop) (marked : Nat → List Nat → Prop) (w t : World)
    (inHand : List Nat) (active : Nat) (loose : List Nat) : Prop where
  inv : Inv foreign marked t inHand active loose
  frame : Frame active w t
  live : t.live = w.live
  mode : t.pages.mmuEnabled = w.pages.mmuEnabled
  root : (t.contexts active).rootPa = (w.contexts active).rootPa
  leaves : ∀ path, NodePath path → path.length = 4 →
    node t.pages.mem (t.contexts active) path = node w.pages.mem (w.contexts active) path

/-- A walk also spares the words that are guarded. -/
structure Walked (foreign : Nat → Prop) (marked : Nat → List Nat → Prop) (w t : World)
    (inHand : List Nat) (active : Nat) (loose : List Nat) : Prop
    extends Extended foreign marked w t inHand active loose where
  spared : ∀ words, Guards w active words → Spared w t active words

theorem Walked.refl (inv : Inv foreign marked w inHand active loose) :
    Walked foreign marked w w inHand active loose :=
  ⟨⟨inv, Frame.refl active w, rfl, rfl, rfl, fun _ _ _ => rfl⟩,
    fun _ guards => ⟨guards, fun _ _ => rfl⟩⟩

theorem Walked.trans {u : World} (first : Walked foreign marked w t inHand active loose)
    (second : Walked foreign marked t u inHand active loose) :
    Walked foreign marked w u inHand active loose where
  inv := second.inv
  frame := first.frame.trans second.frame
  live := second.live.trans first.live
  mode := second.mode.trans first.mode
  root := second.root.trans first.root
  leaves path ok length := (second.leaves path ok length).trans (first.leaves path ok length)
  spared words guards :=
    let spared := first.spared words guards
    spared.trans (second.spared words spared.guards)

theorem pageFree_mode (s : PageAlloc.State) (pa : Nat) :
    (pageFree s pa).mmuEnabled = s.mmuEnabled := by
  unfold pageFree
  split
  · rfl
  split
  · rfl
  split
  · rfl
  split
  · rfl
  split <;> rfl

/-- `mmu_alloc_sub_table_locked` fails without a trace. -/
theorem allocSubTable_none (inv : Inv foreign marked w inHand active loose) (live : active ∈ w.live)
    (failed : allocSubTable w active = (none, t)) :
    Walked foreign marked w t inHand active loose ∧ Quiet w t := by
  unfold allocSubTable at failed
  split at failed
  · cases failed
    exact ⟨.refl inv, fun _ member => .refl member⟩
  · rename_i pa pages taken
    split at failed
    · cases failed
      have mode := (PageAlloc.pageAlloc_acquired inv.alloc taken).same.mode
      obtain ⟨after, quiet, spared⟩ := inv.abandon live taken (m := pages.mem) (fun _ _ => rfl) rfl
      have same := quiet active live
      exact ⟨⟨⟨after, quiet.frame active, rfl, (pageFree_mode pages pa).trans mode, same.root,
        fun path ok _ => same.node (inv.space live) ok⟩, spared⟩, quiet⟩
    · cases failed

/-- A new sub-table is tracked, empty and not linked yet. -/
theorem allocSubTable_some (inv : Inv foreign marked w inHand active loose) (live : active ∈ w.live)
    (made : allocSubTable w active = (some pa, t)) :
    (Inv foreign marked t inHand active (pa :: loose) ∧ Frame active w t) ∧ Grown w t active ∧
      (∀ slot < 512, t.load (pa + 8 * slot) = 0#64) ∧ pa ∉ (w.contexts active).pages ∧
      Acquired w.pages t.pages pa := by
  unfold allocSubTable at made
  split at made
  · cases made
  · rename_i pa' pages taken
    split at made
    · cases made
    · rename_i u added
      cases made
      have acquired := inv.acquire live taken (m := pages.mem) (fun _ _ => rfl) added
      have liveU : active ∈ u.live := acquired.2.1.live ▸ live
      have space := acquired.1.1.space liveU
      have filled := acquired.1.1.fill liveU (space.alone pa List.mem_cons_self)
        (Or.inl (space.owned.kept pa List.mem_cons_self))
        (data_of_loose space List.mem_cons_self) (m := u.pages.mem.zero pa 4096)
        fun a outside => Mem.zero_outside _ outside
      have grown := acquired.2.1
      refine ⟨⟨filled.1, acquired.1.2.trans filled.2⟩,
        ⟨grown.live, grown.mode, grown.root, grown.tracked, ?_⟩, ?_, acquired.2.2.2, ?_⟩
      · intro other listed a lower upper
        have different : other ≠ pa := fun same => acquired.2.2.2 (same ▸ listed)
        have apart := acquired.1.1.outside
          (held_pos_of_listed liveU (space.owned.kept pa List.mem_cons_self))
          (held_pos_of_listed liveU (grown.tracked other listed)) different lower upper
        exact (Mem.zero_outside _ apart).trans (grown.words other listed a lower upper)
      · intro slot below
        exact Mem.zero_inside _ (by omega) (by omega)
      · have page := PageAlloc.pageAlloc_acquired inv.alloc taken
        have same := page.same
        obtain ⟨mm, -, rfl⟩ := Option.map_eq_some_iff.mp added
        exact ⟨⟨same.start, same.stop, same.total, same.mode⟩, page.managed, page.wasFree,
          page.states, page.refs, fun a => Mem.zero_inside _,
          fun a outside => (Mem.zero_outside _ outside).trans (page.frame a outside)⟩

section Walk

variable {place : List Nat} {table slot level : Nat}

theorem nextTable_plain {id entry : Nat} {create : Bool} (noBlock : ¬ IsBlock (w.load entry)) :
    nextTable w id entry level create =
      if Valid (w.load entry) then (some (descAddr (w.load entry)), w)
      else if create = false then (none, w)
      else match allocSubTable w id with
        | (none, w) => (none, w)
        | (some pa, w) => (some (descAddr ((w.store entry (tableEntry pa)).load entry)),
            w.store entry (tableEntry pa)) := by
  have never : ¬ (level ≠ 0 ∧ IsBlock (w.load entry)) := fun block => noBlock block.2
  have notYet : ¬ ((level ≠ 0 ∧ IsBlock (w.load entry)) ∧ create = false) :=
    fun both => never both.1
  show (if (level ≠ 0 ∧ IsBlock (w.load entry)) ∧ create = false then _ else _) = _
  rewrite [if_neg notYet, if_neg never]
  rfl

section

variable (inv : Inv foreign marked w inHand active loose) (live : active ∈ w.live)
  (ok : TablePath place)

include inv live ok

/-- There are no blocks in user address spaces: a valid entry is a link. -/
theorem Inv.noBlock (found : node w.pages.mem (w.contexts active) place = some table)
    (below : slot < 512) : ¬ IsBlock (w.load (table + 8 * slot)) := by
  intro block
  have valid : Valid (w.load (table + 8 * slot)) := by
    unfold Valid
    rw [show (1#64 : BitVec 64) = 3#64 &&& 1#64 by decide, ← BitVec.and_assoc]
    rw [show w.load (table + 8 * slot) &&& 3#64 = descBlock from block]
    decide
  have isTable := (inv.space live).typed place table slot ok found below valid
  have both : descBlock = descTable := block.symm.trans isTable
  exact absurd both (by decide)

/-- A new sub-table is linked into an empty slot above level 3. -/
theorem allocSubTable_link (short : place.length < 3)
    (found : node w.pages.mem (w.contexts active) place = some table) (below : slot < 512)
    (empty : ¬ Valid (w.load (table + 8 * slot))) {pa : Nat} {value : BitVec 64}
    (made : allocSubTable w active = (some pa, t)) (isTable : IsTable value)
    (address : PageAddr pa → descAddr value = pa) :
    Walked foreign marked w (t.store (table + 8 * slot) value) inHand active loose ∧
      ∀ path, NodePath path →
        node (t.store (table + 8 * slot) value).pages.mem (t.contexts active) path =
          if path = place ++ [slot] then some pa
          else node w.pages.mem (w.contexts active) path := by
  have allocated := allocSubTable_some inv live made
  have grown := allocated.2.1
  have liveT : active ∈ t.live := grown.live ▸ live
  have space := allocated.1.1.space liveT
  have listed := space.owned.kept pa List.mem_cons_self
  have points := address (space.addresses pa listed)
  have foundT := (grown.node (inv.space live) ok.node).trans found
  have tableListed := ((inv.space live).owned.nodes place table ok.node found).1
  have emptyT : ¬ Valid (t.load (table + 8 * slot)) := by
    show ¬ Valid (t.pages.mem (table + 8 * slot))
    rw [grown.words table tableListed _ (by omega) (by omega)]
    exact empty
  have linked := allocated.1.1.link liveT ok foundT below emptyT isTable
    (by rw [points]; exact List.mem_cons_self)
    (by rw [points]; exact fun _ => allocated.2.2.1) (fun leaf => absurd leaf (by omega))
  have fresh : pa ∉ loose := fun member =>
    allocated.2.2.2.1 ((inv.space live).owned.kept pa member)
  rw [points, filter_fresh fresh] at linked
  have nodes : ∀ path, NodePath path →
      node (t.store (table + 8 * slot) value).pages.mem (t.contexts active) path =
        if path = place ++ [slot] then some pa
        else node w.pages.mem (w.contexts active) path := by
    intro path okPath
    rw [linked.2 path okPath, child_of_isTable isTable, points,
      grown.node (inv.space live) okPath]
  refine ⟨⟨⟨linked.1.1, allocated.1.2.trans linked.1.2, grown.live, grown.mode, grown.root, ?_⟩, ?_⟩,
    nodes⟩
  · intro path okPath length
    have elsewhere : path ≠ place ++ [slot] := by
      intro same
      rw [same, List.length_append, List.length_singleton] at length
      omega
    exact (nodes path okPath).trans (if_neg elsewhere)
  · -- the new table goes into an entry that was not valid, so no guarded word is written
    intro words guards
    have acquired := allocated.2.2.2.2
    refine guards.of_nodes (t := t.store (table + 8 * slot) value)
      ((guards.reserved.acquired acquired).withMem _) ?_ ?_
    · intro a member
      have elsewhere : a ≠ table + 8 * slot := by
        intro same
        exact empty (guards.entries place table slot ok found below (same ▸ member))
      exact (Mem.set_other _ _ elsewhere).trans
        (acquired.frame a (guards.reserved.apart acquired member))
    · intro path inner index okPath foundPath indexBelow member
      have node' := (nodes path okPath.node).symm.trans foundPath
      split at node'
      · cases Option.some.inj node'
        have outside := guards.reserved.apart acquired member
        omega
      · exact node'

/-- One level of `mmu_find_pte_locked` that may allocate. -/
theorem nextTable_create (short : place.length < 3)
    (found : node w.pages.mem (w.contexts active) place = some table) (below : slot < 512)
    {next : Option Nat} (result : nextTable w active (table + 8 * slot) level true = (next, t)) :
    Walked foreign marked w t inHand active loose ∧
      ∀ pa ∈ next, node t.pages.mem (t.contexts active) (place ++ [slot]) = some pa := by
  rw [nextTable_plain (inv.noBlock live ok found below)] at result
  split at result
  · rename_i valid
    cases result
    apply And.intro (Walked.refl inv)
    intro pa member
    cases Option.some.inj member
    rw [node_snoc slot found]
    exact child_of_isTable ((inv.space live).typed place table slot ok found below valid)
  rename_i empty
  rw [if_neg (by decide)] at result
  split at result
  · rename_i u failed
    cases result
    exact ⟨(allocSubTable_none inv live failed).1, fun pa member => nomatch member⟩
  · rename_i pa u made
    cases result
    have linked := allocSubTable_link inv live ok short found below empty made
      (isTable_tableEntry pa) descAddr_tableEntry
    apply And.intro linked.1
    intro next member
    have here := linked.2 _ (ok.snoc below)
    rw [if_pos rfl] at here
    have foundU : node (u.store (table + 8 * slot) (tableEntry pa)).pages.mem (u.contexts active)
        place = some table := by
      rw [linked.2 _ ok.node, if_neg (fun same => by simpa using congrArg List.length same), found]
    rw [node_snoc slot foundU] at here
    rw [← Option.some.inj member, (child_eq_some.mp here).2]
    exact (linked.2 _ (ok.snoc below)).trans (if_pos rfl)

end

/-- `mmu_find_pte_locked` with `create`. -/
theorem findTable_create (rest : List Nat) : ∀ {w : World} {place : List Nat} {level table : Nat}
    {next : Option Nat}, Inv foreign marked w inHand active loose → active ∈ w.live →
    TablePath (place ++ rest) → node w.pages.mem (w.contexts active) place = some table →
    findTable active true w level table rest = (next, t) →
    Walked foreign marked w t inHand active loose ∧
      ∀ pa ∈ next, node t.pages.mem (t.contexts active) (place ++ rest) = some pa := by
  induction rest with
  | nil =>
    intro w place level table next inv live ok found result
    cases result
    apply And.intro (Walked.refl inv)
    intro pa member
    cases Option.some.inj member
    rw [List.append_nil]
    exact found
  | cons slot rest ih =>
    intro w place level table next inv live ok found result
    obtain ⟨okPlace, below, short, okRest⟩ := ok.next
    unfold findTable at result
    split at result
    · rename_i u failed
      cases result
      have step := nextTable_create inv live okPlace short found below failed
      exact ⟨step.1, fun pa member => nomatch member⟩
    · rename_i further u stepped
      have step := nextTable_create inv live okPlace short found below stepped
      have tail := ih step.1.inv (step.1.live ▸ live) okRest (step.2 further rfl) result
      rw [List.append_cons]
      exact ⟨step.1.trans tail.1, tail.2⟩

/-- Without `create` the walk only looks: it ends where the tables end. -/
theorem findTable_look (rest : List Nat) : ∀ {place : List Nat} {level table : Nat},
    Inv foreign marked w inHand active loose → active ∈ w.live → TablePath (place ++ rest) →
    node w.pages.mem (w.contexts active) place = some table →
    findTable active false w level table rest =
      (node w.pages.mem (w.contexts active) (place ++ rest), w) := by
  induction rest with
  | nil =>
    intro place level table _ _ _ found
    rw [List.append_nil, found]
    rfl
  | cons slot rest ih =>
    intro place level table inv live ok found
    obtain ⟨okPlace, below, -, okRest⟩ := ok.next
    have here := node_snoc slot found
    rw [List.append_cons]
    unfold findTable
    rw [nextTable_plain (inv.noBlock live okPlace found below)]
    by_cases valid : Valid (w.load (table + 8 * slot))
    · rw [if_pos valid]
      have isTable := (inv.space live).typed place table slot okPlace found below valid
      exact ih inv live okRest (here.trans (child_of_isTable isTable))
    · rw [if_neg valid, if_pos rfl]
      have none' : node w.pages.mem (w.contexts active) (place ++ [slot]) = none :=
        here.trans (if_neg fun isTable => valid isTable.valid)
      show (none, w) = (Radix.descend child _ _ _, w)
      rw [Radix.descend_append]
      show (none, w) = ((node w.pages.mem (w.contexts active) (place ++ [slot])).bind _, w)
      rw [none']
      rfl

end Walk

end Acquire

end OsArmv8a.Mmu
