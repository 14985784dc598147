import OsArmv8a.Mmu

set_option autoImplicit false

namespace OsArmv8a.Mmu

@[simp] theorem MmContext.withPages_pages (mm : MmContext) (pages : List Nat) :
    (mm.withPages pages).pages = pages := rfl

@[simp] theorem MmContext.withPages_life (mm : MmContext) (pages : List Nat) :
    (mm.withPages pages).life = mm.life := rfl

@[simp] theorem World.setContext_same (w : World) (id : Nat) (mm : MmContext) :
    (w.setContext id mm).contexts id = mm := if_pos rfl

theorem World.setContext_other (w : World) {id other : Nat} (mm : MmContext) (different : other ≠ id) :
    (w.setContext id mm).contexts other = w.contexts other := if_neg different

/-- A path to a table: at most three indexes. -/
abbrev TablePath (path : List Nat) : Prop := Radix.Path 512 3 path

/-- A path to a table or to a user page. -/
abbrev NodePath (path : List Nat) : Prop := Radix.Path 512 4 path

/-- One address space. `loose` are pages the context tracks that its tables do not reach yet,
`held` is the number of references to a page and `marked` are the paths of pages that must
not be writable. -/
structure Space (m : Mem) (mm : MmContext) (loose : List Nat) (held : Nat → Nat)
    (marked : List Nat → Prop) : Prop where
  owned : Radix.Owned 512 4 (node m mm) mm.pages loose
  bounded : mm.pages.length ≤ 256
  addresses : ∀ pa ∈ mm.pages, PageAddr pa
  typed : ∀ path table slot, TablePath path → node m mm path = some table → slot < 512 →
    Valid (m (table + 8 * slot)) → IsTable (m (table + 8 * slot))
  tables : ∀ path table, TablePath path → node m mm path = some table → held table = 1
  leaves : ∀ path table slot, TablePath path → path.length = 3 → node m mm path = some table →
    slot < 512 → IsTable (m (table + 8 * slot)) → Writable (m (table + 8 * slot)) →
    held (descAddr (m (table + 8 * slot))) = 1
  guarded : ∀ path table slot, TablePath path → path.length = 3 → node m mm path = some table →
    slot < 512 → IsTable (m (table + 8 * slot)) → marked (path ++ [slot]) →
    ¬ Writable (m (table + 8 * slot))
  alone : ∀ pa ∈ loose, held pa = 1

variable {entry : BitVec 64}

theorem child_of_isTable (table : IsTable entry) :
    child entry = some (descAddr entry) := if_pos table

theorem child_eq_some {pa : Nat} : child entry = some pa ↔ IsTable entry ∧ descAddr entry = pa := by
  unfold child
  split
  · rename_i table
    exact ⟨fun same => ⟨table, Option.some.inj same⟩, fun same => congrArg some same.2⟩
  · rename_i other
    exact ⟨fun same => absurd same.symm (Option.some_ne_none pa), fun same => absurd same.1 other⟩

theorem child_zero : child 0#64 = none := if_neg (by decide)

theorem node_root (m : Mem) (mm : MmContext) : node m mm [] = some mm.rootPa := rfl

variable {path : List Nat}

/-- The step from a table to what one of its entries points to. -/
theorem node_snoc {m : Mem} {mm : MmContext} {table : Nat} (slot : Nat)
    (found : node m mm path = some table) :
    node m mm (path ++ [slot]) = child (m (table + 8 * slot)) :=
  Radix.descend_snoc slot found

theorem tablePath_nil : TablePath [] := ⟨by simp, by simp⟩

theorem TablePath.node (ok : TablePath path) : NodePath path :=
  Radix.Path.mono ok (by omega)

theorem TablePath.snoc (ok : TablePath path) {slot : Nat} (below : slot < 512) :
    NodePath (path ++ [slot]) := Radix.Path.snoc ok below

theorem filter_fresh {pa : Nat} {loose : List Nat} (fresh : pa ∉ loose) :
    (pa :: loose).filter (· ≠ pa) = loose := by
  rw [List.filter_cons_of_neg (by simp)]
  apply List.filter_eq_self.mpr
  intro other member
  exact decide_eq_true fun same => fresh (same ▸ member)

namespace Space

variable {m fresh : Mem} {mm : MmContext} {loose : List Nat} {held raised : Nat → Nat}
  {marked : List Nat → Prop}

theorem dvd (space : Space m mm loose held marked) : ∀ pa ∈ mm.pages, 8 * 512 ∣ pa :=
  fun pa member => (space.addresses pa member).aligned

theorem node_congr (same : ∀ path table slot, TablePath path → node m mm path = some table →
      slot < 512 → fresh (table + 8 * slot) = m (table + 8 * slot)) {path : List Nat}
    (ok : NodePath path) : node fresh mm path = node m mm path := by
  apply Radix.descend_congr
  intro start slot table inside found
  have okStart := ok.initial inside
  have short : TablePath start := by
    constructor
    · have length := okStart.short
      simp only [List.length_append, List.length_cons, List.length_nil] at length
      omega
    · exact fun other member => okStart.slots other (List.mem_append_left _ member)
  exact same start table slot short found (okStart.slots slot (by simp))

section

variable (space : Space m mm loose held marked)

include space

/-- The tables lie in the pages of the context, so its nodes depend on those alone. -/
theorem node_words (same : ∀ pa ∈ mm.pages, ∀ a, pa ≤ a → a < pa + 4096 → fresh a = m a)
    {path : List Nat} (ok : NodePath path) : node fresh mm path = node m mm path := by
  apply node_congr _ ok
  intro start table slot okStart found below
  exact same table (space.owned.nodes start table okStart.node found).1 _ (by omega) (by omega)

/-- An address space depends only on the words of its tables. -/
theorem congr (same : ∀ path table slot, TablePath path → node m mm path = some table →
      slot < 512 → fresh (table + 8 * slot) = m (table + 8 * slot))
    (still : ∀ pa ∈ mm.pages, held pa = 1 → raised pa = 1) :
    Space fresh mm loose raised marked := by
  have nodes : ∀ path, NodePath path → node fresh mm path = node m mm path :=
    fun path ok => node_congr same ok
  have tableNode : ∀ {path table}, TablePath path → node fresh mm path = some table →
      node m mm path = some table := fun ok found => (nodes _ ok.node).symm.trans found
  constructor
  · exact space.owned.congr nodes
  · exact space.bounded
  · exact space.addresses
  · intro path table slot ok found below
    rw [same path table slot ok (tableNode ok found) below]
    exact space.typed path table slot ok (tableNode ok found) below
  · intro path table ok found
    exact still table (space.owned.nodes path table ok.node (tableNode ok found)).1
      (space.tables path table ok (tableNode ok found))
  · intro path table slot ok leaf found below
    rw [same path table slot ok (tableNode ok found) below]
    intro isTable writable
    have listed := space.owned.nodes (path ++ [slot]) _ (ok.snoc below)
      ((node_snoc slot (tableNode ok found)).trans (child_of_isTable isTable))
    exact still _ listed.1
      (space.leaves path table slot ok leaf (tableNode ok found) below isTable writable)
  · intro path table slot ok leaf found below
    rw [same path table slot ok (tableNode ok found) below]
    exact space.guarded path table slot ok leaf (tableNode ok found) below
  · intro pa member
    exact still pa (space.owned.kept pa member) (space.alone pa member)

/-- A word of a page that is not one of the tables changes. -/
theorem set_outside {page slot : Nat} (aligned : 4096 ∣ page) (below : slot < 512)
    (value : BitVec 64)
    (apart : ∀ path table, TablePath path → node m mm path = some table → table ≠ page) :
    (∀ path, NodePath path → node (m.set (page + 8 * slot) value) mm path = node m mm path) ∧
      Space (m.set (page + 8 * slot) value) mm loose held marked := by
  have same : ∀ path table index, TablePath path → node m mm path = some table → index < 512 →
      m.set (page + 8 * slot) value (table + 8 * index) = m (table + 8 * index) := by
    intro path table index ok found small
    apply Mem.set_other
    intro equal
    have listed := (space.owned.nodes path table ok.node found).1
    exact apart path table ok found
      (Radix.slot_once (space.dvd table listed) aligned small below equal).1
  exact ⟨fun path ok => node_congr same ok, space.congr same fun _ _ single => single⟩

/-- The context tracks one more page. -/
theorem take {pa : Nat} (absent : pa ∉ mm.pages) (room : mm.pages.length < 256)
    (address : PageAddr pa) (single : held pa = 1) :
    Space m (mm.withPages (mm.pages ++ [pa])) (pa :: loose) held marked where
  owned := space.owned.take absent
  bounded := by
    show (mm.pages ++ [pa]).length ≤ 256
    rw [List.length_append, List.length_singleton]
    omega
  addresses other member := by
    rcases List.mem_append.mp member with inside | last
    · exact space.addresses other inside
    · exact List.mem_singleton.mp last ▸ address
  typed := space.typed
  tables := space.tables
  leaves := space.leaves
  guarded := space.guarded
  alone other member := by
    rcases List.mem_cons.mp member with rfl | member
    · exact single
    · exact space.alone other member

/-- The context stops tracking a page its tables do not reach. -/
theorem give {pa : Nat} (member : pa ∈ loose) :
    Space m (mm.withPages (mm.pages.erase pa)) (loose.filter (· ≠ pa)) held marked where
  owned := space.owned.give member
  bounded := Nat.le_trans (List.erase_sublist.length_le) space.bounded
  addresses other still := space.addresses other (List.mem_of_mem_erase still)
  typed := space.typed
  tables := space.tables
  leaves := space.leaves
  guarded := space.guarded
  alone other still := space.alone other (List.mem_filter.mp still).1

end

section Write

variable {place : List Nat} {table slot : Nat} {value : BitVec 64}
variable {path : List Nat}

/-- After one entry has been written, every other entry reads as before. -/
theorem word_set (space : Space m mm loose held marked) (ok : TablePath place)
    (found : node m mm place = some table) (below : slot < 512) {other index : Nat}
    (okPath : TablePath path) (foundOther : node m mm path = some other) (belowIndex : index < 512)
    :
    m.set (table + 8 * slot) value (other + 8 * index) =
      if path = place ∧ index = slot then value else m (other + 8 * index) := by
  by_cases same : path = place ∧ index = slot
  · have table' : other = table := by
      rw [same.1, found] at foundOther
      exact (Option.some.inj foundOther).symm
    rw [if_pos same, table', same.2, Mem.set_same]
  · rw [if_neg same]
    apply Mem.set_other
    intro equal
    have listed := space.owned.nodes path other okPath.node foundOther
    have both := Radix.slot_once (space.dvd other listed.1)
      (space.dvd table (space.owned.nodes place table ok.node found).1) belowIndex below equal
    exact same ⟨space.owned.once path place table okPath.node ok.node (both.1 ▸ foundOther) found,
      both.2⟩

/-- The map of nodes after one entry has been written, when neither what it pointed to nor
what it points to now has entries of its own. -/
theorem node_write (space : Space m mm loose held marked) (ok : TablePath place)
    (found : node m mm place = some table) (below : slot < 512)
    (childless : ∀ more, more < 512 → place.length < 3 →
      (∀ next, child (m (table + 8 * slot)) = some next → child (m (next + 8 * more)) = none) ∧
      ∀ next, child value = some next →
        child (m.set (table + 8 * slot) value (next + 8 * more)) = none) (okPath : NodePath path) :
    node (m.set (table + 8 * slot) value) mm path =
      if path = place ++ [slot] then child value else node m mm path :=
  Radix.descend_write space.owned space.dvd (ok.snoc below) found value
    (fun more small deep => childless more small (by omega)) okPath

/-- A table path other than the written one leads where it did. -/
theorem tablePath_cases (okPath : TablePath path)
    (nodes : node fresh mm path = if path = place ++ [slot] then child value else node m mm path) :
    (path = place ++ [slot] ∧ place.length < 3 ∧ node fresh mm path = child value) ∨
      (path ≠ place ++ [slot] ∧ node fresh mm path = node m mm path) := by
  by_cases here : path = place ++ [slot]
  · rw [if_pos here] at nodes
    have short := okPath.short
    rw [here, List.length_append, List.length_singleton] at short
    exact Or.inl ⟨here, by omega, nodes⟩
  · rw [if_neg here] at nodes
    exact Or.inr ⟨here, nodes⟩

section

variable (space : Space m mm loose held marked)

include space

/-- One entry has been written. What has to be checked is the new entry: that it is typed, that
a table it links is empty and private, and that it is writable only for a private page. -/
theorem write (ok : TablePath place) (found : node m mm place = some table) (below : slot < 512)
    (nodes : ∀ path, NodePath path → node (m.set (table + 8 * slot) value) mm path =
      if path = place ++ [slot] then child value else node m mm path) {pages loose' : List Nat}
    (owned : Radix.Owned 512 4 (node (m.set (table + 8 * slot) value) mm) pages loose')
    (bounded : pages.length ≤ 256) (addresses : ∀ pa ∈ pages, PageAddr pa)
    (alone : ∀ pa ∈ loose', raised pa = 1)
    (still : ∀ pa ∈ mm.pages, (IsTable value → pa ≠ descAddr value) → held pa = 1 → raised pa = 1)
    (valid : Valid value → IsTable value)
    (newTable : place.length < 3 → IsTable value → raised (descAddr value) = 1 ∧
      ∀ more < 512, m.set (table + 8 * slot) value (descAddr value + 8 * more) = 0#64)
    (newLeaf : IsTable value → Writable value → raised (descAddr value) = 1)
    (permitted : place.length = 3 → IsTable value → marked (place ++ [slot]) → ¬ Writable value) :
    Space (m.set (table + 8 * slot) value) (mm.withPages pages) loose' raised marked := by
  have okPlace := ok.snoc below
  -- nothing but the written path leads to the page of the new entry
  have unique : ∀ path pa, NodePath path → path ≠ place ++ [slot] → node m mm path = some pa →
      IsTable value → pa ≠ descAddr value := by
    intro path pa okPath elsewhere reached isTable same
    apply elsewhere
    apply owned.once path _ pa okPath okPlace
    · rw [nodes path okPath, if_neg elsewhere, reached]
    · rw [nodes _ okPlace, if_pos rfl, child_of_isTable isTable, same]
  have keep : ∀ path pa, NodePath path → path ≠ place ++ [slot] → node m mm path = some pa →
      held pa = 1 → raised pa = 1 := by
    intro path pa okPath elsewhere reached single
    exact still pa (space.owned.nodes path pa okPath reached).1
      (unique path pa okPath elsewhere reached) single
  constructor
  · exact owned
  · exact bounded
  · exact addresses
  · intro path other index okPath reached belowIndex
    rcases tablePath_cases okPath (nodes path okPath.node) with ⟨_, deep, here⟩ | ⟨_, there⟩
    · have points := child_eq_some.mp (here.symm.trans reached)
      rw [← points.2, (newTable deep points.1).2 index belowIndex]
      exact fun impossible => absurd impossible not_valid_zero
    · have before := there.symm.trans reached
      rw [space.word_set ok found below okPath before belowIndex]
      split
      · exact valid
      · exact space.typed path other index okPath before belowIndex
  · intro path other okPath reached
    rcases tablePath_cases okPath (nodes path okPath.node) with ⟨_, deep, here⟩ | ⟨apart, there⟩
    · have points := child_eq_some.mp (here.symm.trans reached)
      exact points.2 ▸ (newTable deep points.1).1
    · have before := there.symm.trans reached
      exact keep path other okPath.node apart before (space.tables path other okPath before)
  · intro path other index okPath leaf reached belowIndex
    rcases tablePath_cases okPath (nodes path okPath.node) with ⟨_, deep, here⟩ | ⟨_, there⟩
    · have points := child_eq_some.mp (here.symm.trans reached)
      rw [← points.2, (newTable deep points.1).2 index belowIndex]
      exact fun isTable => absurd isTable.valid not_valid_zero
    · have before := there.symm.trans reached
      rw [space.word_set ok found below okPath before belowIndex]
      split
      · exact newLeaf
      · rename_i different
        intro isTable writable
        apply keep (path ++ [index]) _ (okPath.snoc belowIndex)
        · intro same
          have both := List.append_inj' same rfl
          exact different ⟨both.1, List.singleton_inj.mp both.2⟩
        · rw [node_snoc index before, child_of_isTable isTable]
        · exact space.leaves path other index okPath leaf before belowIndex isTable writable
  · intro path other index okPath leaf reached belowIndex
    rcases tablePath_cases okPath (nodes path okPath.node) with ⟨_, deep, here⟩ | ⟨_, there⟩
    · have points := child_eq_some.mp (here.symm.trans reached)
      rw [← points.2, (newTable deep points.1).2 index belowIndex]
      exact fun isTable => absurd isTable.valid not_valid_zero
    · have before := there.symm.trans reached
      rw [space.word_set ok found below okPath before belowIndex]
      split
      · rename_i same
        intro isTable mark
        rw [same.1, same.2] at mark
        exact permitted (same.1 ▸ leaf) isTable mark
      · exact space.guarded path other index okPath leaf before belowIndex
  · exact alone

/-- A loose page is linked into an empty slot. A page that becomes a table is empty. -/
theorem link (ok : TablePath place) (found : node m mm place = some table) (below : slot < 512)
    (empty : ¬ Valid (m (table + 8 * slot))) (isTable : IsTable value)
    (member : descAddr value ∈ loose)
    (clear : place.length < 3 → ∀ more < 512, m (descAddr value + 8 * more) = 0#64)
    (permitted : place.length = 3 → marked (place ++ [slot]) → ¬ Writable value) :
    (∀ path, NodePath path → node (m.set (table + 8 * slot) value) mm path =
      if path = place ++ [slot] then child value else node m mm path) ∧
    Space (m.set (table + 8 * slot) value) mm (loose.filter (· ≠ descAddr value)) held marked := by
  have listed := space.owned.nodes place table ok.node found
  have apart : descAddr value ≠ table := fun same => listed.2 (same ▸ member)
  have address := space.addresses _ (space.owned.kept _ member)
  have cleared : place.length < 3 → ∀ more < 512,
      m.set (table + 8 * slot) value (descAddr value + 8 * more) = 0#64 := by
    intro deep more small
    rw [Mem.set_other, clear deep more small]
    intro same
    exact apart (Radix.slot_once address.aligned (space.dvd table listed.1) small below same).1
  have before : node m mm (place ++ [slot]) = none := by
    rw [node_snoc slot found]
    exact if_neg fun valid => empty valid.valid
  have nodes : ∀ path, NodePath path → node (m.set (table + 8 * slot) value) mm path =
      if path = place ++ [slot] then child value else node m mm path := by
    intro path okPath
    apply space.node_write ok found below _ okPath
    intro more small deep
    constructor
    · intro next points
      rw [← node_snoc slot found, before] at points
      cases points
    · intro next points
      rw [child_of_isTable isTable] at points
      cases Option.some.inj points
      rw [cleared deep more small, child_zero]
  apply And.intro nodes
  apply space.write ok found below nodes
  · apply space.owned.link (ok.snoc below) member before
    · rw [nodes _ (ok.snoc below), if_pos rfl, child_of_isTable isTable]
    · intro path okPath elsewhere
      rw [nodes path okPath, if_neg elsewhere]
  · exact space.bounded
  · exact space.addresses
  · exact fun pa still => space.alone pa (List.mem_filter.mp still).1
  · exact fun _ _ _ single => single
  · exact fun _ => isTable
  · exact fun deep _ => ⟨space.alone _ member, cleared deep⟩
  · exact fun _ _ => space.alone _ member
  · exact fun leaf _ => permitted leaf

/-- Writing a level 3 entry moves at most the page it points to. -/
theorem leaf_write (ok : TablePath place) (leaf : place.length = 3)
    (found : node m mm place = some table) (below : slot < 512) (value : BitVec 64)
    (okPath : NodePath path) :
    node (m.set (table + 8 * slot) value) mm path =
      if path = place ++ [slot] then child value else node m mm path :=
  space.node_write ok found below (fun _ _ deep => absurd deep (by omega)) okPath

/-- The page of a level 3 entry is given up together with the entry. -/
theorem unlink (ok : TablePath place) (leaf : place.length = 3)
    (found : node m mm place = some table) (below : slot < 512)
    (isTable : IsTable (m (table + 8 * slot))) :
    Space (m.set (table + 8 * slot) 0#64)
      (mm.withPages (mm.pages.erase (descAddr (m (table + 8 * slot))))) loose held marked := by
  have none : ¬ IsTable 0#64 := by decide
  have nodes := fun path (okPath : NodePath path) =>
    space.leaf_write ok leaf found below 0#64 okPath
  apply space.write ok found below nodes
  · apply space.owned.unlink (ok.snoc below)
    · rw [node_snoc slot found, child_of_isTable isTable]
    · rw [nodes _ (ok.snoc below), if_pos rfl, child_zero]
    · intro path okPath elsewhere
      rw [nodes path okPath, if_neg elsewhere]
  · exact Nat.le_trans List.erase_sublist.length_le space.bounded
  · exact fun other still => space.addresses other (List.mem_of_mem_erase still)
  · exact space.alone
  · exact fun _ _ _ single => single
  · exact fun valid => absurd valid not_valid_zero
  · exact fun _ isTable => absurd isTable none
  · exact fun isTable => absurd isTable none
  · exact fun _ isTable => absurd isTable none

/-- A level 3 entry changes its permissions, and the page it points to may gain references. -/
theorem rewrite (ok : TablePath place) (leaf : place.length = 3)
    (found : node m mm place = some table) (below : slot < 512)
    (isTable : IsTable (m (table + 8 * slot))) (still : IsTable value)
    (samePage : descAddr value = descAddr (m (table + 8 * slot)))
    (keep : ∀ pa ∈ mm.pages, pa ≠ descAddr value → held pa = 1 → raised pa = 1)
    (single : Writable value → raised (descAddr value) = 1)
    (permitted : marked (place ++ [slot]) → ¬ Writable value) :
    (∀ path, NodePath path → node (m.set (table + 8 * slot) value) mm path = node m mm path) ∧
      Space (m.set (table + 8 * slot) value) mm loose raised marked := by
  have writes := fun path (okPath : NodePath path) =>
    space.leaf_write ok leaf found below value okPath
  have nodes : ∀ path, NodePath path →
      node (m.set (table + 8 * slot) value) mm path = node m mm path := by
    intro path okPath
    rw [writes path okPath]
    split
    · rename_i here
      rw [here, node_snoc slot found, child_of_isTable still, child_of_isTable isTable, samePage]
    · rfl
  have placed : node m mm (place ++ [slot]) = some (descAddr value) := by
    rw [node_snoc slot found, child_of_isTable isTable, samePage]
  apply And.intro nodes
  apply space.write ok found below writes (space.owned.congr nodes) space.bounded space.addresses
  · intro pa member
    have apart : pa ≠ descAddr value := by
      intro same
      exact (space.owned.nodes _ _ (ok.snoc below) placed).2 (same ▸ member)
    exact keep pa (space.owned.kept pa member) apart (space.alone pa member)
  · exact fun pa member apart => keep pa member (apart still)
  · exact fun _ => still
  · exact fun deep => absurd deep (by omega)
  · exact fun _ => single
  · exact fun _ _ => permitted

/-- A page another context has as well is tracked and mapped read-only. -/
theorem share (ok : TablePath place) (leaf : place.length = 3)
    (found : node m mm place = some table) (below : slot < 512)
    (empty : ¬ Valid (m (table + 8 * slot))) (isTable : IsTable value) (readOnly : ¬ Writable value)
    (absent : descAddr value ∉ mm.pages) (room : mm.pages.length < 256)
    (keep : ∀ pa ∈ mm.pages, held pa = 1 → raised pa = 1) :
    (∀ path, NodePath path → node (m.set (table + 8 * slot) value) mm path =
      if path = place ++ [slot] then child value else node m mm path) ∧
    Space (m.set (table + 8 * slot) value) (mm.withPages (mm.pages ++ [descAddr value])) loose raised
      marked := by
  have nodes := fun path (okPath : NodePath path) =>
    space.leaf_write ok leaf found below value okPath
  have before : node m mm (place ++ [slot]) = none := by
    rw [node_snoc slot found]
    exact if_neg fun valid => empty valid.valid
  have taken := space.owned.take absent
  have unlinked := filter_fresh fun member => absent (space.owned.kept _ member)
  have owned : Radix.Owned 512 4 (node (m.set (table + 8 * slot) value) mm)
      (mm.pages ++ [descAddr value]) loose := by
    rw [← unlinked]
    apply taken.link (ok.snoc below) List.mem_cons_self before
    · rw [nodes _ (ok.snoc below), if_pos rfl, child_of_isTable isTable]
    · intro path okPath elsewhere
      rw [nodes path okPath, if_neg elsewhere]
  apply And.intro nodes
  apply space.write ok found below nodes owned
  · rw [List.length_append, List.length_singleton]
    omega
  · intro pa member
    rcases List.mem_append.mp member with inside | last
    · exact space.addresses pa inside
    · exact List.mem_singleton.mp last ▸ descAddr_pageAddr value
  · exact fun pa member => keep pa (space.owned.kept pa member) (space.alone pa member)
  · exact fun pa member _ => keep pa member
  · exact fun _ => isTable
  · exact fun deep => absurd deep (by omega)
  · exact fun _ writable => absurd writable readOnly
  · exact fun _ _ _ => readOnly

end

end Write

end Space

end OsArmv8a.Mmu
