import OsArmv8a.Lib.Memory

/-! Radix trees kept in memory: a node is an array of `fan` words, and `child` says
which node a word points to. A path is the list of slots followed from the root. -/

set_option autoImplicit false

namespace Radix

/-- A path that stays inside a tree of the given fan-out and depth. -/
structure Path (fan depth : Nat) (path : List Nat) : Prop where
  short : path.length ≤ depth
  slots : ∀ slot ∈ path, slot < fan

section Descend

variable (child : BitVec 64 → Option Nat)

/-- The node at the end of a path. -/
def descend (m : Mem) : Nat → List Nat → Option Nat
  | node, [] => some node
  | node, slot :: rest => (child (m (node + 8 * slot))).bind fun next => descend m next rest

variable {child}

theorem descend_append (m : Mem) (path rest : List Nat) : ∀ node,
    descend child m node (path ++ rest) =
      (descend child m node path).bind fun next => descend child m next rest := by
  induction path with
  | nil => intro node; rfl
  | cons slot path ih =>
    intro node
    show (child _).bind _ = ((child _).bind _).bind _
    rw [Option.bind_assoc]
    congr 1
    funext next
    exact ih next

theorem descend_snoc {m : Mem} {node next : Nat} {path : List Nat} (slot : Nat)
    (found : descend child m node path = some next) :
    descend child m node (path ++ [slot]) = child (m (next + 8 * slot)) := by
  rw [descend_append, found]
  exact Option.bind_fun_some _

/-- A walk depends only on the words it reads. -/
theorem descend_congr {m fresh : Mem} {path : List Nat} : ∀ {node : Nat},
    (∀ start slot at', start ++ [slot] <+: path → descend child m node start = some at' →
      fresh (at' + 8 * slot) = m (at' + 8 * slot)) →
    descend child fresh node path = descend child m node path := by
  induction path with
  | nil => intro node _; rfl
  | cons slot rest ih =>
    intro node same
    have first : fresh (node + 8 * slot) = m (node + 8 * slot) :=
      same [] slot node (List.cons_prefix_cons.mpr ⟨rfl, List.nil_prefix⟩) rfl
    show (child (fresh _)).bind _ = (child (m _)).bind _
    rw [first]
    cases below : child (m (node + 8 * slot)) with
    | none => rfl
    | some next =>
      apply ih
      intro start last at' inside found
      apply same (slot :: start) last at' (List.cons_prefix_cons.mpr ⟨rfl, inside⟩)
      show (child (m _)).bind _ = some at'
      rw [below]
      exact found

end Descend

variable {fan depth : Nat} {path : List Nat}

theorem Path.initial {start : List Nat} (ok : Path fan depth path) (inside : start <+: path) :
    Path fan depth start :=
  ⟨Nat.le_trans inside.length_le ok.short, fun slot member => ok.slots slot (inside.subset member)⟩

theorem Path.snoc (ok : Path fan depth path) {slot : Nat} (below : slot < fan) :
    Path fan (depth + 1) (path ++ [slot]) := by
  constructor
  · have short := ok.short
    simp only [List.length_append, List.length_cons, List.length_nil]
    omega
  · intro other member
    rcases List.mem_append.mp member with inside | last
    · exact ok.slots other inside
    · exact List.mem_singleton.mp last ▸ below

theorem Path.mono {deeper : Nat} (ok : Path fan depth path) (more : depth ≤ deeper) :
    Path fan deeper path :=
  ⟨Nat.le_trans ok.short more, ok.slots⟩

/-- The nodes of a tree are pages of an owner, each at one place. `loose` are the owner's pages
that are not in the tree. -/
structure Owned (fan depth : Nat) (node : List Nat → Option Nat) (pages loose : List Nat) :
    Prop where
  nodup : pages.Nodup
  kept : ∀ page ∈ loose, page ∈ pages
  nodes : ∀ path page, Path fan depth path → node path = some page → page ∈ pages ∧ page ∉ loose
  once : ∀ path other page, Path fan depth path → Path fan depth other →
    node path = some page → node other = some page → path = other
  covered : ∀ page ∈ pages, page ∈ loose ∨ ∃ path, Path fan depth path ∧ node path = some page

namespace Owned

variable {fan depth : Nat} {node fresh : List Nat → Option Nat} {pages loose : List Nat}

theorem congr (owned : Owned fan depth node pages loose)
    (same : ∀ path, Path fan depth path → fresh path = node path) :
    Owned fan depth fresh pages loose where
  nodup := owned.nodup
  kept := owned.kept
  nodes path page ok found := owned.nodes path page ok (same path ok ▸ found)
  once path other page ok okOther found also :=
    owned.once path other page ok okOther (same path ok ▸ found) (same other okOther ▸ also)
  covered page member := (owned.covered page member).imp_right fun reached =>
    reached.imp fun path both => ⟨both.1, (same path both.1).trans both.2⟩

variable {page : Nat}

/-- The owner takes a page that is not in the tree yet. -/
theorem take (owned : Owned fan depth node pages loose) (absent : page ∉ pages) :
    Owned fan depth node (pages ++ [page]) (page :: loose) where
  nodup := by
    apply List.nodup_append'.mpr
    exact ⟨owned.nodup, List.nodup_singleton page, by simpa using absent⟩
  kept other member := by
    rcases List.mem_cons.mp member with rfl | member
    · simp
    · exact List.mem_append_left _ (owned.kept other member)
  nodes path other ok found := by
    have old := owned.nodes path other ok found
    apply And.intro (List.mem_append_left _ old.1)
    intro member
    rcases List.mem_cons.mp member with rfl | member
    · exact absent old.1
    · exact old.2 member
  once := owned.once
  covered other member := by
    rcases List.mem_append.mp member with inside | last
    · exact (owned.covered other inside).imp_left (List.mem_cons_of_mem page)
    · exact Or.inl (List.mem_singleton.mp last ▸ List.mem_cons_self)

/-- The owner gives up a page that is not in the tree. -/
theorem give (owned : Owned fan depth node pages loose) (member : page ∈ loose) :
    Owned fan depth node (pages.erase page) (loose.filter (· ≠ page)) where
  nodup := owned.nodup.erase page
  kept other still := by
    have both := List.mem_filter.mp still
    exact (List.mem_erase_of_ne (of_decide_eq_true both.2)).mpr (owned.kept other both.1)
  nodes path other ok found := by
    have old := owned.nodes path other ok found
    have different : other ≠ page := fun same => old.2 (same ▸ member)
    exact ⟨(List.mem_erase_of_ne different).mpr old.1,
      fun still => old.2 (List.mem_filter.mp still).1⟩
  once := owned.once
  covered other still := by
    have both := owned.nodup.mem_erase_iff.mp still
    apply (owned.covered other both.2).imp_left
    intro inside
    exact List.mem_filter.mpr ⟨inside, decide_eq_true both.1⟩

variable {place : List Nat}

/-- A loose page becomes the node of a path that had none. -/
theorem link (owned : Owned fan depth node pages loose) (ok : Path fan depth place)
    (member : page ∈ loose) (empty : node place = none) (placed : fresh place = some page)
    (same : ∀ path, Path fan depth path → path ≠ place → fresh path = node path) :
    Owned fan depth fresh pages (loose.filter (· ≠ page)) where
  nodup := owned.nodup
  kept other still := owned.kept other (List.mem_filter.mp still).1
  nodes path other okPath found := by
    by_cases here : path = place
    · subst here
      cases Option.some.inj (placed.symm.trans found)
      exact ⟨owned.kept page member, fun still => of_decide_eq_true (List.mem_filter.mp still).2 rfl⟩
    · have old := owned.nodes path other okPath ((same path okPath here).symm.trans found)
      exact ⟨old.1, fun still => old.2 (List.mem_filter.mp still).1⟩
  once path other shared okPath okOther found also := by
    have apart : ∀ path, Path fan depth path → path ≠ place → fresh path ≠ some page := by
      intro path okPath here found
      exact (owned.nodes path page okPath ((same path okPath here).symm.trans found)).2 member
    by_cases here : path = place
    · by_cases there : other = place
      · exact here.trans there.symm
      · subst here
        cases Option.some.inj (placed.symm.trans found)
        exact absurd also (apart other okOther there)
    · by_cases there : other = place
      · subst there
        cases Option.some.inj (placed.symm.trans also)
        exact absurd found (apart path okPath here)
      · exact owned.once path other shared okPath okOther
          ((same path okPath here).symm.trans found) ((same other okOther there).symm.trans also)
  covered other inside := by
    by_cases here : other = page
    · exact Or.inr ⟨place, ok, here ▸ placed⟩
    · rcases owned.covered other inside with still | reached
      · exact Or.inl (List.mem_filter.mpr ⟨still, decide_eq_true here⟩)
      · obtain ⟨path, okPath, found⟩ := reached
        have elsewhere : path ≠ place := fun equal => by
          rw [equal, empty] at found
          cases found
        exact Or.inr ⟨path, okPath, (same path okPath elsewhere).trans found⟩

/-- The node of a path leaves the tree and its page leaves the owner. -/
theorem unlink (owned : Owned fan depth node pages loose) (ok : Path fan depth place)
    (found : node place = some page) (removed : fresh place = none)
    (same : ∀ path, Path fan depth path → path ≠ place → fresh path = node path) :
    Owned fan depth fresh (pages.erase page) loose := by
  have gone := owned.nodes place page ok found
  have elsewhere : ∀ path other, fresh path = some other → path ≠ place := by
    intro path other reached equal
    rw [equal, removed] at reached
    cases reached
  constructor
  · exact owned.nodup.erase page
  · intro other still
    have different : other ≠ page := fun equal => gone.2 (equal ▸ still)
    exact (List.mem_erase_of_ne different).mpr (owned.kept other still)
  · intro path other okPath reached
    have apart := elsewhere path other reached
    have before := (same path okPath apart).symm.trans reached
    have old := owned.nodes path other okPath before
    have different : other ≠ page := by
      intro equal
      exact apart (owned.once path place page okPath ok (equal ▸ before) found)
    exact ⟨(List.mem_erase_of_ne different).mpr old.1, old.2⟩
  · intro path other shared okPath okOther reached also
    exact owned.once path other shared okPath okOther
      ((same path okPath (elsewhere path shared reached)).symm.trans reached)
      ((same other okOther (elsewhere other shared also)).symm.trans also)
  · intro other still
    have both := owned.nodup.mem_erase_iff.mp still
    apply (owned.covered other both.2).imp_right
    intro reached
    obtain ⟨path, okPath, before⟩ := reached
    have apart : path ≠ place := fun equal => by
      rw [equal, found] at before
      exact both.1 (Option.some.inj before).symm
    exact ⟨path, okPath, (same path okPath apart).trans before⟩

end Owned

/-- Words of aligned nodes are the same only in the same slot of the same node. -/
theorem slot_once {node other slot index : Nat} (aligned : 8 * fan ∣ node)
    (alignedOther : 8 * fan ∣ other) (below : slot < fan) (belowOther : index < fan)
    (same : node + 8 * slot = other + 8 * index) : node = other ∧ slot = index := by
  obtain ⟨k, rfl⟩ := aligned
  obtain ⟨j, rfl⟩ := alignedOther
  have quotient : k = j := by
    have left : (8 * fan * k + 8 * slot) / (8 * fan) = k := by
      rw [Nat.mul_add_div (by omega), Nat.div_eq_of_lt (by omega), Nat.add_zero]
    have right : (8 * fan * j + 8 * index) / (8 * fan) = j := by
      rw [Nat.mul_add_div (by omega), Nat.div_eq_of_lt (by omega), Nat.add_zero]
    rw [← left, same, right]
  subst quotient
  exact ⟨rfl, by omega⟩

section Write

variable {child : BitVec 64 → Option Nat} {fan depth : Nat} {m : Mem} {root : Nat}
  {pages loose : List Nat} {place : List Nat} {slot node : Nat}

section

variable (owned : Owned fan depth (descend child m root) pages loose)
  (aligned : ∀ page ∈ pages, 8 * fan ∣ page) (ok : Path fan depth (place ++ [slot]))
  (found : descend child m root place = some node)

include owned aligned ok found

/-- Writing one slot leaves every path alone that does not go through it. -/
theorem descend_write_outside (value : BitVec 64) {path : List Nat} (okPath : Path fan depth path)
    (outside : ¬ place ++ [slot] <+: path) :
    descend child (m.set (node + 8 * slot) value) root path = descend child m root path := by
  have okPlace : Path fan depth place := ok.initial (List.prefix_append _ _)
  have below : slot < fan := ok.slots slot (by simp)
  apply descend_congr
  intro start last at' inside reached
  have okStart : Path fan depth (start ++ [last]) := okPath.initial inside
  have okShort : Path fan depth start := okStart.initial (List.prefix_append _ _)
  apply Mem.set_other
  intro same
  have equal := slot_once (aligned at' (owned.nodes start at' okShort reached).1)
    (aligned node (owned.nodes place node okPlace found).1) (okStart.slots last (by simp)) below same
  have route : start = place := owned.once start place node okShort okPlace (equal.1 ▸ reached) found
  rw [route, equal.2] at inside
  exact outside inside

theorem descend_write_inside (value : BitVec 64) (rest : List Nat) :
    descend child (m.set (node + 8 * slot) value) root (place ++ slot :: rest) =
      (child value).bind fun next => descend child (m.set (node + 8 * slot) value) next rest := by
  have okPlace : Path fan depth place := ok.initial (List.prefix_append _ _)
  have outside : ¬ place ++ [slot] <+: place := by
    intro inside
    have longer := inside.length_le
    simp only [List.length_append, List.length_cons] at longer
    omega
  rw [descend_append, descend_write_outside owned aligned ok found value okPlace outside, found]
  show (child (m.set (node + 8 * slot) value (node + 8 * slot))).bind _ = _
  rw [Mem.set_same]

/-- Writing a slot whose old and new nodes have no children changes one path. -/
theorem descend_write (value : BitVec 64)
    (childless : ∀ more, more < fan → place.length + 1 < depth →
      (∀ next, child (m (node + 8 * slot)) = some next → child (m (next + 8 * more)) = none) ∧
      ∀ next, child value = some next →
        child (m.set (node + 8 * slot) value (next + 8 * more)) = none)
    {path : List Nat} (okPath : Path fan depth path) :
    descend child (m.set (node + 8 * slot) value) root path =
      if path = place ++ [slot] then child value else descend child m root path := by
  by_cases through : place ++ [slot] <+: path
  · obtain ⟨rest, rfl⟩ := through
    rw [List.append_assoc] at okPath ⊢
    show descend child _ root (place ++ slot :: rest) = _
    rw [descend_write_inside owned aligned ok found value]
    cases rest with
    | nil =>
      rw [if_pos (by rfl)]
      exact Option.bind_fun_some _
    | cons more rest =>
      have deep : place.length + 1 < depth := by
        have short := okPath.short
        simp at short
        omega
      have none := childless more (okPath.slots more (by simp)) deep
      have old : descend child m root (place ++ ([slot] ++ more :: rest)) = Option.none := by
        rw [← List.append_assoc, descend_append, descend_snoc slot found]
        cases before : child (m (node + 8 * slot)) with
        | none => rfl
        | some next =>
          show (child (m (next + 8 * more))).bind _ = Option.none
          rw [none.1 next before]
          rfl
      rw [if_neg (by simp), old]
      cases now : child value with
      | none => rfl
      | some next =>
        show (child (m.set (node + 8 * slot) value (next + 8 * more))).bind _ = Option.none
        rw [none.2 next now]
        rfl
  · rw [descend_write_outside owned aligned ok found value okPath through, if_neg]
    intro same
    exact through (same ▸ List.prefix_rfl)

end

end Write

end Radix
