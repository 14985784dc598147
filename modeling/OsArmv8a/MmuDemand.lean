import OsArmv8a.MmuRun

/-! Demand paging: what the translation faults of one process leave alone, and that the pages
they build one at a time hold what loading the whole image at once would put there. -/

set_option autoImplicit false

namespace OsArmv8a.Mmu

open PageAlloc (Managed pageAlloc pageFree Acquired Dropped)

section Contents

/-- The byte an eager loader would put at an address of a region. -/
def eagerByte (m : Mem) (region : VmRegion) (va : Nat) : BitVec 8 :=
  if va - region.start < region.fileSize then
    kernelByte m (region.elfImage + region.elfOffset + (va - region.start))
  else 0#8

/-- Where byte `k` of a region comes from in physical memory. -/
def sourcePa (region : VmRegion) (k : Nat) : Nat :=
  PageAlloc.pagePtrToPa true (region.elfImage + region.elfOffset + k)

/-- The memory words behind the bytes of a region. -/
def imageWords (region : VmRegion) (a : Nat) : Prop :=
  ∃ k, k < region.fileSize ∧ k < region.stop - region.start ∧ a = 8 * (sourcePa region k / 8)

/-- An ELF region with page-aligned bounds in the 48-bit address space, whose source bytes are
addressable. -/
structure ElfRegion (region : VmRegion) : Prop where
  elf : region.type = .elf
  aligned : 4096 ∣ region.start ∧ 4096 ∣ region.stop
  user : region.stop ≤ 2 ^ 48
  source : ∀ k, k < region.fileSize → k < region.stop - region.start →
    region.elfImage ≠ 0 ∧ region.elfImage + region.elfOffset + k < 2 ^ 64

variable {region : VmRegion}

/-- Each page is built from clamped offsets; together they are the whole segment. -/
theorem fillFromRegion_byte (ok : ElfRegion region) {va : Nat} (lower : region.start ≤ va)
    (upper : va < region.stop) {pa : Nat} (aligned : 4096 ∣ pa) (m : Mem)
    (apart : ∀ a, imageWords region a → a < pa ∨ pa + 4096 ≤ a) :
    (fillFromRegion region (4096 * (va / 4096)) pa m).byte (pa + va % 4096) =
      eagerByte m region va := by
  have bounds := ok.aligned
  have user := ok.user
  have page : region.start ≤ 4096 * (va / 4096) := by omega
  have offset : Word64.sub (4096 * (va / 4096)) region.start =
      4096 * (va / 4096) - region.start := Word64.sub_of_le page (by omega)
  have position : va - region.start = 4096 * (va / 4096) - region.start + va % 4096 := by omega
  have zeroed : (m.zero pa 4096).byte (pa + va % 4096) = 0#8 :=
    Mem.byte_zero m (by omega) (by omega)
  unfold fillFromRegion eagerByte elfSource
  rw [offset]
  by_cases filed : va - region.start < region.fileSize
  · have source := ok.source _ filed (by omega)
    rw [if_pos filed, if_pos ⟨ok.elf, source.1, by omega⟩]
    rw [Mem.byte_fillBytes _ _ _ (by omega), Word64.add_of_lt (a := region.elfImage) (by omega),
      Word64.add_of_lt (a := region.elfImage + region.elfOffset) (by omega),
      Word64.add_of_lt (by omega), Nat.add_assoc _ _ (va % 4096), ← position]
    have outside := apart _ ⟨_, filed, by omega, rfl⟩
    exact Mem.byte_congr ((Mem.fillBytes_outside _ _ _ (by unfold sourcePa at outside; omega)).trans
      (Mem.zero_outside m outside))
  · rw [if_neg filed]
    split
    · exact zeroed
    · rename_i length found
      obtain ⟨-, found⟩ := Option.ite_none_right_eq_some.mp found
      cases found
      rw [Mem.byte_fillBytes_outside _ _ _ (by omega)]
      exact zeroed

end Contents

section Faults

variable {foreign : Nat → Prop} {marked : Nat → List Nat → Prop} {w t : World} {active : Nat}
  {words : Nat → Prop}

/-- What an address space rests on: the valid entries of its tables and its user pages. -/
def World.fabric (w : World) (id a : Nat) : Prop :=
  (∃ path table slot, TablePath path ∧ node w.pages.mem (w.contexts id) path = some table ∧
    slot < 512 ∧ Valid (w.load (table + 8 * slot)) ∧ a = table + 8 * slot) ∨
  ∃ path pa, NodePath path ∧ path.length = 4 ∧
    node w.pages.mem (w.contexts id) path = some pa ∧ pa ≤ a ∧ a < pa + 4096

theorem Inv.fabric (inv : Inv foreign marked w [] active []) (live : active ∈ w.live) :
    Guards w active (w.fabric active) := by
  have space := inv.space live
  have allocated : ∀ path page a, NodePath path →
      node w.pages.mem (w.contexts active) path = some page → page ≤ a → a < page + 4096 →
      ∀ pa, Managed w.pages pa → pa ≤ a → a < pa + 4096 → w.pages.stateAt pa = .allocated := by
    intro path page a ok found lower upper pa managed lowerPa upperPa
    have listed := (space.owned.nodes path page ok found).1
    have owned := inv.managed_of_listed live listed
    have aligned := owned.1.2.2
    have alignedPa := managed.2.2
    have same : pa = page := by omega
    exact same ▸ owned.2
  constructor
  · rintro a (⟨path, table, slot, ok, found, below, -, rfl⟩ | ⟨path, page, ok, -, found, lower, upper⟩)
    · exact allocated path table _ ok.node found (by omega) (by omega)
    · exact allocated path page a ok found lower upper
  · rintro path table slot ok found below
      (⟨-, other, index, -, -, -, valid, same⟩ | ⟨leaf, page, okLeaf, length, foundLeaf, lower, upper⟩)
    · rw [same]
      exact valid
    · have listed := (space.owned.nodes path table ok.node found).1
      have listedPage := (space.owned.nodes leaf page okLeaf foundLeaf).1
      have aligned := (space.addresses table listed).aligned
      have alignedPage := (space.addresses page listedPage).aligned
      have same : table = page := by omega
      have equal := space.owned.once path leaf page ok.node okLeaf (same ▸ found) foundLeaf
      have short := ok.short
      rw [equal, length] at short
      omega

theorem Guards.union {more : Nat → Prop} (first : Guards w active words)
    (second : Guards w active more) : Guards w active fun a => words a ∨ more a :=
  ⟨fun a member => member.elim (first.reserved a) (second.reserved a),
    fun path table slot ok found below member => member.elim
      (first.entries path table slot ok found below) (second.entries path table slot ok found below)⟩

/-- A walk that succeeds reads valid entries only. -/
theorem valid_on_walk {m : Mem} {mm : MmContext} {path start : List Nat} {slot table found : Nat}
    (whole : node m mm path = some found) (inside : start ++ [slot] <+: path)
    (reached : node m mm start = some table) : Valid (m (table + 8 * slot)) := by
  obtain ⟨rest, rfl⟩ := inside
  unfold node at whole
  rw [Radix.descend_append] at whole
  obtain ⟨next, step, -⟩ := Option.bind_eq_some_iff.mp whole
  exact (child_eq_some.mp ((node_snoc slot reached).symm.trans step)).1.valid

variable {va pa : Nat} {entry : BitVec 64}

theorem Spared.resident (spared : Spared w t active words)
    (fabric : ∀ a, w.fabric active a → words a)
    (root : (t.contexts active).rootPa = (w.contexts active).rootPa)
    (resident : Resident w active va pa entry) : Resident t active va pa entry := by
  obtain ⟨table, found, word⟩ := resident.desc
  refine ⟨⟨table, ?_, ?_⟩, resident.page⟩
  · rw [← found]
    unfold node
    rw [root]
    apply Radix.descend_congr
    intro start slot inner inside reached
    have ok : TablePath start :=
      (tablePathOf_ok va).initial ((List.prefix_append start [slot]).trans inside)
    have below : slot < 512 := (tablePathOf_ok va).slots slot (inside.subset (by simp))
    exact spared.same _ (fabric _ (Or.inl ⟨start, inner, slot, ok, reached, below,
      valid_on_walk found inside reached, rfl⟩))
  · rw [← word]
    apply spared.same
    apply fabric
    refine Or.inl ⟨_, table, _, tablePathOf_ok va, found, l3Index_lt va, ?_, rfl⟩
    rw [word]
    exact resident.page.1.valid

theorem Resident.node (resident : Resident w active va pa entry) :
    node w.pages.mem (w.contexts active) (pathOf va) = some pa := by
  obtain ⟨table, found, word⟩ := resident.desc
  rw [node_pathOf found]
  show child (w.load _) = _
  rw [word, child_of_isTable resident.page.1, resident.page.2]

theorem resident_of_node (found : Mmu.node w.pages.mem (w.contexts active) (pathOf va) = some pa) :
    ∃ entry, Resident w active va pa entry := by
  cases resolved : resolveUserPage w.pages.mem (w.contexts active) va with
  | none => rw [resolveUserPage_none.mp resolved] at found; cases found
  | some page =>
    have resident := resident_iff.mpr (show _ = some (page.1, page.2) from resolved)
    cases Option.some.inj (found.symm.trans resident.node)
    exact ⟨page.2, resident⟩

theorem Resident.unique {pa' : Nat} {entry' : BitVec 64} (first : Resident w active va pa entry)
    (second : Resident w active va pa' entry') : pa = pa' ∧ entry = entry' := by
  have same := (resident_iff.mp first).symm.trans (resident_iff.mp second)
  exact Prod.mk.inj (Option.some.inj same)

theorem Resident.of_path {other : Nat} (same : pathOf va = pathOf other)
    (resident : Resident w active va pa entry) : Resident w active other pa entry := by
  obtain ⟨tables, index⟩ := List.append_inj' same rfl
  obtain ⟨table, found, word⟩ := resident.desc
  rw [List.singleton_inj] at index
  exact ⟨⟨table, tables ▸ found, index ▸ word⟩, resident.page⟩

/-- A translation fault at `far`: guarded words stay, no leaf but that of `far` appears, and a
page that was not there before is built from the region of `far`. -/
structure Served (layout : VmLayout) (w t : World) (active far : Nat) (words : Nat → Prop) :
    Prop where
  spared : Spared w t active words
  root : (t.contexts active).rootPa = (w.contexts active).rootPa
  others : ∀ path, NodePath path → path.length = 4 → path ≠ pathOf far →
    node t.pages.mem (t.contexts active) path = node w.pages.mem (w.contexts active) path
  built : node w.pages.mem (w.contexts active) (pathOf far) = none → ∀ pa entry region,
    Resident t active far pa entry → regionFor layout far = some region →
    entry = pageEntry pa region.flags ∧ ∃ pages, Acquired w.pages pages pa ∧
      ∀ a, pa ≤ a → a < pa + 4096 →
        t.pages.mem a = fillFromRegion region (4096 * (far / 4096)) pa pages.mem a

theorem Served.refl (layout : VmLayout) (far : Nat) (guards : Guards w active words) :
    Served layout w w active far words := by
  refine ⟨⟨guards, fun _ _ => rfl⟩, rfl, fun _ _ _ _ => rfl, ?_⟩
  intro absent pa entry region resident
  cases absent.symm.trans resident.node

/-- A context in use that no call is working on. -/
structure AtRest (foreign : Nat → Prop) (w : World) (active : Nat) : Prop where
  inv : Inv foreign (fun _ _ => False) w [] active []
  live : active ∈ w.live

theorem AtRest.space (rest : AtRest foreign w active) :
    Space w.pages.mem (w.contexts active) [] (w.held []) (fun _ => False) :=
  rest.inv.space rest.live

theorem Sound.atRest {s : System} (sound : Sound (fun _ _ => False) s) (live : active ∈ s.live) :
    AtRest (s.kernel · = true) s.world active :=
  ⟨sound.inv active, live⟩

variable {layout : VmLayout} {far : Nat} {handled : Bool}

theorem translationFault_served (rest : AtRest foreign w active)
    (absent : node w.pages.mem (w.contexts active) (pathOf far) = none)
    (guards : Guards w active words) (result : translationFault layout w active far = (handled, t))
    : Served layout w t active far words := by
  have page := pathOf_page far
  obtain ⟨-, -, rfl⟩ | ⟨flags, prepare, -, plain, inside, covered, -, mapped⟩ :=
    translationFault_cases result
  · exact Served.refl layout far guards
  obtain ⟨pa, pages, mapping, contents⟩ := (mapNewPage_spec rest.inv rest.live (page ▸ absent) plain
    (fun mark => mark.elim) inside mapped).2 words guards
  refine ⟨mapping.spared, mapping.root,
    fun path ok length other => mapping.others path ok length (Or.inr (page ▸ other)), ?_⟩
  intro _ pa' entry region resident found
  obtain ⟨rfl, rfl⟩ := covered region found
  cases handled with
  | false =>
    have same := mapping.others _ (pathOf_ok far) rfl (Or.inl rfl)
    cases absent.symm.trans (same.symm.trans resident.node)
  | true =>
    have here := (mapping.here rfl).of_path page
    obtain ⟨rfl, rfl⟩ := here.unique resident
    exact ⟨rfl, pages, contents rfl⟩

theorem handlePageFault_served {esr : Nat} (rest : AtRest foreign w active)
    (translation : fscType esr = 0x04) (guards : Guards w active words)
    (result : handlePageFault layout w active far esr = (handled, t)) :
    Served layout w t active far words := by
  obtain ⟨-, rfl⟩ | ⟨-, rfl, -⟩ | ⟨permission, -⟩ | ⟨-, absent, faulted⟩ :=
    handlePageFault_cases result
  · exact Served.refl layout far guards
  · exact Served.refl layout far guards
  · cases translation.symm.trans permission
  · exact translationFault_served rest absent guards faulted

theorem Guards.empty (w : World) (active : Nat) : Guards w active fun _ => False :=
  ⟨fun _ member => member.elim, fun _ _ _ _ _ _ member => member.elim⟩

/-- A page that a translation fault builds outside every region is a fresh page of the heap or of
the stack. -/
theorem handlePageFault_fallback {esr : Nat} (rest : AtRest foreign w active)
    (translation : fscType esr = 0x04)
    (absent : node w.pages.mem (w.contexts active) (pathOf far) = none)
    (outside : regionFor layout far = none)
    (result : handlePageFault layout w active far esr = (handled, t))
    (resident : Resident t active far pa entry) :
    growable layout far = true ∧ entry = pageEntry pa defaultFlags ∧
      ∃ pages, Acquired w.pages pages pa ∧
        ∀ a, pa ≤ a → a < pa + 4096 → t.pages.mem a = pages.mem a := by
  have page := pathOf_page far
  obtain ⟨-, rfl⟩ | ⟨-, rfl, -⟩ | ⟨permission, -⟩ | ⟨-, -, faulted⟩ := handlePageFault_cases result
  · cases absent.symm.trans resident.node
  · cases absent.symm.trans resident.node
  · cases translation.symm.trans permission
  obtain ⟨-, -, rfl⟩ | ⟨flags, prepare, -, plain, inside, -, uncovered, mapped⟩ :=
    translationFault_cases faulted
  · cases absent.symm.trans resident.node
  obtain ⟨grows, rfl, rfl⟩ := uncovered outside
  obtain ⟨fresh, pages, mapping, contents⟩ := (mapNewPage_spec rest.inv rest.live (page ▸ absent) plain
    (fun mark => mark.elim) inside mapped).2 _ (Guards.empty w active)
  cases handled with
  | false =>
    have same := mapping.others _ (pathOf_ok far) rfl (Or.inl rfl)
    cases absent.symm.trans (same.symm.trans resident.node)
  | true =>
    obtain ⟨rfl, rfl⟩ := ((mapping.here rfl).of_path page).unique resident
    exact ⟨grows, rfl, pages, contents rfl⟩

/-- Below `2^48` an address is its path and its offset. -/
theorem page_eq_of_pathOf (small : va < 2 ^ 48) (smallFar : far < 2 ^ 48)
    (same : pathOf va = pathOf far) : far / 4096 = va / 4096 := by
  simp only [pathOf, tablePathOf, List.cons_append, List.nil_append, List.cons.injEq, and_true] at same
  obtain ⟨l0, l1, l2, l3⟩ := same
  unfold l0Index at l0
  unfold l1Index at l1
  unfold l2Index at l2
  unfold l3Index at l3
  omega

variable {region : VmRegion}

theorem eagerByte_congr {m fresh : Mem} (lower : region.start ≤ va) (upper : va < region.stop)
    (same : ∀ a, imageWords region a → fresh a = m a) :
    eagerByte fresh region va = eagerByte m region va := by
  unfold eagerByte
  split
  · rename_i filed
    exact Mem.byte_congr (same _ ⟨_, filed, by omega, rfl⟩)
  · rfl

/-- The page of `va` is absent or as an eager loader would have left it, and the image it
comes from is intact. -/
structure Loaded (m : Mem) (region : VmRegion) (id va : Nat) (w : World) : Prop where
  guards : Guards w id (imageWords region)
  image : ∀ a, imageWords region a → w.pages.mem a = m a
  resident : ∀ pa entry, Resident w id va pa entry →
    entry = pageEntry pa region.flags ∧
      w.pages.mem.byte (pa + va % 4096) = eagerByte m region va

/-- One fault keeps what is resident and builds what it adds from the image. -/
theorem Loaded.fault {m : Mem} (ok : ElfRegion region) (lower : region.start ≤ va)
    (upper : va < region.stop)
    (chosen : ∀ x, x / 4096 = va / 4096 → regionFor layout x = some region)
    (inv : Inv foreign marked w [] active []) (live : active ∈ w.live) (small : far < 2 ^ 48)
    (loaded : Loaded m region active va w)
    (served : Served layout w t active far fun a => imageWords region a ∨ w.fabric active a) :
    Loaded m region active va t ∧
      ∀ pa entry, Resident w active va pa entry → Resident t active va pa entry := by
  have kept : ∀ pa entry, Resident w active va pa entry → Resident t active va pa entry :=
    fun pa entry => served.spared.resident (fun a member => Or.inr member) served.root
  have user := ok.user
  refine ⟨⟨served.spared.guards.mono fun a member => Or.inl member, ?_, ?_⟩, kept⟩
  · intro a member
    exact (served.spared.same a (Or.inl member)).trans (loaded.image a member)
  intro pa entry resident
  cases before : node w.pages.mem (w.contexts active) (pathOf va) with
  | some old =>
    obtain ⟨word, was⟩ := resident_of_node before
    obtain ⟨rfl, rfl⟩ := (kept old word was).unique resident
    have loadedBefore := loaded.resident old word was
    refine ⟨loadedBefore.1, Eq.trans (Mem.byte_congr ?_) loadedBefore.2⟩
    have space := inv.space live
    have aligned := (space.addresses old (space.owned.nodes _ old (pathOf_ok va) before).1).aligned
    exact served.spared.same _ (Or.inr (Or.inr ⟨pathOf va, old, pathOf_ok va, rfl, before,
      by omega, by omega⟩))
  | none =>
    have path : pathOf va = pathOf far := by
      by_contra other
      have same := served.others _ (pathOf_ok va) rfl other
      cases before.symm.trans (same.symm.trans resident.node)
    have page := page_eq_of_pathOf (by omega) small path
    obtain ⟨flags, pages, acquired, contents⟩ := served.built (path ▸ before) pa entry region
      (resident.of_path path) (chosen far page)
    refine ⟨flags, ?_⟩
    have aligned : 4096 ∣ pa := Nat.dvd_of_mod_eq_zero acquired.managed.2.2
    have apart := fun a member => loaded.guards.reserved.apart acquired (a := a) member
    rw [page] at contents
    calc t.pages.mem.byte (pa + va % 4096)
        = (fillFromRegion region (4096 * (va / 4096)) pa pages.mem).byte (pa + va % 4096) :=
          Mem.byte_congr (contents _ (by omega) (by omega))
      _ = eagerByte pages.mem region va := fillFromRegion_byte ok lower upper aligned _ apart
      _ = eagerByte m region va := eagerByte_congr lower upper fun a member =>
          (acquired.frame a (apart a member)).trans (loaded.image a member)

end Faults

section Runs

/-- The ELF regions of a process are well formed and pairwise disjoint, and their sources lie in
memory that belongs to the rest of the kernel or is outside the page allocator. -/
structure ElfLayout (s : System) (layout : VmLayout) : Prop where
  regions : ∀ region ∈ layout.regions, region.type = .elf → ElfRegion region
  disjoint : layout.regions.Pairwise fun a b => a.type = .elf → b.type = .elf →
    a.stop ≤ b.start ∨ b.stop ≤ a.start
  images : ∀ region ∈ layout.regions, region.type = .elf → ∀ k, k < region.fileSize →
    k < region.stop - region.start → ∀ pa, Managed s.world.pages pa → pa ≤ sourcePa region k →
    sourcePa region k < pa + 4096 → s.kernel pa = true

/-- The translation faults of one process, each an address and a syndrome. -/
def faultEvents (layout : VmLayout) (id : Nat) (faults : List (Nat × Nat)) : List Event :=
  faults.map fun fault => .fault layout id fault.1 fault.2

theorem find?_last {α : Type} {p : α → Bool} {items earlier later : List α} {item : α}
    (split : items = earlier ++ item :: later) (here : p item = true)
    (none : ∀ other ∈ later, p other = false) : items.reverse.find? p = some item := by
  subst split
  simp only [List.reverse_append, List.reverse_cons, List.append_assoc, List.singleton_append]
  rw [List.find?_append, List.find?_eq_none.mpr, Option.none_or, List.find?_cons_of_pos here]
  intro other member
  simp [none other (List.mem_reverse.mp member)]

variable {s t : System} {layout : VmLayout} {id va : Nat} {earlier later : List VmRegion}
  {region : VmRegion}

/-- Regions are searched last to first, so the region of `va` is chosen on its whole page when
no later one covers any of it. -/
theorem regionFor_page (elf : ElfLayout s layout)
    (split : layout.regions = earlier ++ region :: later) (type : region.type = .elf)
    (inside : region.start ≤ va ∧ va < region.stop)
    (uncovered : ∀ other ∈ later, other.type ≠ .elf → ∀ x, x / 4096 = va / 4096 →
      ¬ (other.start ≤ x ∧ x < other.stop)) {x : Nat} (page : x / 4096 = va / 4096) :
    regionFor layout x = some region := by
  have member : region ∈ layout.regions := by simp [split]
  have bounds := (elf.regions region member type).aligned
  have within : region.start ≤ x ∧ x < region.stop := by omega
  refine find?_last split (decide_eq_true within) fun other belongs => decide_eq_false ?_
  by_cases also : other.type = .elf
  · have pairs := elf.disjoint
    rw [split] at pairs
    have apart := (List.pairwise_cons.mp (List.pairwise_append.mp pairs).2.1).1 other belongs
      type also
    omega
  · exact uncovered other belongs also x page

theorem ElfLayout.guards (elf : ElfLayout s layout) (member : region ∈ layout.regions)
    (type : region.type = .elf) {marked : Nat → List Nat → Prop} (sound : Sound marked s)
    (live : id ∈ s.live) : Guards s.world id (imageWords region) := by
  have inv := sound.inv id
  have owner : ∀ a, imageWords region a → ∀ pa, Managed s.world.pages pa → pa ≤ a →
      a < pa + 4096 → s.kernel pa = true := by
    rintro a ⟨k, filed, inside, rfl⟩ pa managed lower upper
    have aligned := managed.2.2
    exact elf.images region member type k filed inside pa managed (by omega) (by omega)
  constructor
  · intro a word pa managed lower upper
    exact (inv.apart pa (owner a word pa managed lower upper)).2.1
  · intro path table slot ok found below word
    have listed := ((inv.space live).owned.nodes path table ok.node found).1
    have managed := (inv.managed_of_listed live listed).1
    have free := (inv.apart table (owner _ word table managed (by omega) (by omega))).2.2
    have held : 0 < s.world.held [] table := held_pos_of_listed live listed
    omega

/-- Any sequence of translation faults of the process. -/
theorem Loaded.run {m : Mem} (ok : ElfRegion region)
    (lower : region.start ≤ va) (upper : va < region.stop)
    (chosen : ∀ x, x / 4096 = va / 4096 → regionFor layout x = some region)
    (faults : List (Nat × Nat)) : ∀ {s : System},
    (∀ fault ∈ faults, fault.1 < 2 ^ 48 ∧ fscType fault.2 = 0x04) →
    Sound (fun _ _ => False) s → id ∈ s.live → Loaded m region id va s.world →
    Transition.run step s (faultEvents layout id faults) = some t →
    Sound (fun _ _ => False) t ∧ id ∈ t.live ∧ Loaded m region id va t.world ∧
      ∀ pa entry, Resident s.world id va pa entry → Resident t.world id va pa entry := by
  induction faults with
  | nil =>
    intro s _ sound live loaded ran
    cases Option.some.inj ran
    exact ⟨sound, live, loaded, fun _ _ resident => resident⟩
  | cons fault rest ih =>
    intro s translations sound live loaded ran
    obtain ⟨middle, taken, tail⟩ := Option.bind_eq_some_iff.mp ran
    have kind := translations fault List.mem_cons_self
    have preserved := step_preserved sound (permitted_unmarked s _) taken
    have still : id ∈ middle.live := preserved.live id rfl ▸ live
    obtain ⟨-, rfl⟩ := Transition.of_guard taken
    have served : Served layout s.world _ id fault.1 _ := handlePageFault_served (sound.atRest live) kind.2 (loaded.guards.union ((sound.inv id).fabric live)) Prod.mk.eta.symm
    have next := loaded.fault ok lower upper chosen (sound.inv id) live kind.1 served
    have later := ih (fun other member => translations other (List.mem_cons_of_mem _ member))
      preserved.sound still next.1 tail
    exact ⟨later.1, later.2.1, later.2.2.1,
      fun pa entry resident => later.2.2.2 pa entry (next.2 pa entry resident)⟩

theorem read_of_resident {pa : Nat} {entry : BitVec 64} (resident : Resident t.world id va pa entry) :
    t.read id va = some (t.world.pages.mem.byte (pa + va % 4096)) := by
  unfold System.read readUser
  rw [resident_iff.mp resident]
  rfl

/-- Lazy loading is eager loading. Take any reachable state with a process whose ELF regions are
well formed, and an address of one of them whose page is absent and lies under no region that
was registered later. After any sequence of translation faults of the process, if the page is
present then it has the region's flags, the address reads the byte of the image or zero, and no
further sequence of faults changes either. -/
theorem run_demandPaging {s t u : System} {layout : VmLayout} {id va : Nat}
    {earlier later : List VmRegion} {region : VmRegion} {faults further : List (Nat × Nat)}
    (reached : Transition.Reachable Boot step Transition.always s) (live : id ∈ s.live)
    (elf : ElfLayout s layout) (split : layout.regions = earlier ++ region :: later)
    (type : region.type = .elf) (inside : region.start ≤ va ∧ va < region.stop)
    (uncovered : ∀ other ∈ later, other.type ≠ .elf → ∀ x, x / 4096 = va / 4096 →
      ¬ (other.start ≤ x ∧ x < other.stop))
    (absent : resolveUserPage s.world.pages.mem (s.world.contexts id) va = none)
    (translations : ∀ fault ∈ faults ++ further, fault.1 < 2 ^ 48 ∧ fscType fault.2 = 0x04)
    (first : Transition.run step s (faultEvents layout id faults) = some t)
    (second : Transition.run step t (faultEvents layout id further) = some u)
    {pa : Nat} {entry : BitVec 64}
    (present : resolveUserPage t.world.pages.mem (t.world.contexts id) va = some (pa, entry)) :
    entry = pageEntry pa region.flags ∧
      t.read id va = some (eagerByte s.world.pages.mem region va) ∧
      resolveUserPage u.world.pages.mem (u.world.contexts id) va = some (pa, entry) ∧
      u.read id va = t.read id va := by
  have member : region ∈ layout.regions := by simp [split]
  have ok := elf.regions region member type
  have chosen := fun x page => regionFor_page elf split type inside uncovered (x := x) page
  have sound := reachable_sound reached
  have start : Loaded s.world.pages.mem region id va s.world := by
    refine ⟨elf.guards member type sound live, fun _ _ => rfl, fun pa entry resident => ?_⟩
    cases absent.symm.trans (resident_iff.mp resident)
  have middle := Loaded.run ok inside.1 inside.2 chosen faults
    (fun fault belongs => translations fault (List.mem_append_left _ belongs)) sound live start first
  have final := Loaded.run ok inside.1 inside.2 chosen further
    (fun fault belongs => translations fault (List.mem_append_right _ belongs)) middle.1 middle.2.1
    middle.2.2.1 second
  have resident := resident_iff.mpr present
  have after := final.2.2.2 pa entry resident
  have shape := middle.2.2.1.resident pa entry resident
  refine ⟨shape.1, ?_, resident_iff.mp after, ?_⟩
  · rw [read_of_resident resident, shape.2]
  · rw [read_of_resident resident, read_of_resident after, shape.2,
      (final.2.2.1.resident pa entry after).2]

/-- Memory with eight bytes of a file below the managed pages. -/
def fileMemory : Mem := fun a => if a = 0x40001000 then 0x8877665544332211#64 else 0

/-- Two read-only pages of which the file gives the first five bytes. -/
def textRegion : VmRegion :=
  { start := 0x400000, stop := 0x402000, type := .elf, flags := 0x600000000007C4#64,
    elfImage := kernelVaOffset + 0x40001000, elfOffset := 2, fileSize := 5,
    plain := textFlags_plain }

def textLayout : VmLayout := { regions := [textRegion], brk := 0 }

theorem textRegion_ok : ElfRegion textRegion where
  elf := rfl
  aligned := by decide
  user := by decide
  source k filed inside := by
    simp only [textRegion, kernelVaOffset] at filed inside ⊢
    omega

/-- A layout whose one ELF region is `textRegion`, on a machine whose pages start above it. -/
theorem elfLayout_text {s : System} {rest : List VmRegion} (brk : Nat)
    (low : s.world.pages.managedStart = 0x47ff8000) (others : ∀ region ∈ rest, region.type = .heap) :
    ElfLayout s { regions := textRegion :: rest, brk := brk } := by
  have only : ∀ region ∈ textRegion :: rest, region.type = .elf → region = textRegion := by
    intro region member type
    apply (List.mem_cons.mp member).resolve_right
    intro other
    cases type.symm.trans (others region other)
  constructor
  · intro region member type
    exact only region member type ▸ textRegion_ok
  · refine List.pairwise_cons.mpr ⟨fun other member _ type => ?_, ?_⟩
    · cases type.symm.trans (others other member)
    · exact List.pairwise_of_forall_mem_list fun a member b _ type =>
        nomatch type.symm.trans (others a member)
  · intro region member type k filed _ pa managed lower _
    cases only region member type
    have bound := managed.1
    have source : sourcePa textRegion k = 0x40001002 + k := by
      simp only [sourcePa, textRegion, PageAlloc.pagePtrToPa, kernelVaOffset]
      rw [if_pos ⟨trivial, by omega⟩]
      omega
    have short : k < 5 := filed
    omega

/-- The second page first, then the first one twice. -/
def textFaults : List (Nat × Nat) := [(0x401fff, 0x04), (0x400003, 0x04), (0x400000, 0x04)]

theorem run_demandPaging_text :
    ∃ s t, Transition.run step (booted (PageAlloc.init eightPages fileMemory true))
        [.create (some 1)] = some s ∧
      Transition.run step s (faultEvents textLayout 1 textFaults) = some t ∧
      t.read 1 0x400004 = some 0x77#8 ∧ t.read 1 0x401000 = some 0#8 := by
  obtain ⟨s, first, t, second, low, live, byte, zero, absent, present, absent', present'⟩ : ∃ s,
      Transition.run step (booted (PageAlloc.init eightPages fileMemory true)) [.create (some 1)] =
        some s ∧
      ∃ t, Transition.run step s (faultEvents textLayout 1 textFaults) = some t ∧
        s.world.pages.managedStart = 0x47ff8000 ∧ 1 ∈ s.live ∧
        eagerByte s.world.pages.mem textRegion 0x400004 = 0x77#8 ∧
        eagerByte s.world.pages.mem textRegion 0x401000 = 0#8 ∧
        resolveUserPage s.world.pages.mem (s.world.contexts 1) 0x400004 = none ∧
        resolveUserPage t.world.pages.mem (t.world.contexts 1) 0x400004 ≠ none ∧
        resolveUserPage s.world.pages.mem (s.world.contexts 1) 0x401000 = none ∧
        resolveUserPage t.world.pages.mem (t.world.contexts 1) 0x401000 ≠ none := by
    decide +kernel
  have reached := Transition.Reachable.of_ran (booted_boot _ _ _) first
  have kinds : ∀ fault ∈ textFaults ++ [], fault.1 < 2 ^ 48 ∧ fscType fault.2 = 0x04 := by decide
  obtain ⟨page, resolved⟩ := Option.ne_none_iff_exists'.mp present
  obtain ⟨page', resolved'⟩ := Option.ne_none_iff_exists'.mp present'
  have elf : ElfLayout s textLayout := elfLayout_text 0 low nofun
  have split : textLayout.regions = [] ++ textRegion :: [] := rfl
  have text := run_demandPaging reached live elf split rfl (by decide) nofun absent kinds second rfl
    resolved
  have bss := run_demandPaging reached live elf split rfl (by decide) nofun absent' kinds second rfl
    resolved'
  exact ⟨s, t, first, second, byte ▸ text.2.1, zero ▸ bss.2.1⟩

/-- An anonymous mapping of the process over the first page, registered later. -/
def coveredLayout : VmLayout :=
  { regions :=
      [textRegion,
       { start := 0x400000, stop := 0x401000, type := .heap, flags := defaultFlags, elfImage := 0,
         elfOffset := 0, fileSize := 0, plain := defaultFlags_plain }]
    brk := 0 }

/-- Under a region that was registered later the address does not read the image. -/
theorem run_demandPaging_covered :
    ∃ s t, Transition.run step (booted (PageAlloc.init eightPages fileMemory true))
        [.create (some 1)] = some s ∧ ElfLayout s coveredLayout ∧
      Transition.run step s (faultEvents coveredLayout 1 textFaults) = some t ∧
      t.read 1 0x400004 = some 0#8 ∧
      eagerByte s.world.pages.mem textRegion 0x400004 = 0x77#8 := by
  obtain ⟨s, first, t, second, low, bytes⟩ : ∃ s, Transition.run step
      (booted (PageAlloc.init eightPages fileMemory true)) [.create (some 1)] = some s ∧
      ∃ t, Transition.run step s (faultEvents coveredLayout 1 textFaults) = some t ∧
        s.world.pages.managedStart = 0x47ff8000 ∧ t.read 1 0x400004 = some 0#8 ∧
        eagerByte s.world.pages.mem textRegion 0x400004 = 0x77#8 := by
    decide +kernel
  exact ⟨s, t, first, elfLayout_text 0 low (by decide), second, bytes⟩

end Runs

end OsArmv8a.Mmu
