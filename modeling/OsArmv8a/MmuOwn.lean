import OsArmv8a.MmuDemand

/-! What a fault does to the faulting context itself: every page but that of the fault keeps its
descriptor and its contents, a page that was there before reads as before, and a fault that is
handled has removed its own cause. -/

set_option autoImplicit false

namespace OsArmv8a.Mmu

open PageAlloc (Managed pageAlloc pageFree pageRefDec pageRefGet Acquired)

section Local

variable {foreign : Nat → Prop} {marked : Nat → List Nat → Prop} {w t u : World}
  {inHand loose : List Nat} {active : Nat}

/-- Every page of the context but the one at a path keeps its descriptor and its contents. -/
structure Local (w t : World) (id : Nat) (path : List Nat) : Prop where
  entries : ∀ va pa entry, pathOf va ≠ path →
    (Resident t id va pa entry ↔ Resident w id va pa entry)
  words : ∀ va pa entry, pathOf va ≠ path → Resident w id va pa entry →
    ∀ a, pa ≤ a → a < pa + 4096 → t.pages.mem a = w.pages.mem a

theorem Local.trans {id : Nat} {path : List Nat} (first : Local w t id path)
    (second : Local t u id path) : Local w u id path where
  entries va pa entry other := (second.entries va pa entry other).trans (first.entries va pa entry other)
  words va pa entry other resident a lower upper :=
    (second.words va pa entry other ((first.entries va pa entry other).mpr resident) a lower upper).trans
      (first.words va pa entry other resident a lower upper)

variable {va : Nat} {entry : BitVec 64} {held : Nat → Nat} {marks : List Nat → Prop}

section

variable (space : Space w.pages.mem (w.contexts active) loose held marks)

include space

theorem Resident.listed {pa : Nat} (resident : Resident w active va pa entry) :
    pa ∈ (w.contexts active).pages :=
  (space.owned.nodes _ pa (pathOf_ok va) resident.node).1

/-- A context whose tracked pages keep all their words keeps everything. -/
theorem resident_congr (root : (t.contexts active).rootPa = (w.contexts active).rootPa)
    (words : ∀ pa ∈ (w.contexts active).pages, ∀ a, pa ≤ a → a < pa + 4096 →
      t.pages.mem a = w.pages.mem a) (va pa : Nat) (entry : BitVec 64) :
    Resident t active va pa entry ↔ Resident w active va pa entry := by
  have nodes : ∀ path, NodePath path → node t.pages.mem (t.contexts active) path =
      node w.pages.mem (w.contexts active) path := by
    intro path ok
    have same : Mmu.node t.pages.mem (t.contexts active) path =
        Mmu.node t.pages.mem (w.contexts active) path := by
      unfold Mmu.node
      rw [root]
    exact same.trans (space.node_words words ok)
  have ok := tablePathOf_ok va
  have below := l3Index_lt va
  have word : ∀ table, node w.pages.mem (w.contexts active) (tablePathOf va) = some table →
      t.load (table + 8 * l3Index va) = w.load (table + 8 * l3Index va) := by
    intro table found
    exact words table (space.owned.nodes _ table ok.node found).1 _ (by omega) (by omega)
  constructor
  · rintro ⟨⟨table, found, value⟩, page⟩
    rw [nodes _ ok.node] at found
    exact ⟨⟨table, found, (word table found).symm.trans value⟩, page⟩
  · rintro ⟨⟨table, found, value⟩, page⟩
    exact ⟨⟨table, (nodes _ ok.node).trans found, (word table found).trans value⟩, page⟩

theorem Local.of_words (root : (t.contexts active).rootPa = (w.contexts active).rootPa)
    (words : ∀ pa ∈ (w.contexts active).pages, ∀ a, pa ≤ a → a < pa + 4096 →
      t.pages.mem a = w.pages.mem a) (path : List Nat) : Local w t active path where
  entries va pa entry _ := resident_congr space root words va pa entry
  words _ pa _ _ resident := words pa (resident.listed space)

end

theorem pathOf_eq_iff {other : Nat} : pathOf va = pathOf other ↔
    tablePathOf va = tablePathOf other ∧ l3Index va = l3Index other := by
  constructor
  · intro same
    obtain ⟨tables, index⟩ := List.append_inj' same rfl
    exact ⟨tables, List.singleton_inj.mp index⟩
  · rintro ⟨tables, index⟩
    unfold pathOf
    rw [tables, index]

variable {far : Nat}

/-- Rewriting the level 3 entry of an address touches no other address of the context. -/
theorem Local.store (space : Space w.pages.mem (w.contexts active) loose held marks) {table : Nat}
    {value : BitVec 64}
    (found : node w.pages.mem (w.contexts active) (tablePathOf far) = some table)
    (root : (t.contexts active).rootPa = (w.contexts active).rootPa)
    (stored : t.pages.mem = w.pages.mem.set (table + 8 * l3Index far) value) :
    Local w t active (pathOf far) := by
  have okFar := tablePathOf_ok far
  have belowFar := l3Index_lt far
  have tablePage := (space.addresses table (space.owned.nodes _ table okFar.node found).1).aligned
  have nodes : ∀ va, node t.pages.mem (t.contexts active) (tablePathOf va) =
      node w.pages.mem (w.contexts active) (tablePathOf va) := by
    intro va
    have same : node t.pages.mem (t.contexts active) (tablePathOf va) =
        node t.pages.mem (w.contexts active) (tablePathOf va) := by
      unfold node
      rw [root]
    rw [same, stored, space.leaf_write okFar rfl found belowFar value (tablePathOf_ok va).node, if_neg]
    intro equal
    cases congrArg List.length equal
  have word : ∀ va other, pathOf va ≠ pathOf far →
      node w.pages.mem (w.contexts active) (tablePathOf va) = some other →
      t.load (other + 8 * l3Index va) = w.load (other + 8 * l3Index va) := by
    intro va other apart reached
    have ok := tablePathOf_ok va
    have below := l3Index_lt va
    have page := (space.addresses other (space.owned.nodes _ other ok.node reached).1).aligned
    show t.pages.mem _ = w.pages.mem _
    rw [stored, Mem.set_other]
    intro equal
    obtain rfl : other = table := by omega
    exact apart (pathOf_eq_iff.mpr
      ⟨space.owned.once _ _ other ok.node okFar.node reached found, by omega⟩)
  constructor
  · intro va pa entry apart
    constructor
    · rintro ⟨⟨other, reached, value⟩, page⟩
      rw [nodes va] at reached
      exact ⟨⟨other, reached, (word va other apart reached).symm.trans value⟩, page⟩
    · rintro ⟨⟨other, reached, value⟩, page⟩
      exact ⟨⟨other, (nodes va).trans reached, (word va other apart reached).trans value⟩, page⟩
  · intro va pa entry apart resident a lower upper
    have aligned := (space.addresses pa (resident.listed space)).aligned
    rw [stored, Mem.set_other]
    intro equal
    obtain rfl : pa = table := by omega
    have same := space.owned.once _ _ pa (pathOf_ok va) okFar.node resident.node found
    cases congrArg List.length same

/-- What the faulting context sees of a fault. -/
structure OwnFault (w t : World) (id far : Nat) (handled : Bool) : Prop where
  elsewhere : Local w t id (pathOf far)
  reads : ∀ va byte, readUser w.pages.mem (w.contexts id) va = some byte →
    readUser t.pages.mem (t.contexts id) va = some byte
  failed : handled = false → ∀ pa entry, Resident t id far pa entry ↔ Resident w id far pa entry

theorem readUser_of_resident {pa : Nat} (resident : Resident w active va pa entry) :
    readUser w.pages.mem (w.contexts active) va = some (w.pages.mem.byte (pa + va % 4096)) := by
  unfold readUser
  rw [resident_iff.mp resident]
  rfl

theorem resident_of_readUser {byte : BitVec 8}
    (read : readUser w.pages.mem (w.contexts active) va = some byte) :
    ∃ pa entry, Resident w active va pa entry ∧ w.pages.mem.byte (pa + va % 4096) = byte := by
  obtain ⟨⟨pa, entry⟩, resolved, value⟩ := Option.map_eq_some_iff.mp read
  exact ⟨pa, entry, resident_iff.mpr resolved, value⟩

section

variable (space : Space w.pages.mem (w.contexts active) loose held marks)

include space

/-- A byte outside the page of the fault. -/
theorem Local.read {path : List Nat} (same : Local w t active path) (other : pathOf va ≠ path) :
    readUser t.pages.mem (t.contexts active) va = readUser w.pages.mem (w.contexts active) va := by
  cases resolved : resolveUserPage w.pages.mem (w.contexts active) va with
  | none =>
    have absent : resolveUserPage t.pages.mem (t.contexts active) va = none := by
      apply Option.eq_none_iff_forall_ne_some.mpr
      rintro ⟨pa, entry⟩ present
      have before := (same.entries va pa entry other).mp (resident_iff.mpr present)
      cases resolved.symm.trans (resident_iff.mp before)
    unfold readUser
    rw [resolved, absent]
    rfl
  | some page =>
    have resident : Resident w active va page.1 page.2 := resident_iff.mpr resolved
    have aligned := (space.addresses _ (resident.listed space)).aligned
    rw [readUser_of_resident resident,
      readUser_of_resident ((same.entries va _ _ other).mpr resident)]
    exact congrArg some (Mem.byte_congr
      (same.words va _ _ other resident _ (by omega) (by omega)))

/-- Nothing at all has changed for the context. -/
theorem OwnFault.of_words (root : (t.contexts active).rootPa = (w.contexts active).rootPa)
    (words : ∀ pa ∈ (w.contexts active).pages, ∀ a, pa ≤ a → a < pa + 4096 →
      t.pages.mem a = w.pages.mem a) (far : Nat) (handled : Bool) : OwnFault w t active far handled where
  elsewhere := .of_words space root words _
  failed _ := resident_congr space root words far
  reads va byte read := by
    obtain ⟨pa, entry, resident, value⟩ := resident_of_readUser read
    have listed := resident.listed space
    have aligned := (space.addresses pa listed).aligned
    rw [readUser_of_resident ((resident_congr space root words va pa entry).mpr resident), ← value]
    exact congrArg some (Mem.byte_congr (words pa listed _ (by omega) (by omega)))

theorem OwnFault.refl (far : Nat) (handled : Bool) : OwnFault w w active far handled :=
  .of_words space rfl (fun _ _ _ _ _ => rfl) far handled

end

/-- Only the page of the address matters. -/
theorem OwnFault.of_path {other : Nat} {handled : Bool} (path : pathOf far = pathOf other)
    (own : OwnFault w t active far handled) : OwnFault w t active other handled where
  elsewhere := path ▸ own.elsewhere
  reads := own.reads
  failed unhandled pa entry :=
    ⟨fun after => ((own.failed unhandled pa entry).mp (after.of_path path.symm)).of_path path,
      fun before => ((own.failed unhandled pa entry).mpr (before.of_path path.symm)).of_path path⟩

/-- A fault whose page reads afterwards as it did before. -/
theorem OwnFault.of_local (space : Space w.pages.mem (w.contexts active) loose held marks)
    (same : Local w t active (pathOf far)) (here : ∀ va byte, pathOf va = pathOf far →
      readUser w.pages.mem (w.contexts active) va = some byte →
      readUser t.pages.mem (t.contexts active) va = some byte) : OwnFault w t active far true where
  elsewhere := same
  failed impossible := nomatch impossible
  reads va byte read := by
    by_cases path : pathOf va = pathOf far
    · exact here va byte path read
    · rw [same.read space path]
      exact read

end Local

section Permission

variable {foreign : Nat → Prop} {w t u : World} {active far : Nat}

theorem not_isCow_upgradedEntry (entry : BitVec 64) : ¬ IsCow (upgradedEntry entry) := by
  rintro ⟨_, readOnly, _⟩
  unfold upgradedEntry at readOnly
  rw [show apRw = 0#64 from rfl, BitVec.or_zero, BitVec.and_assoc, BitVec.and_assoc,
    show ~~~apRo &&& (~~~softwareCow &&& apRo) = 0#64 by decide, BitVec.and_zero] at readOnly
  exact absurd readOnly (by decide)

theorem not_isCow_copiedEntry (pa : Nat) (entry : BitVec 64) : ¬ IsCow (copiedEntry pa entry) := by
  rintro ⟨_, readOnly, _⟩
  unfold copiedEntry at readOnly
  rw [show apRw = 0#64 from rfl, BitVec.or_zero, BitVec.and_or_distrib_right, BitVec.and_assoc,
    show addrMask &&& apRo = 0#64 by decide, BitVec.and_zero, BitVec.zero_or, BitVec.and_assoc,
    BitVec.and_assoc, BitVec.and_assoc,
    show ~~~addrMask &&& (~~~apRo &&& (~~~softwareCow &&& apRo)) = 0#64 by decide,
    BitVec.and_zero] at readOnly
  exact absurd readOnly (by decide)

variable {table : Nat}

/-- An upgraded entry maps the page it mapped. -/
theorem upgrade_resident {held : Nat → Nat} {marks : List Nat → Prop} {loose : List Nat}
    (space : Space w.pages.mem (w.contexts active) loose held marks)
    (found : node w.pages.mem (w.contexts active) (tablePathOf far) = some table)
    (isTable : IsTable (w.load (table + 8 * l3Index far))) :
    Resident (w.store (table + 8 * l3Index far) (upgradedEntry (w.load (table + 8 * l3Index far))))
      active far (descAddr (w.load (table + 8 * l3Index far)))
      (upgradedEntry (w.load (table + 8 * l3Index far))) := by
  refine ⟨⟨table, ?_, Mem.set_same _ _ _⟩, isTable_upgradedEntry.mpr isTable, descAddr_upgradedEntry⟩
  show node (w.pages.mem.set _ _) (w.contexts active) (tablePathOf far) = some table
  rw [space.leaf_write (tablePathOf_ok far) rfl found (l3Index_lt far) _ (tablePathOf_ok far).node,
    if_neg, found]
  intro equal
  cases congrArg List.length equal

/-- The entry of a page whose last other owner is gone is made writable in place. -/
theorem upgrade_own (rest : AtRest foreign w active)
    (found : node w.pages.mem (w.contexts active) (tablePathOf far) = some table)
    (isTable : IsTable (w.load (table + 8 * l3Index far))) :
    OwnFault w (w.store (table + 8 * l3Index far) (upgradedEntry (w.load (table + 8 * l3Index far))))
        active far true ∧
      ∃ pa entry, Resident (w.store (table + 8 * l3Index far)
        (upgradedEntry (w.load (table + 8 * l3Index far)))) active far pa entry ∧ ¬ IsCow entry := by
  have space := rest.space
  have same : Local w (w.store (table + 8 * l3Index far)
      (upgradedEntry (w.load (table + 8 * l3Index far)))) active (pathOf far) :=
    .store space found rfl rfl
  have before : Resident w active far _ _ := ⟨⟨table, found, rfl⟩, isTable, rfl⟩
  have after : Resident (w.store (table + 8 * l3Index far)
      (upgradedEntry (w.load (table + 8 * l3Index far)))) active far
      (descAddr (w.load (table + 8 * l3Index far))) (upgradedEntry (w.load (table + 8 * l3Index far))) :=
    upgrade_resident space found isTable
  refine ⟨.of_local space same ?_, _, _, after, not_isCow_upgradedEntry _⟩
  intro va byte path read
  obtain ⟨pa, entry, resident, value⟩ := resident_of_readUser read
  obtain ⟨rfl, rfl⟩ := (resident.of_path path).unique before
  rw [readUser_of_resident (after.of_path path.symm), ← value]
  have listed := before.listed space
  have aligned := (space.addresses _ listed).aligned
  have tablePage := (space.addresses table
    (space.owned.nodes _ table (tablePathOf_ok far).node found).1).aligned
  have below := l3Index_lt far
  refine congrArg some (Mem.byte_congr (Mem.set_other _ _ ?_))
  intro equal
  have here : descAddr (w.load (table + 8 * l3Index far)) = table := by omega
  have once := space.owned.once _ _ table (pathOf_ok far) (tablePathOf_ok far).node
    (here ▸ before.node) found
  cases congrArg List.length once

/-- A shared page is replaced by a copy. -/
theorem copy_own (rest : AtRest foreign w active) {pa : Nat} {entry : BitVec 64}
    {pages : PageAlloc.State}
    (found : node w.pages.mem (w.contexts active) (tablePathOf far) = some table)
    (word : w.load (table + 8 * l3Index far) = entry) (isTable : IsTable entry)
    (taken : pageAlloc w.pages = (some pa, pages))
    (added : ((w.setPages pages).setMem (pages.mem.copyBytes pa (descAddr entry) 4096)).addPage
      active pa = some u) {v : World}
    (moved : v = ((u.store (table + 8 * l3Index far) (copiedEntry pa entry)).removePage active
      (descAddr entry))) (after : t = v.setPages (pageRefDec v.pages (descAddr entry)).2) :
    OwnFault w t active far true ∧
      ∃ pa entry, Resident t active far pa entry ∧ ¬ IsCow entry := by
  subst moved after
  have space := rest.space
  have ok := tablePathOf_ok far
  have below := l3Index_lt far
  have before : Resident w active far (descAddr entry) entry := ⟨⟨table, found, word⟩, isTable, rfl⟩
  have listed := before.listed space
  have oldPage := (space.addresses _ listed).aligned
  have tableListed := (space.owned.nodes _ table ok.node found).1
  have tablePage := (space.addresses table tableListed).aligned
  have newPage := (rest.inv.take taken).2.2.address.aligned
  have outside : ∀ a, a < pa ∨ pa + 4096 ≤ a →
      pages.mem.copyBytes pa (descAddr entry) 4096 a = pages.mem a :=
    fun a apart => Mem.fillBytes_outside _ _ _ (by omega)
  obtain ⟨⟨invU, _⟩, grown, memory, fresh⟩ := rest.inv.acquire rest.live taken outside added
  have liveU : active ∈ u.live := grown.live ▸ rest.live
  have spaceU := invU.space liveU
  have wordU : u.load (table + 8 * l3Index far) = entry :=
    (grown.words table tableListed _ (by omega) (by omega)).trans word
  have foundU := (grown.node space ok.node).trans found
  have address : descAddr (copiedEntry pa entry) = pa :=
    descAddr_copiedEntry (spaceU.addresses pa (spaceU.owned.kept pa List.mem_cons_self))
  have replaced := invU.replace liveU ok rfl foundU below (by rw [wordU]; exact isTable)
    (isTable_copiedEntry.mpr isTable) (by rw [address]; exact List.mem_cons_self) (fun mark => mark)
  rw [wordU, address, filter_fresh List.not_mem_nil] at replaced
  generalize split : (u.store (table + 8 * l3Index far) (copiedEntry pa entry)).removePage active
    (descAddr entry) = v at *
  have stored : v.pages.mem = u.pages.mem.set (table + 8 * l3Index far) (copiedEntry pa entry) := by
    rw [← split]
    rfl
  have rootV : (v.contexts active).rootPa = (u.contexts active).rootPa := by
    rw [← split, removePage_same (rest.inv.positive rest.live listed)]
    rfl
  have liveV : active ∈ v.live := by
    rw [← split]
    exact liveU
  have spaceV := replaced.1.space liveV
  have quiet := (replaced.1.refDec List.mem_cons_self).2 active liveV
  have nodeV : node v.pages.mem (v.contexts active) (tablePathOf far) = some table := by
    rw [← split, removePage_node]
    show node (u.pages.mem.set _ _) (u.contexts active) (tablePathOf far) = some table
    rw [spaceU.leaf_write ok rfl foundU below _ ok.node, if_neg, foundU]
    intro equal
    cases congrArg List.length equal
  have residentV : Resident v active far pa (copiedEntry pa entry) := by
    refine ⟨⟨table, nodeV, ?_⟩, isTable_copiedEntry.mpr isTable, address⟩
    show v.pages.mem _ = _
    rw [stored, Mem.set_same]
  have residentT := (resident_congr spaceV quiet.root quiet.words far pa (copiedEntry pa entry)).mpr
    residentV
  have same : Local w _ active (pathOf far) := ((Local.of_words space grown.root grown.words _).trans
    (.store spaceU foundU rootV stored)).trans (.of_words spaceV quiet.root quiet.words _)
  refine ⟨.of_local space same ?_, pa, _, residentT, not_isCow_copiedEntry pa entry⟩
  intro va byte path read
  obtain ⟨old, oldEntry, resident, value⟩ := resident_of_readUser read
  obtain ⟨rfl, rfl⟩ := (resident.of_path path).unique before
  have apart : pa ≠ table := fun equal => fresh (equal ▸ tableListed)
  have separate : pa ≠ descAddr oldEntry := fun equal => fresh (equal ▸ listed)
  have acquired := PageAlloc.pageAlloc_acquired rest.inv.alloc taken
  rw [readUser_of_resident (residentT.of_path path.symm), ← value]
  refine congrArg some ?_
  calc _ = v.pages.mem.byte (pa + va % 4096) :=
        Mem.byte_congr (quiet.words pa (residentV.listed spaceV) _ (by omega) (by omega))
    _ = u.pages.mem.byte (pa + va % 4096) := by
        apply Mem.byte_congr
        rw [stored, Mem.set_other]
        omega
    _ = pages.mem.byte (descAddr oldEntry + va % 4096) := by
        rw [memory]
        unfold Mem.copyBytes
        rw [Mem.byte_fillBytes _ _ _ (by omega), Mem.byte_fillBytes_outside _ _ _ (by omega)]
    _ = w.pages.mem.byte (descAddr oldEntry + va % 4096) :=
        Mem.byte_congr (acquired.frame _ (by omega))

variable {handled : Bool}

/-- The copy-on-write path. What it makes of the page is no longer copy-on-write. -/
theorem permissionFault_own (rest : AtRest foreign w active)
    (result : permissionFault w active far = (handled, t)) :
    OwnFault w t active far handled ∧
      (handled = true → ∃ pa entry, Resident t active far pa entry ∧ ¬ IsCow entry) := by
  have space := rest.space
  unfold permissionFault at result
  split at result
  · cases result
    exact ⟨.refl space far false, nofun⟩
  rename_i ptr desc
  obtain ⟨table, found, rfl⟩ := resolveUserPageDesc_some.mp desc
  dsimp only at result
  split at result
  · cases result
    exact ⟨.refl space far false, nofun⟩
  rename_i cow
  have cow := Decidable.not_not.mp cow
  have isTable := space.typed _ table _ (tablePathOf_ok far) found (l3Index_lt far) cow.1
  split at result
  · cases result
    have upgraded := upgrade_own rest found isTable
    exact ⟨upgraded.1, fun _ => upgraded.2⟩
  split at result
  · cases result
    exact ⟨.refl space far false, nofun⟩
  rename_i pa pages taken
  split at result
  · cases result
    have outside : ∀ a, a < pa ∨ pa + 4096 ≤ a → pages.mem.copyBytes pa
        (descAddr (w.load (table + 8 * l3Index far))) 4096 a = pages.mem a := by
      intro a apart
      have aligned := (rest.inv.take taken).2.2.address.aligned
      exact Mem.fillBytes_outside _ _ _ (by omega)
    have quiet := (rest.inv.abandon rest.live taken outside rfl).2.1 active rest.live
    exact ⟨.of_words space quiet.root quiet.words far false, nofun⟩
  · rename_i v added
    cases result
    have copied := copy_own rest found rfl isTable taken added rfl rfl
    exact ⟨copied.1, fun _ => copied.2⟩

variable {flags : BitVec 64}

/-- A new page in place of an absent one. -/
theorem Mapped.own (rest : AtRest foreign w active) {va pa : Nat} {mapped : Bool}
    (mapping : Mapped w t active va pa flags (w.fabric active) mapped) :
    OwnFault w t active va mapped := by
  have space := rest.space
  have kept : ∀ x page entry, Resident w active x page entry → Resident t active x page entry :=
    fun x page entry => mapping.spared.resident (fun _ member => member) mapping.root
  have words : ∀ x page entry, Resident w active x page entry → ∀ a, page ≤ a → a < page + 4096 →
      t.pages.mem a = w.pages.mem a := by
    intro x page entry resident a lower upper
    exact mapping.spared.same a
      (Or.inr ⟨pathOf x, page, pathOf_ok x, rfl, resident.node, lower, upper⟩)
  have before : ∀ x page entry, mapped = false ∨ pathOf x ≠ pathOf va →
      Resident t active x page entry → Resident w active x page entry := by
    intro x page entry untouched resident
    have same := mapping.others _ (pathOf_ok x) rfl untouched
    obtain ⟨old, was⟩ := resident_of_node (same.symm.trans resident.node)
    obtain ⟨-, rfl⟩ := (kept x page old was).unique resident
    exact was
  refine ⟨⟨fun x page entry other => ⟨before x page entry (Or.inr other), kept x page entry⟩,
    fun x page entry _ => words x page entry⟩, ?_, fun unmapped page entry =>
      ⟨before va page entry (Or.inl unmapped), kept va page entry⟩⟩
  intro x byte read
  obtain ⟨page, entry, resident, value⟩ := resident_of_readUser read
  have aligned := (space.addresses page (resident.listed space)).aligned
  rw [readUser_of_resident (kept x page entry resident), ← value]
  exact congrArg some (Mem.byte_congr (words x page entry resident _ (by omega) (by omega)))

variable {layout : VmLayout}

theorem translationFault_own (rest : AtRest foreign w active)
    (absent : node w.pages.mem (w.contexts active) (pathOf far) = none)
    (result : translationFault layout w active far = (handled, t)) :
    OwnFault w t active far handled ∧
      (handled = true → ∃ flags ∈ faultFlags layout far, ∃ pa,
        Resident t active far pa (pageEntry pa flags)) := by
  have page := pathOf_page far
  obtain ⟨-, rfl, rfl⟩ | ⟨flags, prepare, found, plain, inside, -, -, mapped⟩ :=
    translationFault_cases result
  · exact ⟨.refl rest.space far false, nofun⟩
  obtain ⟨pa, pages, mapping, -⟩ := (mapNewPage_spec rest.inv rest.live (page ▸ absent) plain
    (fun mark => mark.elim) inside mapped).2 _ (rest.inv.fabric rest.live)
  exact ⟨(mapping.own rest).of_path page,
    fun success => ⟨flags, found, pa, (mapping.here success).of_path page⟩⟩

/-- `mmu_handle_process_page_fault_locked`. A translation fault that is handled leaves the page
present, and a permission fault that is handled leaves it present and no longer copy-on-write. -/
theorem handlePageFault_own (rest : AtRest foreign w active) {esr : Nat}
    (result : handlePageFault layout w active far esr = (handled, t)) :
    OwnFault w t active far handled ∧
      (handled = true → ∃ pa entry, Resident t active far pa entry ∧
        (fscType esr = 0x0C → ¬ IsCow entry)) := by
  have space := rest.space
  obtain ⟨rfl, rfl⟩ | ⟨translation, rfl, pa, entry, resident⟩ | ⟨-, faulted⟩ |
    ⟨translation, absent, faulted⟩ := handlePageFault_cases result
  · exact ⟨.refl space far false, nofun⟩
  · refine ⟨.refl space far handled, fun _ => ⟨pa, entry, resident, fun permission => ?_⟩⟩
    cases translation.symm.trans permission
  · have own := permissionFault_own rest faulted
    refine ⟨own.1, fun success => ?_⟩
    obtain ⟨pa, entry, resident, cow⟩ := own.2 success
    exact ⟨pa, entry, resident, fun _ => cow⟩
  · have own := translationFault_own rest absent faulted
    refine ⟨own.1, fun success => ?_⟩
    obtain ⟨flags, -, pa, resident⟩ := own.2 success
    exact ⟨pa, _, resident, fun permission => nomatch translation.symm.trans permission⟩

end Permission

section Reach

variable {s : System} {id va pa : Nat} {entry : BitVec 64}

/-- A user page with a single reference is mapped by one context, at one address. -/
theorem Sound.sole {marked : Nat → List Nat → Prop} (sound : Sound marked s) (live : id ∈ s.live)
    (single : s.world.held [] pa = 1) {path : List Nat} (ok : NodePath path)
    (found : node s.world.pages.mem (s.world.contexts id) path = some pa) {other : Nat}
    (alive : other ∈ s.live) {place : List Nat} (okPlace : NodePath place)
    (also : node s.world.pages.mem (s.world.contexts other) place = some pa) :
    other = id ∧ place = path := by
  have owned := ((sound.inv id).space live).owned
  have listed := (((sound.inv other).space alive).owned.nodes _ pa okPlace also).1
  by_cases same : other = id
  · subst same
    exact ⟨rfl, owned.once _ _ pa okPlace ok also found⟩
  · exact absurd listed
      (private_unlisted live single (Or.inl (owned.nodes _ pa ok found).1) alive same)

variable (reached : Transition.Reachable Boot step Transition.always s) (live : id ∈ s.live)
  (resident : Resident s.world id va pa entry)

include reached live resident

/-- In every run, a page that one context may write is mapped nowhere else: by no other context,
and at no other page of the same one. -/
theorem run_soleWriter (writable : Writable entry) {other far : Nat} {shared : BitVec 64}
    (alive : other ∈ s.live) (mapped : Resident s.world other far pa shared) (small : va < 2 ^ 48)
    (smallFar : far < 2 ^ 48) : other = id ∧ far / 4096 = va / 4096 := by
  have sound := reachable_sound reached
  obtain ⟨table, found, word⟩ := resident.desc
  obtain ⟨isTable, address⟩ := resident.page
  have single : s.world.held [] pa = 1 := by
    subst word address
    exact ((sound.inv id).space live).leaves _ table _ (tablePathOf_ok va) rfl found (l3Index_lt va)
      isTable writable
  obtain ⟨same, path⟩ := sound.sole live single (pathOf_ok va) resident.node alive (pathOf_ok far)
    mapped.node
  exact ⟨same, page_eq_of_pathOf small smallFar path.symm⟩

/-- In every run, what a user address resolves to is an allocated page that belongs to no other part
of the kernel and serves no context as a translation table. -/
theorem run_userReach : Managed s.world.pages pa ∧ s.world.pages.stateAt pa = .allocated ∧
    s.kernel pa = false ∧ ∀ other ∈ s.live, ∀ path, TablePath path →
      node s.world.pages.mem (s.world.contexts other) path ≠ some pa := by
  have sound := reachable_sound reached
  have listed := resident.listed ((sound.inv id).space live)
  have managed := sound.managed_of_listed live listed
  refine ⟨managed.1, managed.2, ?_, ?_⟩
  · have positive : 0 < s.world.held [] pa := held_pos_of_listed live listed
    rw [← Bool.not_eq_true]
    intro owned
    have none : s.world.held [] pa = 0 := (sound.apart pa owned).2.2
    omega
  · intro other alive path ok found
    have single := ((sound.inv other).space alive).tables path pa ok found
    have once := (sound.sole alive single ok.node found live (pathOf_ok va) resident.node).2
    have short := once ▸ ok.short
    exact absurd short (Nat.not_succ_le_self 3)

end Reach

/-- The clone writes the page it shared, and each context has its own. -/
theorem run_soleWriter_copied : ∃ s, Transition.run step
    (booted (PageAlloc.init sixteenPages (fun _ => 0) true))
      (beforeClone ++ .clone 1 (some 2) :: afterClone) = some s ∧
    ∃ page, resolveUserPage s.world.pages.mem (s.world.contexts 2) 0x400010 = some page ∧
      resolveUserPage s.world.pages.mem (s.world.contexts 1) 0x400010 ≠ some page := by
  refine Transition.ends_imp (Q := fun s => 1 ∈ s.live ∧ 2 ∈ s.live ∧
    ∃ page, resolveUserPage s.world.pages.mem (s.world.contexts 2) 0x400010 = some page ∧
      Writable page.2) (by decide +kernel) ?_
  rintro s ran ⟨one, two, page, resolved, writable⟩
  refine ⟨page, resolved, fun also => ?_⟩
  have sole := run_soleWriter (.of_ran (booted_boot _ _ _) ran) two (resident_iff.mpr resolved)
    writable one (resident_iff.mpr also) (by decide) (by decide)
  exact absurd sole.1 (by decide)

theorem run_userReach_written : ∃ s, Transition.run step
    (booted (PageAlloc.init sixteenPages (fun _ => 0) true)) beforeClone = some s ∧
    ∃ page, resolveUserPage s.world.pages.mem (s.world.contexts 1) 0x400010 = some page ∧
      s.kernel page.1 = false ∧ page.1 ≠ (s.world.contexts 1).rootPa := by
  refine Transition.ends_imp (Q := fun s => 1 ∈ s.live ∧
    ∃ page, resolveUserPage s.world.pages.mem (s.world.contexts 1) 0x400010 = some page ∧
      Writable page.2) (by decide +kernel) ?_
  rintro s ran ⟨live, page, resolved, -⟩
  obtain ⟨-, -, owner, tables⟩ := run_userReach (.of_ran (booted_boot _ _ _) ran) live
    (resident_iff.mpr resolved)
  exact ⟨page, resolved, owner, fun same => tables 1 live [] tablePath_nil (same ▸ rfl)⟩

end OsArmv8a.Mmu
