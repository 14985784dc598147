import OsArmv8a.MmuOwn

/-! Copies between the kernel and a user address space. `mmu_copy_user_range` works page by page and
tries a page again after a fault it could handle; that ends because a handled fault has removed its
own cause. -/

set_option autoImplicit false

namespace OsArmv8a.Mmu

/-- `mmu_copy_from_user`, trying at most `fuel` times; `none` when that was not enough. The last
component is what has arrived in the buffer. -/
def copyFromUser (layout : VmLayout) (current : Bool) (id : Nat) :
    Nat → World → Nat → Nat → List (BitVec 8) → Option (Bool × World × List (BitVec 8))
  | _, w, _, 0, buffer => some (true, w, buffer)
  | 0, _, _, _ + 1, _ => none
  | fuel + 1, w, va, len + 1, buffer =>
    match resolveUserPage w.pages.mem (w.contexts id) va with
    | none =>
      if current = true then
        match handlePageFault layout w id va 0x04 with
        | (true, w) => copyFromUser layout current id fuel w va (len + 1) buffer
        | (false, w) => some (false, w, buffer)
      else some (false, w, buffer)
    | some (pa, entry) =>
      if userAccessAllowed entry false = true then
        let chunk := min (4096 - va % 4096) (len + 1)
        let bytes := (List.range chunk).map fun i => w.pages.mem.byte (pa + va % 4096 + i)
        copyFromUser layout current id fuel w (Word64.add va chunk) (len + 1 - chunk)
          (buffer ++ bytes)
      else some (false, w, buffer)

section Write

variable {foreign : Nat → Prop} {w t : World} {active va : Nat} {bytes : List (BitVec 8)}

/-- What one write through the address space does to it. -/
structure Written (w t : World) (id va : Nat) (bytes : List (BitVec 8)) : Prop where
  entries : ∀ x pa entry, Resident t id x pa entry ↔ Resident w id x pa entry
  inside : ∀ i, i < bytes.length → readUser t.pages.mem (t.contexts id) (va + i) = bytes[i]?
  outside : ∀ x, x < 2 ^ 48 → x < va ∨ va + bytes.length ≤ x →
    readUser t.pages.mem (t.contexts id) x = readUser w.pages.mem (w.contexts id) x

variable {entry : BitVec 64}

/-- A write to a data page leaves the tables of the context alone. -/
theorem store_entries (rest : AtRest foreign w active) {pa : Nat}
    (resident : Resident w active va pa entry) (fits : va % 4096 + bytes.length ≤ 4096) :
    (∀ path, NodePath path →
      node (w.pages.mem.storeBytes (pa + va % 4096) bytes) (w.contexts active) path =
        node w.pages.mem (w.contexts active) path) ∧
    ∀ x page value,
      Resident (w.setMem (w.pages.mem.storeBytes (pa + va % 4096) bytes)) active x page value ↔
        Resident w active x page value := by
  have space := rest.space
  have aligned := (space.addresses pa (resident.listed space)).aligned
  have apart : ∀ path other, TablePath path →
      node w.pages.mem (w.contexts active) path = some other → other ≠ pa := by
    rintro path other ok found rfl
    have same := space.owned.once _ _ other ok.node (pathOf_ok va) found resident.node
    have short := ok.short
    rw [same] at short
    exact absurd short (show ¬ 4 ≤ 3 by decide)
  have words : ∀ path table slot, TablePath path →
      node w.pages.mem (w.contexts active) path = some table → slot < 512 →
      w.pages.mem.storeBytes (pa + va % 4096) bytes (table + 8 * slot) =
        w.pages.mem (table + 8 * slot) := by
    intro path table slot ok found below
    have other := apart path table ok found
    have page := (space.addresses table (space.owned.nodes _ table ok.node found).1).aligned
    exact Mem.storeBytes_outside (by omega)
  have nodes : ∀ path, NodePath path →
      node (w.pages.mem.storeBytes (pa + va % 4096) bytes) (w.contexts active) path =
        node w.pages.mem (w.contexts active) path := fun path ok => Space.node_congr words ok
  refine ⟨nodes, fun x page value => ?_⟩
  have ok := tablePathOf_ok x
  constructor
  · rintro ⟨⟨table, found, word⟩, shape⟩
    have before := (nodes _ ok.node).symm.trans found
    exact ⟨⟨table, before, (words _ table _ ok before (l3Index_lt x)).symm.trans word⟩, shape⟩
  · rintro ⟨⟨table, found, word⟩, shape⟩
    exact ⟨⟨table, (nodes _ ok.node).trans found,
      (words _ table _ ok found (l3Index_lt x)).trans word⟩, shape⟩

theorem store_written (rest : AtRest foreign w active) {pa : Nat} (small : va < 2 ^ 48)
    (resident : Resident w active va pa entry) (fits : va % 4096 + bytes.length ≤ 4096) :
    Written w (w.setMem (w.pages.mem.storeBytes (pa + va % 4096) bytes)) active va bytes := by
  have space := rest.space
  have aligned := (space.addresses pa (resident.listed space)).aligned
  obtain ⟨nodes, entries⟩ := store_entries rest resident fits
  refine ⟨entries, ?_, ?_⟩
  · intro i inside
    have page : (va + i) / 4096 = va / 4096 := by omega
    have here := ((entries va pa entry).mpr resident).of_path
      (show pathOf va = pathOf (va + i) by rw [← pathOf_page, ← page, pathOf_page])
    rw [readUser_of_resident here, show pa + (va + i) % 4096 = pa + va % 4096 + i by omega]
    exact Mem.byte_storeBytes inside
  · intro x bound outside
    show readUser (w.pages.mem.storeBytes (pa + va % 4096) bytes) (w.contexts active) x = _
    rw [readUser_eq, readUser_eq, nodes _ (pathOf_ok x)]
    cases found : node w.pages.mem (w.contexts active) (pathOf x) with
    | none => rfl
    | some page =>
      have other := (space.addresses page (space.owned.nodes _ page (pathOf_ok x) found).1).aligned
      refine congrArg some ?_
      by_cases same : page = pa
      · subst same
        have path := space.owned.once _ _ page (pathOf_ok x) (pathOf_ok va) found resident.node
        have equal := page_eq_of_pathOf bound small path
        exact Mem.byte_storeBytes_outside (by omega)
      · exact Mem.byte_congr (Mem.storeBytes_outside (by omega))

end Write

section Copy

variable {foreign : Nat → Prop} {layout : VmLayout} {current : Bool} {w t u : World}
  {active va : Nat} {bytes : List (BitVec 8)}

/-- The bytes have arrived at `va`, and nothing else that could be read has changed. -/
structure Delivered (w t : World) (id va : Nat) (bytes : List (BitVec 8)) : Prop where
  moved : ∀ i, i < bytes.length → readUser t.pages.mem (t.contexts id) (va + i) = bytes[i]?
  others : ∀ x byte, x < 2 ^ 48 → x < va ∨ va + bytes.length ≤ x →
    readUser w.pages.mem (w.contexts id) x = some byte →
    readUser t.pages.mem (t.contexts id) x = some byte
  writable : ∀ i, i < bytes.length → ∃ pa entry, Resident t id (va + i) pa entry ∧ Writable entry
  earlier : ∀ x pa entry, x / 4096 < va / 4096 →
    (Resident t id x pa entry ↔ Resident w id x pa entry)

theorem Delivered.nil (w : World) (id va : Nat) : Delivered w w id va [] where
  moved _ impossible := absurd impossible (Nat.not_lt_zero _)
  others _ _ _ _ read := read
  writable _ impossible := absurd impossible (Nat.not_lt_zero _)
  earlier _ _ _ _ := Iff.rfl

/-- A fault on the way costs nothing. -/
theorem Delivered.after_fault {handled : Bool} (small : va < 2 ^ 48)
    (own : OwnFault w u active va handled) (delivered : Delivered u t active va bytes) :
    Delivered w t active va bytes where
  moved := delivered.moved
  others x byte bound outside read := delivered.others x byte bound outside (own.reads x byte read)
  writable := delivered.writable
  earlier x pa entry before := by
    refine (delivered.earlier x pa entry before).trans (own.elsewhere.entries x pa entry ?_)
    intro path
    have page := page_eq_of_pathOf (by omega) small path
    omega

variable {pa : Nat} {entry : BitVec 64}

/-- The bytes of one page, then the rest from the next page on. -/
theorem Delivered.append {rest : List (BitVec 8)} (small : va + bytes.length ≤ 2 ^ 48)
    (fits : va % 4096 + bytes.length ≤ 4096) (written : Written w u active va bytes)
    (resident : Resident u active va pa entry) (allowed : Writable entry)
    (next : (va + bytes.length) % 4096 = 0 ∨ t = u)
    (delivered : Delivered u t active (va + bytes.length) rest) :
    Delivered w t active va (bytes ++ rest) where
  moved i inside := by
    rw [List.length_append] at inside
    by_cases first : i < bytes.length
    · have read := written.inside i first
      rw [List.getElem?_append_left first, List.getElem?_eq_getElem first]
      rw [List.getElem?_eq_getElem first] at read
      exact delivered.others _ _ (by omega) (Or.inl (by omega)) read
    · have read := delivered.moved (i - bytes.length) (by omega)
      rw [List.getElem?_append_right (by omega), ← read,
        show va + bytes.length + (i - bytes.length) = va + i by omega]
  others x byte bound outside read := by
    rw [List.length_append] at outside
    refine delivered.others x byte bound (by omega) ?_
    rw [written.outside x bound (by omega)]
    exact read
  writable i inside := by
    rw [List.length_append] at inside
    by_cases first : i < bytes.length
    · have page : (va + i) / 4096 = va / 4096 := by omega
      have here := resident.of_path
        (show pathOf va = pathOf (va + i) by rw [← pathOf_page, ← page, pathOf_page])
      refine ⟨pa, entry, ?_, allowed⟩
      rcases next with boundary | rfl
      · exact (delivered.earlier _ _ _ (by omega)).mpr here
      · exact here
    · have there := delivered.writable (i - bytes.length) (by omega)
      rwa [show va + bytes.length + (i - bytes.length) = va + i by omega] at there
  earlier x page value before :=
    (delivered.earlier x page value (by omega)).trans (written.entries x page value)

/-- How far a copy got: to the end, or to a page boundary, possibly the first. -/
def Stopped (va len n : Nat) (ok : Bool) : Prop :=
  n ≤ len ∧ (ok = true → n = len) ∧ (ok = false → n < len ∧ (n = 0 ∨ (va + n) % 4096 = 0))

theorem AtRest.fault (rest : AtRest foreign w active) {esr far : Nat} {handled : Bool}
    (result : handlePageFault layout w active far esr = (handled, t)) : AtRest foreign t active := by
  have settled := handlePageFault_spec rest.inv rest.live
    ⟨fun _ _ _ mark => mark.elim, fun _ _ _ _ mark => mark.elim⟩ result
  exact ⟨settled.inv, settled.live ▸ rest.live⟩

theorem AtRest.store (rest : AtRest foreign w active) (resident : Resident w active va pa entry)
    (allowed : userAccessAllowed entry true = true) (fits : va % 4096 + bytes.length ≤ 4096) :
    AtRest foreign (w.setMem (w.pages.mem.storeBytes (pa + va % 4096) bytes)) active := by
  have written : writeUser w active va bytes =
      some (w.setMem (w.pages.mem.storeBytes (pa + va % 4096) bytes)) := by
    unfold writeUser
    rw [resident_iff.mp resident]
    exact if_pos allowed
  have settled := writeUser_spec rest.inv rest.live fits written
  exact ⟨settled.inv, settled.live ▸ rest.live⟩

theorem copyToUser_nil (fuel : Nat) (w : World) (va : Nat) :
    copyToUser layout current active fuel w va [] = some (true, w) := by
  cases fuel <;> rfl

/-- The bytes that go to the page of `va` in one round. -/
def chunkOf (va len : Nat) : Nat := min (4096 - va % 4096) len

theorem chunkOf_bounds (va : Nat) {len : Nat} (nonempty : 0 < len) :
    0 < chunkOf va len ∧ chunkOf va len ≤ len ∧ va % 4096 + chunkOf va len ≤ 4096 := by
  unfold chunkOf
  omega

/-- A copy that returns is done, or gets stuck at once, or goes on after a fault or a write. What holds
in the first two cases, and before a round if it holds after it, holds of every copy. -/
theorem copyToUser_rule {P : World → Nat → List (BitVec 8) → Bool → Prop}
    (done : ∀ va, AtRest foreign t active → P t va [] true)
    (stuck : ∀ w va bytes, AtRest foreign t active → 0 < bytes.length →
      OwnFault w t active va false → P w va bytes false)
    (fault : ∀ w u va bytes ok esr, AtRest foreign w active → 0 < bytes.length →
      handlePageFault layout w active va esr = (true, u) → P u va bytes ok → P w va bytes ok)
    (write : ∀ w u va bytes ok pa entry, AtRest foreign w active → 0 < bytes.length →
      Resident w active va pa entry → Writable entry →
      u = w.setMem (w.pages.mem.storeBytes (pa + va % 4096) (bytes.take (chunkOf va bytes.length))) →
      (bytes.drop (chunkOf va bytes.length) = [] → t = u) →
      P u (va + chunkOf va bytes.length) (bytes.drop (chunkOf va bytes.length)) ok → P w va bytes ok)
    (fuel : Nat) : ∀ {w : World} {va : Nat} {bytes : List (BitVec 8)} {ok : Bool},
    AtRest foreign w active → va + bytes.length < 2 ^ 64 →
    copyToUser layout current active fuel w va bytes = some (ok, t) → P w va bytes ok := by
  induction fuel with
  | zero =>
    intro w va bytes ok rest _ result
    cases bytes with
    | nil =>
      cases Option.some.inj result
      exact done va rest
    | cons byte bytes => cases result
  | succ fuel ih =>
    intro w va bytes ok rest bound result
    cases bytes with
    | nil =>
      cases Option.some.inj result
      exact done va rest
    | cons byte bytes =>
      generalize whole : byte :: bytes = all at *
      have nonempty : 0 < all.length := whole ▸ Nat.succ_pos _
      have faulted : ∀ {esr}, (if current = true then
          match handlePageFault layout w active va esr with
          | (true, w) => copyToUser layout current active fuel w va all
          | (false, w) => some (false, w)
        else some (false, w)) = some (ok, t) → P w va all ok := by
        intro esr result
        split at result
        · split at result
          · rename_i u handled
            exact fault w u va all ok esr rest nonempty handled (ih (rest.fault handled) bound result)
          · rename_i u refused
            cases Option.some.inj result
            exact stuck w va all (rest.fault refused) nonempty
              (handlePageFault_own rest refused).1
        · cases Option.some.inj result
          exact stuck t va all rest nonempty (.refl rest.space va false)
      obtain ⟨positive, short, fits⟩ := chunkOf_bounds va nonempty
      rw [← whole] at result
      unfold copyToUser at result
      rw [whole] at result
      dsimp only at result
      split at result
      · exact faulted result
      · rename_i pa entry resolved
        have resident : Resident w active va pa entry := resident_iff.mpr resolved
        split at result
        · rename_i allowed
          have chunk : min (4096 - va % 4096) all.length = chunkOf va all.length := rfl
          rw [chunk, Word64.add_of_lt (by omega)] at result
          have stored : AtRest foreign (w.setMem (w.pages.mem.storeBytes (pa + va % 4096)
              (all.take (chunkOf va all.length)))) active :=
            rest.store resident allowed (by rw [List.length_take]; omega)
          refine write w _ va all ok pa entry rest nonempty resident (of_decide_eq_true allowed) rfl ?_
            (ih stored (by rw [List.length_drop]; omega) result)
          intro finished
          rw [finished, copyToUser_nil] at result
          exact (Prod.mk.inj (Option.some.inj result)).2.symm
        · exact faulted result

/-- One round that writes to its page, and what the rounds after it do. -/
theorem round_delivered (atRest : AtRest foreign w active) (bound : va + bytes.length ≤ 2 ^ 48)
    (nonempty : 0 < bytes.length) {ok : Bool} (resident : Resident w active va pa entry)
    (allowed : Writable entry)
    (stored : u = w.setMem (w.pages.mem.storeBytes (pa + va % 4096)
      (bytes.take (chunkOf va bytes.length))))
    (last : bytes.drop (chunkOf va bytes.length) = [] → t = u)
    (rest : ∃ n, Stopped (va + chunkOf va bytes.length) (bytes.drop (chunkOf va bytes.length)).length n ok ∧
      Delivered u t active (va + chunkOf va bytes.length)
        ((bytes.drop (chunkOf va bytes.length)).take n)) :
    ∃ n, Stopped va bytes.length n ok ∧ Delivered w t active va (bytes.take n) := by
  have chunk : chunkOf va bytes.length = min (4096 - va % 4096) bytes.length := rfl
  generalize chunkOf va bytes.length = size at *
  have length : (bytes.take size).length = size := by
    rw [List.length_take]
    omega
  have written : Written w u active va (bytes.take size) :=
    stored ▸ store_written atRest (by omega) resident (by omega)
  obtain ⟨n, ⟨within, whole, partway⟩, delivered⟩ := rest
  rw [List.length_drop] at within whole partway
  refine ⟨size + n, ⟨by omega, fun success => by have := whole success; omega, ?_⟩, ?_⟩
  · intro failure
    obtain ⟨short, boundary⟩ := partway failure
    exact ⟨by omega, Or.inr (by omega)⟩
  · rw [List.take_add]
    refine Delivered.append (by omega) (by omega) written ((written.entries va pa entry).mpr resident)
      allowed ?_ (by rw [length]; exact delivered)
    by_cases full : size = 4096 - va % 4096
    · omega
    · right
      exact last (List.drop_eq_nil_of_le (by omega))

/-- `mmu_copy_to_user` delivers a prefix of the bytes. -/
theorem copyToUser_delivered {fuel : Nat} {ok : Bool} (rest : AtRest foreign w active)
    (bound : va + bytes.length ≤ 2 ^ 48)
    (result : copyToUser layout current active fuel w va bytes = some (ok, t)) :
    AtRest foreign t active ∧
      ∃ n, Stopped va bytes.length n ok ∧ Delivered w t active va (bytes.take n) := by
  refine copyToUser_rule (P := fun w va bytes ok => va + bytes.length ≤ 2 ^ 48 →
    AtRest foreign t active ∧ ∃ n, Stopped va bytes.length n ok ∧ Delivered w t active va (bytes.take n))
    ?_ ?_ ?_ ?_ fuel rest (by omega) result bound
  · intro va rest _
    exact ⟨rest, 0, ⟨Nat.le_refl _, fun _ => rfl, nofun⟩, .nil t active va⟩
  · intro w va bytes rest nonempty own bound
    exact ⟨rest, 0, ⟨Nat.zero_le _, nofun, fun _ => ⟨nonempty, Or.inl rfl⟩⟩,
      .after_fault (by omega) own (.nil t active va)⟩
  · intro w u va bytes ok esr rest nonempty handled later bound
    obtain ⟨after, n, stopped, delivered⟩ := later bound
    have own := (handlePageFault_own rest handled).1
    exact ⟨after, n, stopped, .after_fault (by omega) own delivered⟩
  · intro w u va bytes ok pa entry rest nonempty resident allowed stored last later bound
    have short := (chunkOf_bounds va nonempty).2.1
    obtain ⟨after, delivered⟩ := later (by rw [List.length_drop]; omega)
    exact ⟨after, round_delivered rest bound nonempty resident allowed stored last delivered⟩

/-- A permission fault on a page that is not copy-on-write is fatal. -/
theorem handlePageFault_notCow (resident : Resident w active va pa entry) (cow : ¬ IsCow entry) :
    handlePageFault layout w active va 0x0F = (false, w) := by
  obtain ⟨table, found, word⟩ := resident.desc
  have permission : permissionFault w active va = (false, w) := by
    unfold permissionFault
    rw [resolveUserPageDesc_some.mpr ⟨table, found, rfl⟩]
    dsimp only
    rw [word, if_pos cow]
  unfold handlePageFault
  split
  · rfl
  exact permission

/-- Three rounds a page are enough: a fault that makes it resident, one that makes it the context's
own, and the write. -/
theorem copyToUser_rounds (fuel : Nat) : ∀ {w : World} {va : Nat} {bytes : List (BitVec 8)},
    AtRest foreign w active → va + bytes.length < 2 ^ 64 →
    (3 * bytes.length ≤ fuel ∨ ∃ pa entry, Resident w active va pa entry ∧
      (3 * bytes.length ≤ fuel + 1 ∨ 3 * bytes.length ≤ fuel + 2 ∧ ¬ IsCow entry)) →
    (copyToUser layout current active fuel w va bytes).isSome = true := by
  induction fuel with
  | zero =>
    intro w va bytes rest _ enough
    have empty : bytes = [] := List.eq_nil_of_length_eq_zero (by omega)
    rw [empty]
    rfl
  | succ fuel ih =>
    intro w va bytes rest bound enough
    cases bytes with
    | nil => rfl
    | cons byte bytes =>
      have faulted : ∀ {esr}, (∀ u, handlePageFault layout w active va esr = (true, u) →
          ∃ pa entry, Resident u active va pa entry ∧ (3 * (byte :: bytes).length ≤ fuel + 1 ∨
            3 * (byte :: bytes).length ≤ fuel + 2 ∧ ¬ IsCow entry)) →
          (if current = true then
            match handlePageFault layout w active va esr with
            | (true, w) => copyToUser layout current active fuel w va (byte :: bytes)
            | (false, w) => some (false, w)
          else some (false, w)).isSome = true := by
        intro esr later
        split
        · split
          · rename_i u handled
            exact ih (rest.fault handled) bound (Or.inr (later u handled))
          · rfl
        · rfl
      unfold copyToUser
      dsimp only
      split
      · rename_i absent
        refine faulted fun u handled => ?_
        obtain ⟨pa, entry, resident, -⟩ := (handlePageFault_own rest handled).2 rfl
        refine ⟨pa, entry, resident, Or.inl ?_⟩
        rcases enough with enough | ⟨_, _, there, -⟩
        · exact enough
        · cases absent.symm.trans (resident_iff.mp there)
      rename_i page word resolved
      have here : Resident w active va page word := resident_iff.mpr resolved
      split
      · rename_i allowed
        have chunk : min (4096 - va % 4096) (byte :: bytes).length =
          chunkOf va (byte :: bytes).length := rfl
        obtain ⟨positive, short, fits⟩ := chunkOf_bounds va (Nat.succ_pos bytes.length)
        rw [chunk, Word64.add_of_lt (by rw [List.length_cons] at *; omega)]
        refine ih (rest.store here allowed ?_) ?_ (Or.inl ?_)
        all_goals simp only [List.length_take, List.length_drop, List.length_cons] at *
        all_goals omega
      · refine faulted fun u handled => ?_
        obtain ⟨pa, entry, resident, cow⟩ := (handlePageFault_own rest handled).2 rfl
        refine ⟨pa, entry, resident, Or.inr ⟨?_, cow (by decide)⟩⟩
        rcases enough with enough | ⟨_, _, there, enough | ⟨-, settled⟩⟩
        · omega
        · exact enough
        · cases handled.symm.trans (handlePageFault_notCow there settled)

theorem copyToUser_ends {fuel : Nat} (rest : AtRest foreign w active) (bound : va + bytes.length < 2 ^ 64)
    (enough : 3 * bytes.length ≤ fuel) :
    ∃ ok t, copyToUser layout current active fuel w va bytes = some (ok, t) := by
  have ends : (copyToUser layout current active fuel w va bytes).isSome = true :=
    copyToUser_rounds fuel rest bound (Or.inl enough)
  obtain ⟨⟨ok, t⟩, result⟩ := Option.isSome_iff_exists.mp ends
  exact ⟨ok, t, result⟩

end Copy

section Fetch

variable {foreign : Nat → Prop} {layout : VmLayout} {current : Bool} {w t u : World} {active : Nat}

/-- The bytes in the buffer are those at `va`, and nothing that could be read has changed. -/
structure Fetched (w t : World) (id va : Nat) (bytes : List (BitVec 8)) : Prop where
  moved : ∀ i, i < bytes.length → readUser t.pages.mem (t.contexts id) (va + i) = bytes[i]?
  reads : ∀ x byte, readUser w.pages.mem (w.contexts id) x = some byte →
    readUser t.pages.mem (t.contexts id) x = some byte

theorem Fetched.nil (w : World) (id va : Nat) : Fetched w w id va [] :=
  ⟨fun _ impossible => absurd impossible (Nat.not_lt_zero _), fun _ _ read => read⟩

variable {va : Nat}

theorem Fetched.after_fault {far : Nat} {bytes : List (BitVec 8)} {handled : Bool}
    (own : OwnFault w u active far handled) (fetched : Fetched u t active va bytes) :
    Fetched w t active va bytes :=
  ⟨fetched.moved, fun x byte read => fetched.reads x byte (own.reads x byte read)⟩

/-- What one round reads. -/
def pageBytes (w : World) (pa va size : Nat) : List (BitVec 8) :=
  (List.range size).map fun i => w.pages.mem.byte (pa + va % 4096 + i)

@[simp] theorem length_pageBytes (w : World) (pa va size : Nat) :
    (pageBytes w pa va size).length = size := by
  simp [pageBytes]

variable {entry : BitVec 64}

theorem readUser_page {pa size : Nat} (resident : Resident w active va pa entry)
    (fits : va % 4096 + size ≤ 4096) {i : Nat} (inside : i < size) :
    readUser w.pages.mem (w.contexts active) (va + i) = (pageBytes w pa va size)[i]? := by
  have page : (va + i) / 4096 = va / 4096 := by omega
  have here := resident.of_path
    (show pathOf va = pathOf (va + i) by rw [← pathOf_page, ← page, pathOf_page])
  rw [readUser_of_resident here, show pa + (va + i) % 4096 = pa + va % 4096 + i by omega]
  simp [pageBytes, inside]

/-- The bytes of one page, then the rest from the next page on. -/
theorem Fetched.append {pa size : Nat} {rest : List (BitVec 8)}
    (resident : Resident w active va pa entry) (fits : va % 4096 + size ≤ 4096)
    (fetched : Fetched w t active (va + size) rest) :
    Fetched w t active va (pageBytes w pa va size ++ rest) := by
  refine ⟨fun i inside => ?_, fetched.reads⟩
  rw [List.length_append, length_pageBytes] at inside
  by_cases first : i < size
  · have read := readUser_page resident fits first
    rw [List.getElem?_eq_getElem (by simpa using first)] at read
    rw [List.getElem?_append_left (by simpa using first), List.getElem?_eq_getElem (by simpa using first)]
    exact fetched.reads _ _ read
  · have read := fetched.moved (i - size) (by omega)
    rw [List.getElem?_append_right (by simpa using first), length_pageBytes, ← read,
      show va + size + (i - size) = va + i by omega]

/-- `mmu_copy_from_user` fetches a prefix of the range. -/
theorem copyFromUser_fetched {fuel len : Nat} {buffer out : List (BitVec 8)} {ok : Bool}
    (rest : AtRest foreign w active) (bound : va + len < 2 ^ 64)
    (result : copyFromUser layout current active fuel w va len buffer = some (ok, t, out)) :
    AtRest foreign t active ∧ ∃ bytes, out = buffer ++ bytes ∧ Stopped va len bytes.length ok ∧
      Fetched w t active va bytes := by
  have stuck : ∀ va len, Stopped va (len + 1) ([] : List (BitVec 8)).length false :=
    fun va len => ⟨Nat.zero_le _, nofun, fun _ => ⟨Nat.succ_pos _, Or.inl rfl⟩⟩
  fun_induction copyFromUser layout current active fuel w va len buffer with
  | case1 _ w va buffer =>
    cases Option.some.inj result
    exact ⟨rest, [], (List.append_nil _).symm, ⟨Nat.le_refl _, fun _ => rfl, nofun⟩,
      .nil _ active va⟩
  | case2 => cases result
  | case3 fuel w va len buffer _ _ u handled ih =>
    have own := (handlePageFault_own rest handled).1
    obtain ⟨after, bytes, same, stopped, fetched⟩ := ih (rest.fault handled) bound result
    exact ⟨after, bytes, same, stopped, .after_fault own fetched⟩
  | case4 fuel w va len buffer _ _ u refused =>
    cases Option.some.inj result
    have own := (handlePageFault_own rest refused).1
    exact ⟨rest.fault refused, [], (List.append_nil _).symm, stuck va len,
      .after_fault own (.nil _ active va)⟩
  | case5 fuel w va len =>
    cases Option.some.inj result
    exact ⟨rest, [], (List.append_nil _).symm, stuck va len, .nil _ active va⟩
  | case6 fuel w va len buffer pa entry resolved _ size read ih =>
    have chunk : size = min (4096 - va % 4096) (len + 1) := rfl
    rw [Word64.add_of_lt (by omega)] at ih result
    obtain ⟨after, bytes, same, ⟨within, whole, partway⟩, fetched⟩ := ih rest (by omega) result
    refine ⟨after, pageBytes w pa va size ++ bytes, by rw [same, List.append_assoc]; rfl, ?_,
      .append (resident_iff.mpr resolved) (by omega) fetched⟩
    rw [List.length_append, length_pageBytes]
    refine ⟨by omega, fun success => by have := whole success; omega, fun failure => ?_⟩
    have short := partway failure
    exact ⟨by omega, Or.inr (by omega)⟩
  | case7 fuel w va len =>
    cases Option.some.inj result
    exact ⟨rest, [], (List.append_nil _).symm, stuck va len, .nil _ active va⟩

/-- Two rounds a page are enough. -/
theorem copyFromUser_rounds {fuel len : Nat} {buffer : List (BitVec 8)} (rest : AtRest foreign w active)
    (bound : va + len < 2 ^ 64) (enough : 2 * len ≤ fuel ∨
      2 * len ≤ fuel + 1 ∧ resolveUserPage w.pages.mem (w.contexts active) va ≠ none) :
    (copyFromUser layout current active fuel w va len buffer).isSome = true := by
  fun_induction copyFromUser layout current active fuel w va len buffer with
  | case2 => omega
  | case3 fuel w va len buffer absent _ u handled ih =>
    obtain ⟨pa, entry, there, -⟩ := (handlePageFault_own rest handled).2 rfl
    have few : 2 * (len + 1) ≤ fuel + 1 := enough.resolve_right fun present => present.2 absent
    refine ih (rest.fault handled) bound (Or.inr ⟨few, ?_⟩)
    rw [resident_iff.mp there]
    nofun
  | case6 fuel w va len buffer pa entry resolved _ size read ih =>
    have chunk : size = min (4096 - va % 4096) (len + 1) := rfl
    rw [Word64.add_of_lt (by omega)] at ih ⊢
    exact ih rest (by omega) (Or.inl (by omega))
  | _ => rfl

theorem copyFromUser_ends {fuel len : Nat} {buffer : List (BitVec 8)} (rest : AtRest foreign w active)
    (bound : va + len < 2 ^ 64) (enough : 2 * len ≤ fuel) : ∃ ok t out,
    copyFromUser layout current active fuel w va len buffer = some (ok, t, out) := by
  have ends : (copyFromUser layout current active fuel w va len buffer).isSome = true :=
    copyFromUser_rounds rest bound (Or.inl enough)
  obtain ⟨⟨ok, t, out⟩, result⟩ := Option.isSome_iff_exists.mp ends
  exact ⟨ok, t, out, result⟩

/-- A range whose pages EL0 may write is fetched without a fault. -/
theorem copyFromUser_ready (fuel : Nat) : ∀ {w : World} {va len : Nat} {buffer out : List (BitVec 8)}
    {ok : Bool}, va + len ≤ 2 ^ 48 →
    (∀ i, i < len → ∃ pa entry, Resident w active (va + i) pa entry ∧ Writable entry) →
    copyFromUser layout current active fuel w va len buffer = some (ok, t, out) →
    ok = true ∧ t = w := by
  induction fuel with
  | zero =>
    intro w va len buffer out ok _ _ result
    cases len with
    | zero =>
      cases Option.some.inj result
      exact ⟨rfl, rfl⟩
    | succ len => cases result
  | succ fuel ih =>
    intro w va len buffer out ok bound ready result
    cases len with
    | zero =>
      cases Option.some.inj result
      exact ⟨rfl, rfl⟩
    | succ len =>
      obtain ⟨pa, entry, resident, writable⟩ := ready 0 (Nat.succ_pos _)
      have allowed : userAccessAllowed entry false = true := by
        exact decide_eq_true (Or.inl writable)
      unfold copyFromUser at result
      rw [show va + 0 = va from rfl] at resident
      rw [resident_iff.mp resident] at result
      dsimp only at result
      rw [if_pos allowed, Word64.add_of_lt (by omega)] at result
      refine ih (by omega) (fun i inside => ?_) result
      rw [Nat.add_assoc]
      exact ready _ (by omega)

end Fetch

/-- Copies between the kernel and any address space of any reachable state. Both directions end,
whatever faults they take on the way. A copy to the address space delivers its bytes up to the end
or, when it fails, up to a page boundary, and changes nothing else that could be read; a copy from
it fetches what is there and changes nothing; and what was delivered is what a copy back fetches. -/
theorem run_userCopies {s : System} {layout : VmLayout} {current : Bool} {id va len fuel : Nat}
    {bytes : List (BitVec 8)} (reached : Transition.Reachable Boot step Transition.always s)
    (live : id ∈ s.live) (bound : va + len ≤ 2 ^ 48) (length : bytes.length = len)
    (enough : 3 * len ≤ fuel) :
    (∃ ok t, copyToUser layout current id fuel s.world va bytes = some (ok, t) ∧
      (∃ n, Stopped va len n ok ∧ Delivered s.world t id va (bytes.take n)) ∧
      (ok = true → copyFromUser layout current id fuel t va len [] = some (true, t, bytes))) ∧
    ∃ ok t fetched, copyFromUser layout current id fuel s.world va len [] = some (ok, t, fetched) ∧
      Stopped va len fetched.length ok ∧ Fetched s.world t id va fetched := by
  have rest : AtRest (s.kernel · = true) s.world id :=
    (reachable_sound reached).atRest live
  subst length
  constructor
  · obtain ⟨ok, t, result⟩ : ∃ ok t, copyToUser layout current id fuel s.world va bytes = some (ok, t) :=
      copyToUser_ends rest (by omega) enough
    obtain ⟨kept, n, stopped, delivered⟩ := copyToUser_delivered rest bound result
    refine ⟨ok, t, result, ⟨n, stopped, delivered⟩, ?_⟩
    rintro rfl
    obtain rfl := stopped.2.1 rfl
    rw [List.take_length] at delivered
    obtain ⟨ok, u, out, back⟩ : ∃ ok u out, copyFromUser layout current id fuel t va bytes.length [] =
        some (ok, u, out) := copyFromUser_ends kept (by omega) (by omega)
    obtain ⟨rfl, rfl⟩ := copyFromUser_ready fuel bound delivered.writable back
    obtain ⟨-, fetched, same, stoppedBack, moved⟩ := copyFromUser_fetched kept (by omega) back
    rw [back, same, List.nil_append]
    have equal : fetched = bytes := by
      apply List.ext_getElem?
      intro i
      by_cases inside : i < bytes.length
      · rw [← moved.moved i (by rw [stoppedBack.2.1 rfl]; exact inside), delivered.moved i inside]
      · have all := stoppedBack.2.1 rfl
        rw [List.getElem?_eq_none (by omega), List.getElem?_eq_none (by omega)]
    rw [equal]
  · obtain ⟨ok, t, out, result⟩ : ∃ ok t out, copyFromUser layout current id fuel s.world va
        bytes.length [] = some (ok, t, out) := copyFromUser_ends rest (by omega) (by omega)
    obtain ⟨-, fetched, same, stopped, moved⟩ := copyFromUser_fetched rest (by omega) result
    subst same
    exact ⟨ok, t, out, result, stopped, moved⟩

/-- Four bytes across a boundary: the first page is shared with a clone, the second is absent. -/
theorem run_userCopies_boundary :
    ∃ s t, Transition.run step (booted (PageAlloc.init sixteenPages (fun _ => 0) true))
        [.create (some 1), .fault sampleLayout 1 0x400000 0x04, .clone 1 (some 2)] = some s ∧
      copyToUser sampleLayout true 1 12 s.world 0x400ffe [1#8, 2#8, 3#8, 4#8] = some (true, t) ∧
      readUser t.pages.mem (t.contexts 1) 0x401001 = some 4#8 ∧
      copyFromUser sampleLayout true 1 12 t 0x400ffe 4 [] = some (true, t, [1#8, 2#8, 3#8, 4#8]) := by
  obtain ⟨s, first, live, ⟨_, t⟩, copied, rfl⟩ : ∃ s, Transition.run step
      (booted (PageAlloc.init sixteenPages (fun _ => 0) true))
      [.create (some 1), .fault sampleLayout 1 0x400000 0x04, .clone 1 (some 2)] = some s ∧
      1 ∈ s.live ∧ ∃ result, copyToUser sampleLayout true 1 12 s.world 0x400ffe
        [1#8, 2#8, 3#8, 4#8] = some result ∧ result.1 = true := by
    decide +kernel
  obtain ⟨⟨ok, t', again, ⟨n, stopped, delivered⟩, back⟩, -⟩ :=
    @run_userCopies s sampleLayout true 1 0x400ffe 4 12 [1#8, 2#8, 3#8, 4#8]
      (.of_ran (booted_boot _ _ _) first) live (by decide) rfl (by decide)
  cases copied.symm.trans again
  obtain rfl := stopped.2.1 rfl
  exact ⟨s, t, first, copied, delivered.moved 3 (by decide), back rfl⟩

end OsArmv8a.Mmu
