import Mathlib

/-! The page-table descriptors of `mmu.h` and the descriptor expressions that
`mmu_vmsa.c` writes into page tables. -/

set_option autoImplicit false

namespace OsArmv8a.Mmu

/-- `MMU_DESC_ADDR_MASK`, the same as `MMU_L3_PAGE_ADDR_MASK`. -/
def addrMask : BitVec 64 := 0x0000fffffffff000#64

/-- `MMU_DESC_TABLE`, the same as `MMU_DESC_PAGE`. -/
def descTable : BitVec 64 := 3#64

/-- `MMU_DESC_BLOCK`, the same as `MMU_DESC_VALID`. -/
def descBlock : BitVec 64 := 1#64

/-- `MMU_AP_RW`: the kernel's own permission bits, all zero. -/
def apRw : BitVec 64 := 0#64

/-- `MMU_AP_RO`, bit 7. -/
def apRo : BitVec 64 := 0x80#64

/-- `MMU_DESC_SOFTWARE_COW`, bit 55. -/
def softwareCow : BitVec 64 := 0x80000000000000#64

/-- `3UL << 6`. -/
def userApMask : BitVec 64 := 0xc0#64

/-- `MMU_USER_PAGE_AP_RW`. -/
def userApRw : BitVec 64 := 0x40#64

/-- `MMU_USER_PAGE_AP_RO`. -/
def userApRo : BitVec 64 := 0xc0#64

/-- Every bit the `MMU_USER_PAGE_*` flags are made of. -/
def userAttributes : BitVec 64 := 0x600000000007c4#64

def Valid (entry : BitVec 64) : Prop := entry &&& 1#64 ≠ 0#64

/-- Valid with type bits `11`: a table at levels 0 to 2, a page at level 3. -/
def IsTable (entry : BitVec 64) : Prop := entry &&& 3#64 = descTable

/-- Valid with type bits `01`. -/
def IsBlock (entry : BitVec 64) : Prop := entry &&& 3#64 = descBlock

/-- EL0 may write: the AP bits are `01`. -/
def Writable (entry : BitVec 64) : Prop := entry &&& userApMask = userApRw

/-- The first test of the permission-fault path: a valid, read-only, copy-on-write leaf. -/
def IsCow (entry : BitVec 64) : Prop :=
  Valid entry ∧ entry &&& apRo = apRo ∧ entry &&& softwareCow ≠ 0#64

instance (entry : BitVec 64) : Decidable (Valid entry) := inferInstanceAs (Decidable (¬ _))
instance (entry : BitVec 64) : Decidable (IsTable entry) := inferInstanceAs (Decidable (_ = _))
instance (entry : BitVec 64) : Decidable (IsBlock entry) := inferInstanceAs (Decidable (_ = _))
instance (entry : BitVec 64) : Decidable (Writable entry) := inferInstanceAs (Decidable (_ = _))
instance (entry : BitVec 64) : Decidable (IsCow entry) := inferInstanceAs (Decidable (_ ∧ _))

def descAddr (entry : BitVec 64) : Nat := (entry &&& addrMask).toNat

/-- A link to a freshly allocated sub-table. -/
def tableEntry (pa : Nat) : BitVec 64 := BitVec.ofNat 64 pa ||| descTable

/-- The leaf `mmu_map_user_page_locked` installs, with nG (bit 11) forced on. -/
def pageEntry (pa : Nat) (flags : BitVec 64) : BitVec 64 :=
  (BitVec.ofNat 64 pa &&& addrMask) ||| flags ||| descTable ||| 0x800#64

/-- The link the clone walk writes: a new table under the attributes of the source's. -/
def clonedTableEntry (pa : Nat) (entry : BitVec 64) : BitVec 64 :=
  (BitVec.ofNat 64 pa &&& addrMask) ||| (entry &&& ~~~addrMask)

/-- The leaf the clone walk writes into both address spaces. -/
def cowEntry (entry : BitVec 64) : BitVec 64 := (entry &&& ~~~apRw) ||| apRo ||| softwareCow

/-- The leaf after an upgrade in place. -/
def upgradedEntry (entry : BitVec 64) : BitVec 64 :=
  (entry &&& ~~~apRo &&& ~~~softwareCow) ||| apRw

/-- The leaf after a copy. -/
def copiedEntry (pa : Nat) (entry : BitVec 64) : BitVec 64 :=
  (BitVec.ofNat 64 pa &&& addrMask) |||
    (entry &&& ~~~addrMask &&& ~~~apRo &&& ~~~softwareCow) ||| apRw

/-- An address a descriptor can hold: page aligned, below `2^48`. -/
structure PageAddr (pa : Nat) : Prop where
  aligned : 4096 ∣ pa
  small : pa < 2 ^ 48

theorem getLsbD_addrMask (i : Nat) : addrMask.getLsbD i = decide (12 ≤ i ∧ i < 48) := by
  by_cases small : i < 64
  · have all : ∀ i < 64, addrMask.getLsbD i = decide (12 ≤ i ∧ i < 48) := by decide
    exact all i small
  · rw [BitVec.getLsbD_of_ge _ _ (by omega)]
    simp only [Bool.false_eq, decide_eq_false_iff_not]
    omega

theorem PageAddr.masked {pa : Nat} (page : PageAddr pa) :
    BitVec.ofNat 64 pa &&& addrMask = BitVec.ofNat 64 pa := by
  obtain ⟨k, rfl⟩ := page.aligned
  apply BitVec.eq_of_getLsbD_eq
  intro i below
  rw [BitVec.getLsbD_and, getLsbD_addrMask, BitVec.getLsbD_ofNat]
  by_cases inside : 12 ≤ i ∧ i < 48
  · simp [inside]
  · have clear : (4096 * k).testBit i = false := by
      by_cases low : i < 12
      · rw [show 4096 * k = 2 ^ 12 * k from rfl, Nat.testBit_two_pow_mul]
        simp [show ¬ 12 ≤ i by omega]
      · apply Nat.testBit_lt_two_pow
        exact Nat.lt_of_lt_of_le page.small (Nat.pow_le_pow_right (by decide) (by omega))
    simp [clear]

theorem PageAddr.toNat {pa : Nat} (page : PageAddr pa) : (BitVec.ofNat 64 pa).toNat = pa := by
  exact Nat.mod_eq_of_lt (Nat.lt_trans page.small (by decide))

theorem and_or_self (x y : BitVec 64) : (x ||| y) &&& y = y := by
  grind

theorem descAddr_tableEntry {pa : Nat} (page : PageAddr pa) : descAddr (tableEntry pa) = pa := by
  unfold descAddr tableEntry
  rw [BitVec.and_or_distrib_right, page.masked, show descTable &&& addrMask = 0#64 by decide,
    BitVec.or_zero, page.toNat]

theorem isTable_tableEntry (pa : Nat) : IsTable (tableEntry pa) := and_or_self _ _

theorem IsTable.valid {entry : BitVec 64} (table : IsTable entry) : Valid entry := by
  unfold Valid
  rw [show (1#64 : BitVec 64) = 3#64 &&& 1#64 by decide, ← BitVec.and_assoc, table]
  decide

theorem not_valid_zero : ¬ Valid 0#64 := by decide

theorem descAddr_pageAddr (entry : BitVec 64) : PageAddr (descAddr entry) := by
  constructor
  · apply Nat.dvd_of_mod_eq_zero
    apply Nat.eq_of_testBit_eq
    intro i
    rw [show 4096 = 2 ^ 12 from rfl, Nat.testBit_mod_two_pow, Nat.zero_testBit]
    by_cases low : i < 12
    · show (decide (i < 12) && (entry &&& addrMask).getLsbD i) = false
      rw [BitVec.getLsbD_and, getLsbD_addrMask]
      simp [show ¬ 12 ≤ i by omega]
    · simp [low]
  · apply Nat.lt_pow_two_of_testBit
    intro i high
    show (entry &&& addrMask).getLsbD i = false
    rw [BitVec.getLsbD_and, getLsbD_addrMask]
    simp [show ¬ i < 48 by omega]

section Fields

variable {pa : Nat} {flags entry : BitVec 64}

theorem flags_masked (plain : flags &&& ~~~userAttributes = 0#64) : flags &&& addrMask = 0#64 := by
  have inside : addrMask = ~~~userAttributes &&& addrMask := by decide
  rw [inside, ← BitVec.and_assoc, plain]
  decide

theorem descAddr_pageEntry (page : PageAddr pa) (plain : flags &&& ~~~userAttributes = 0#64) :
    descAddr (pageEntry pa flags) = pa := by
  unfold descAddr pageEntry
  rw [BitVec.and_or_distrib_right, BitVec.and_or_distrib_right, BitVec.and_or_distrib_right,
    page.masked, page.masked, flags_masked plain, show descTable &&& addrMask = 0#64 by decide,
    show 0x800#64 &&& addrMask = 0#64 by decide, BitVec.or_zero, BitVec.or_zero, BitVec.or_zero,
    page.toNat]

theorem isTable_pageEntry : IsTable (pageEntry pa flags) := by
  show _ &&& descTable = descTable
  unfold pageEntry
  rw [BitVec.and_or_distrib_right, and_or_self, show 0x800#64 &&& descTable = 0#64 by decide,
    BitVec.or_zero]

/-- A mapped leaf is writable exactly when its flags ask for it. -/
theorem writable_pageEntry : Writable (pageEntry pa flags) ↔ flags &&& userApMask = userApRw := by
  unfold Writable pageEntry
  rw [BitVec.and_or_distrib_right, BitVec.and_or_distrib_right, BitVec.and_or_distrib_right,
    BitVec.and_assoc, show addrMask &&& userApMask = 0#64 by decide, BitVec.and_zero,
    show descTable &&& userApMask = 0#64 by decide, show 0x800#64 &&& userApMask = 0#64 by decide,
    BitVec.zero_or, BitVec.or_zero, BitVec.or_zero]

theorem descAddr_clonedTableEntry (page : PageAddr pa) :
    descAddr (clonedTableEntry pa entry) = pa := by
  unfold descAddr clonedTableEntry
  rw [BitVec.and_or_distrib_right, page.masked, page.masked, BitVec.and_assoc,
    show ~~~addrMask &&& addrMask = 0#64 by decide, BitVec.and_zero, BitVec.or_zero, page.toNat]

theorem isTable_clonedTableEntry : IsTable (clonedTableEntry pa entry) ↔ IsTable entry := by
  unfold IsTable clonedTableEntry
  rw [BitVec.and_or_distrib_right, BitVec.and_assoc, BitVec.and_assoc,
    show addrMask &&& 3#64 = 0#64 by decide, show ~~~addrMask &&& 3#64 = 3#64 by decide,
    BitVec.and_zero, BitVec.zero_or]

theorem cowEntry_and {mask : BitVec 64} (ro : apRo &&& mask = 0#64)
    (cow : softwareCow &&& mask = 0#64) : cowEntry entry &&& mask = entry &&& mask := by
  unfold cowEntry
  rw [BitVec.and_or_distrib_right, BitVec.and_or_distrib_right, ro, cow, BitVec.or_zero,
    BitVec.or_zero, show ~~~apRw = BitVec.allOnes 64 by decide, BitVec.and_allOnes]

theorem descAddr_cowEntry : descAddr (cowEntry entry) = descAddr entry := by
  unfold descAddr
  rw [cowEntry_and (by decide) (by decide)]

theorem isTable_cowEntry : IsTable (cowEntry entry) ↔ IsTable entry := by
  unfold IsTable
  rw [cowEntry_and (by decide) (by decide)]

theorem cowEntry_and_apRo : cowEntry entry &&& apRo = apRo := by
  unfold cowEntry
  rw [BitVec.and_or_distrib_right, and_or_self, show softwareCow &&& apRo = 0#64 by decide,
    BitVec.or_zero]

theorem not_writable_cowEntry : ¬ Writable (cowEntry entry) := by
  intro writable
  have bit : cowEntry entry &&& userApMask &&& apRo = apRo := by
    rw [BitVec.and_assoc, show userApMask &&& apRo = apRo by decide, cowEntry_and_apRo]
  rw [show cowEntry entry &&& userApMask = userApRw from writable] at bit
  exact absurd bit (by decide)

theorem upgradedEntry_and {mask : BitVec 64} (ro : ~~~apRo &&& mask = mask)
    (cow : ~~~softwareCow &&& mask = mask) : upgradedEntry entry &&& mask = entry &&& mask := by
  unfold upgradedEntry
  rw [show apRw = 0#64 from rfl, BitVec.or_zero, BitVec.and_assoc, BitVec.and_assoc, cow, ro]

theorem descAddr_upgradedEntry : descAddr (upgradedEntry entry) = descAddr entry := by
  unfold descAddr
  rw [upgradedEntry_and (by decide) (by decide)]

theorem isTable_upgradedEntry : IsTable (upgradedEntry entry) ↔ IsTable entry := by
  unfold IsTable
  rw [upgradedEntry_and (by decide) (by decide)]

theorem descAddr_copiedEntry (page : PageAddr pa) : descAddr (copiedEntry pa entry) = pa := by
  unfold descAddr copiedEntry
  rw [show apRw = 0#64 from rfl, BitVec.or_zero, BitVec.and_or_distrib_right, page.masked,
    page.masked, BitVec.and_assoc, BitVec.and_assoc, BitVec.and_assoc,
    show ~~~addrMask &&& (~~~apRo &&& (~~~softwareCow &&& addrMask)) = 0#64 by decide,
    BitVec.and_zero, BitVec.or_zero, page.toNat]

theorem isTable_copiedEntry : IsTable (copiedEntry pa entry) ↔ IsTable entry := by
  unfold IsTable copiedEntry
  rw [show apRw = 0#64 from rfl, BitVec.or_zero, BitVec.and_or_distrib_right, BitVec.and_assoc,
    show addrMask &&& 3#64 = 0#64 by decide, BitVec.and_zero, BitVec.zero_or, BitVec.and_assoc,
    BitVec.and_assoc, BitVec.and_assoc,
    show ~~~addrMask &&& (~~~apRo &&& (~~~softwareCow &&& 3#64)) = 3#64 by decide]

end Fields

end OsArmv8a.Mmu
