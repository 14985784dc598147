import OsArmv8a.Lib.Word64

/-! Symbol lookup of the dynamic linker: `ld_lookup_gnu_hash` on the `.gnu.hash` section of one
object, and the cache in front of the search of all of them. -/

set_option autoImplicit false

namespace OsArmv8a.LinkerLookup

/-- A C string without its terminator. -/
abbrev CString : Type := { chars : List UInt8 // 0 ∉ chars }

/-- `ld_strcmp`: the character behind the last one is the terminator. -/
def ldStrcmp : List UInt8 → List UInt8 → Int
  | [], s2 => 0 - (s2.headD 0).toNat
  | c :: _, [] => c.toNat
  | c :: s1, d :: s2 => if c = d then ldStrcmp s1 s2 else (c.toNat : Int) - d.toNat

theorem ldStrcmp_eq_zero (s1 s2 : List UInt8) (first : 0 ∉ s1) (second : 0 ∉ s2) :
    ldStrcmp s1 s2 = 0 ↔ s1 = s2 := by
  have positive (c : UInt8) (nonzero : 0 ≠ c) : 0 < c.toNat := by
    rcases Nat.eq_zero_or_pos c.toNat with zero | positive
    · exact absurd (UInt8.toNat_inj.mp zero).symm nonzero
    · exact positive
  induction s1 generalizing s2 with
  | nil =>
    cases s2 with
    | nil => simp [ldStrcmp]
    | cons d s2 =>
      have := positive d (List.ne_of_not_mem_cons second)
      simp only [ldStrcmp, List.headD_cons, reduceCtorEq, iff_false]
      omega
  | cons c s1 ih =>
    cases s2 with
    | nil =>
      have := positive c (List.ne_of_not_mem_cons first)
      simp only [ldStrcmp, reduceCtorEq, iff_false]
      omega
    | cons d s2 =>
      rw [ldStrcmp, List.cons.injEq]
      by_cases same : c = d
      · have rest := ih s2 (List.not_mem_of_not_mem_cons first)
          (List.not_mem_of_not_mem_cons second)
        rw [if_pos same]
        exact rest.trans ⟨fun equal => ⟨same, equal⟩, And.right⟩
      · have differ : c.toNat ≠ d.toNat := fun equal => same (UInt8.toNat_inj.mp equal)
        rw [if_neg same]
        exact iff_of_false (by omega) fun equal => same equal.1

/-- An `Elf64_Sym` with the string that `st_name` names. -/
structure Sym where
  name : CString
  shndx : Nat
  value : Nat

/-- The `.gnu.hash` section and the symbol table of an object. -/
structure Tables where
  nbuckets : Nat
  symoffset : Nat
  bloomSz : Nat
  bloomShift : Nat
  bloom : Nat → BitVec 64
  buckets : Nat → Nat
  chains : Nat → BitVec 32
  symtab : Nat → Sym

/-- The part of `struct ld_object` that a lookup reads; no tables when one of the pointers
is null. -/
structure Object where
  base : Nat
  tables : Option Tables

def ldGnuHash (name : CString) : BitVec 32 :=
  name.val.foldl (fun h c => h * 33 + c.toBitVec.setWidth 32) 5381

/-- The loop over a chain. Its result is `none` when the fuel ends before the chain. -/
def chainLoop (base : Nat) (tables : Tables) (h : BitVec 32) (name : CString) :
    Nat → Nat → Nat → Option Nat
  | 0, _, _ => none
  | fuel + 1, ci, symIdx =>
    let c := tables.chains ci
    let sym := tables.symtab symIdx
    if c ||| 1 = h ||| 1 ∧ sym.shndx ≠ 0 ∧ ldStrcmp sym.name.val name.val = 0 then
      some (Word64.add base sym.value)
    else if c &&& 1 ≠ 0 then some 0
    else chainLoop base tables h name fuel ((ci + 1) % 2 ^ 32) ((symIdx + 1) % 2 ^ 32)

def bloomMask (tables : Tables) (h : BitVec 32) : BitVec 64 :=
  (1#64 <<< (h.toNat % 64)) ||| (1#64 <<< ((h >>> tables.bloomShift).toNat % 64))

/-- `ld_lookup_gnu_hash`. -/
def ldLookupGnuHash (fuel : Nat) (obj : Object) (name : CString) : Option Nat :=
  match obj.tables with
  | none => some 0
  | some tables =>
    let h := ldGnuHash name
    let mask := bloomMask tables h
    if tables.bloom (h.toNat / 64 % tables.bloomSz) &&& mask ≠ mask then some 0
    else
      let symIdx := tables.buckets (h.toNat % tables.nbuckets)
      if symIdx < tables.symoffset then some 0
      else chainLoop obj.base tables h name fuel (symIdx - tables.symoffset) symIdx

section Chains

def Tables.hash (tables : Tables) (i : Nat) : BitVec 32 := ldGnuHash (tables.symtab i).name

def Tables.bucketOf (tables : Tables) (i : Nat) : Nat := (tables.hash i).toNat % tables.nbuckets

/-- A section as a linker emits it for a table of `count` symbols. -/
structure WellFormed (tables : Tables) (count : Nat) : Prop where
  sizes : 0 < tables.nbuckets ∧ 0 < tables.bloomSz ∧ 0 < tables.symoffset ∧ tables.bloomShift < 32
  count_le : count ≤ 2 ^ 32
  bloom : ∀ i, tables.symoffset ≤ i → i < count →
    (tables.bloom ((tables.hash i).toNat / 64 % tables.bloomSz)).getLsbD
      ((tables.hash i).toNat % 64) = true ∧
    (tables.bloom ((tables.hash i).toNat / 64 % tables.bloomSz)).getLsbD
      ((tables.hash i >>> tables.bloomShift).toNat % 64) = true
  /-- A bucket names its first symbol, an empty one no symbol. -/
  bucket : ∀ b < tables.nbuckets,
    (tables.buckets b = 0 ∧ ∀ i, tables.symoffset ≤ i → i < count → tables.bucketOf i ≠ b) ∨
    (tables.symoffset ≤ tables.buckets b ∧ tables.buckets b < count ∧
      tables.bucketOf (tables.buckets b) = b ∧
      ∀ i, tables.symoffset ≤ i → i < count → tables.bucketOf i = b → tables.buckets b ≤ i)
  contiguous : ∀ i j k, tables.symoffset ≤ i → i ≤ j → j ≤ k → k < count →
    tables.bucketOf i = tables.bucketOf k → tables.bucketOf j = tables.bucketOf k
  chain : ∀ i, tables.symoffset ≤ i → i < count →
    tables.chains (i - tables.symoffset) ||| 1 = tables.hash i ||| 1
  /-- The low bit marks the last symbol of a bucket. -/
  last : ∀ i, tables.symoffset ≤ i → i < count →
    (tables.chains (i - tables.symoffset) &&& 1 ≠ 0 ↔
      (i + 1 < count → tables.bucketOf (i + 1) ≠ tables.bucketOf i))

/-- The defined symbols of a name. -/
def Tables.Defines (tables : Tables) (name : CString) (i : Nat) : Prop :=
  (tables.symtab i).name = name ∧ (tables.symtab i).shndx ≠ 0

instance (tables : Tables) (name : CString) (i : Nat) : Decidable (tables.Defines name i) :=
  inferInstanceAs (Decidable (_ ∧ _))

/-- The lowest index from `i` on that defines the name. -/
def Tables.lowest (tables : Tables) (count : Nat) (name : CString) (i : Nat) : Option Nat :=
  (List.range' i (count - i)).find? fun k => tables.Defines name k

/-- The address of a symbol, 0 for none. -/
def address (base : Nat) (tables : Tables) : Option Nat → Nat
  | none => 0
  | some i => Word64.add base (tables.symtab i).value

variable {tables : Tables} {count : Nat} {name : CString} {i j : Nat}

theorem lowest_cons (inside : i < count) :
    tables.lowest count name i =
      if tables.Defines name i then some i else tables.lowest count name (i + 1) := by
  unfold Tables.lowest
  obtain ⟨rest, size⟩ : ∃ rest, count - i = rest + 1 := ⟨count - i - 1, by omega⟩
  rw [size, List.range'_succ, List.find?_cons, show count - (i + 1) = rest by omega]
  by_cases defined : tables.Defines name i <;> simp [defined]

theorem lowest_skip (ordered : i ≤ j) (inside : j ≤ count)
    (none : ∀ k, i ≤ k → k < j → ¬ tables.Defines name k) :
    tables.lowest count name i = tables.lowest count name j := by
  induction ordered with
  | refl => rfl
  | step ordered ih =>
    rw [ih (by omega) fun k lower upper => none k lower (by omega), lowest_cons (by omega),
      if_neg (none _ ordered (by omega))]

theorem lowest_none (absent : ∀ k, i ≤ k → k < count → ¬ tables.Defines name k) :
    tables.lowest count name i = none := by
  refine List.find?_eq_none.mpr fun k member => ?_
  have bounds := List.mem_range'_1.mp member
  simpa using absent k bounds.1 (by omega)

theorem Tables.Defines.hash (defined : tables.Defines name i) : tables.hash i = ldGnuHash name :=
  congrArg ldGnuHash defined.1

theorem bloomMask_passes (word : BitVec 64) (h : BitVec 32)
    (set : word.getLsbD (h.toNat % 64) = true ∧
      word.getLsbD ((h >>> tables.bloomShift).toNat % 64) = true) :
    word &&& bloomMask tables h = bloomMask tables h := by
  apply BitVec.eq_of_getLsbD_eq
  intro bit small
  unfold bloomMask
  generalize (h >>> tables.bloomShift).toNat % 64 = second at *
  generalize h.toNat % 64 = first at *
  by_cases one : bit = first
  · simp [one, set.1]
  · by_cases two : bit = second
    · simp [two, set.2]
    · have above (n : Nat) (differs : bit ≠ n) : (1#64 <<< n).getLsbD bit = false := by
        by_cases below : bit < n
        · simp [below]
        · simp [show bit - n ≠ 0 by omega]
      simp [above first one, above second two]

/-- From a symbol of the bucket of the name on, the loop finds the lowest one of the name. -/
theorem chainLoop_lowest (formed : WellFormed tables count) (base fuel : Nat)
    (lower : tables.symoffset ≤ i) (inside : i < count) (enough : count - i ≤ fuel)
    (here : tables.bucketOf i = (ldGnuHash name).toNat % tables.nbuckets) :
    chainLoop base tables (ldGnuHash name) name fuel (i - tables.symoffset) i =
      some (address base tables (tables.lowest count name i)) := by
  induction fuel generalizing i with
  | zero => omega
  | succ fuel ih =>
    have found : (tables.chains (i - tables.symoffset) ||| 1 = ldGnuHash name ||| 1 ∧
        (tables.symtab i).shndx ≠ 0 ∧
        ldStrcmp (tables.symtab i).name.val name.val = 0) ↔ tables.Defines name i := by
      rw [ldStrcmp_eq_zero _ _ (tables.symtab i).name.property name.property, Subtype.val_inj]
      constructor
      · rintro ⟨_, defined, named⟩
        exact ⟨named, defined⟩
      · intro defines
        exact ⟨defines.hash ▸ formed.chain i lower inside, defines.2, defines.1⟩
    have marked := formed.last i lower inside
    simp only [chainLoop, found]
    rw [lowest_cons inside]
    by_cases defines : tables.Defines name i
    · rw [if_pos defines, if_pos defines]
      rfl
    · rw [if_neg defines, if_neg defines]
      by_cases last : tables.chains (i - tables.symoffset) &&& 1 ≠ 0
      · rw [if_pos last, lowest_none]
        · rfl
        · -- a later symbol of the name would belong to the bucket that ends here
          intro k above below other
          have same : tables.bucketOf i = tables.bucketOf k := by
            rw [here, Tables.bucketOf, other.hash]
          have next := formed.contiguous i (i + 1) k lower (by omega) above below same
          exact marked.mp last (by omega) (next.trans same.symm)
      · rw [if_neg last]
        obtain ⟨more, same⟩ : i + 1 < count ∧ tables.bucketOf (i + 1) = tables.bucketOf i := by
          rw [marked, Classical.not_imp, not_not] at last
          exact last
        have small := formed.count_le
        rw [Nat.mod_eq_of_lt (by omega), Nat.mod_eq_of_lt (by omega),
          show i - tables.symoffset + 1 = i + 1 - tables.symoffset by omega]
        exact ih (by omega) more (by omega) (same.trans here)

/-- The lookup in an object whose section a linker has written is a linear search. -/
theorem ldLookupGnuHash_linear (formed : WellFormed tables count) (base : Nat) (name : CString)
    {fuel : Nat} (enough : count ≤ fuel) :
    ldLookupGnuHash fuel ⟨base, some tables⟩ name =
      some (address base tables (tables.lowest count name tables.symoffset)) := by
  obtain ⟨buckets, _, offset, _⟩ := formed.sizes
  unfold ldLookupGnuHash
  dsimp only
  split
  · -- the filter has the bits of every symbol, so none has the name
    rename_i filtered
    rw [lowest_none]
    · rfl
    · intro k lower inside defines
      have passes := bloomMask_passes _ _ (formed.bloom k lower inside)
      rw [defines.hash] at passes
      exact filtered passes
  · have bound := Nat.mod_lt (ldGnuHash name).toNat buckets
    rcases formed.bucket _ bound with ⟨empty, absent⟩ | ⟨lower, inside, first, lowest⟩
    · rw [if_pos (by omega), lowest_none]
      · rfl
      · intro k lower inside defines
        exact absent k lower inside (by rw [Tables.bucketOf, defines.hash])
    · rw [if_neg (by omega), chainLoop_lowest formed base fuel lower inside (by omega) first,
        lowest_skip lower (by omega)]
      intro k above below defines
      have start := lowest k above (by omega) (by rw [Tables.bucketOf, defines.hash])
      omega

/-- Two symbols in one bucket, `a` and `b`, behind the null symbol. -/
def sampleTables : Tables where
  nbuckets := 1
  symoffset := 1
  bloomSz := 1
  bloomShift := 6
  bloom := fun _ => BitVec.allOnes 64
  buckets := fun _ => 1
  chains := fun ci => if ci = 0 then 0x2b606#32 else 0x2b607#32
  symtab := fun i =>
    if i = 1 then ⟨⟨[97], by decide⟩, 8, 0x100⟩ else ⟨⟨[98], by decide⟩, 8, 0x200⟩

theorem sampleTables_wellFormed : WellFormed sampleTables 3 := by
  have one (i : Nat) : sampleTables.bucketOf i = 0 := Nat.mod_one _
  have symbols (i : Nat) (lower : 1 ≤ i) (upper : i < 3) : i = 1 ∨ i = 2 := by omega
  refine ⟨by decide, by decide, ?_, ?_, ?_, ?_, ?_⟩
  · intro i lower upper
    rcases symbols i lower upper with rfl | rfl <;> decide
  · intro b single
    have zero : b = 0 := Nat.lt_one_iff.mp single
    exact Or.inr ⟨Nat.le_refl 1, show 1 < 3 by decide, (one 1).trans zero.symm, fun _ lower _ _ => lower⟩
  · intro i j k _ _ _ _ _
    rw [one, one]
  · intro i lower upper
    rcases symbols i lower upper with rfl | rfl <;> decide
  · intro i lower upper
    rcases symbols i lower upper with rfl | rfl <;> decide

theorem ldLookupGnuHash_linear_second :
    ldLookupGnuHash 3 ⟨0x5000000, some sampleTables⟩ ⟨[98], by decide⟩ = some 0x5000200 :=
  (ldLookupGnuHash_linear sampleTables_wellFormed 0x5000000 ⟨[98], by decide⟩ (Nat.le_refl 3)).trans
    (by decide +kernel)

end Chains

/-- `g_sym_cache`: the entries, empty ones with a null name, and `g_sym_cache_next`. The name of an
entry is a string of a mapped object, which does not change. -/
structure Cache where
  entries : List (Option (CString × Nat))
  next : Nat

/-- `g_objects` and the cache. -/
structure Symbols where
  objects : List Object
  cache : Cache

/-- The search of the objects in load order, which ends at the first address. -/
def searchObjects (fuel : Nat) (name : CString) : List Object → Option Nat
  | [] => some 0
  | object :: rest =>
    (ldLookupGnuHash fuel object name).bind fun addr =>
      if addr ≠ 0 then some addr else searchObjects fuel name rest

/-- The first entry of the cache with the name. -/
def Cache.find (cache : Cache) (name : CString) : Option Nat :=
  cache.entries.findSome? fun entry => entry.bind fun (cached, addr) =>
    if ldStrcmp cached.val name.val = 0 then some addr else none

/-- `ld_lookup_symbol_internal`; the result is `none` when the lookup does not end. -/
def ldLookupSymbolInternal (fuel : Nat) (s : Symbols) (name : CString) : Option Nat × Symbols :=
  match s.cache.find name with
  | some addr => (some addr, s)
  | none =>
    match searchObjects fuel name s.objects with
    | none => (none, s)
    | some addr =>
      if addr = 0 then (some 0, s)
      else
        (some addr,
          { s with cache := ⟨s.cache.entries.set s.cache.next (some (name, addr)),
              (s.cache.next + 1) % 128⟩ })

inductive Event where
  | append (object : Object)
  | lookup (name : CString)

def step (fuel : Nat) (s : Symbols) : Event → Symbols
  | .append object => { s with objects := s.objects ++ [object] }
  | .lookup name => (ldLookupSymbolInternal fuel s name).2

def run (fuel : Nat) (s : Symbols) (events : List Event) : Symbols := events.foldl (step fuel) s

/-- The linker before its first lookup. -/
def Symbols.initial (objects : List Object) : Symbols :=
  ⟨objects, ⟨List.replicate 128 none, 0⟩⟩

/-- Every entry has the address that a search of the objects finds. -/
def Truthful (fuel : Nat) (s : Symbols) : Prop :=
  ∀ name addr, some (name, addr) ∈ s.cache.entries →
    addr ≠ 0 ∧ searchObjects fuel name s.objects = some addr

section Caching

variable {fuel : Nat} {s : Symbols} {name : CString} {addr : Nat}

/-- An object behind the others hides nothing that they define. -/
theorem searchObjects_append {objects : List Object} (object : Object)
    (found : searchObjects fuel name objects = some addr) (nonzero : addr ≠ 0) :
    searchObjects fuel name (objects ++ [object]) = some addr := by
  induction objects with
  | nil => exact absurd (Option.some.inj found).symm nonzero
  | cons first rest ih =>
    obtain ⟨here, looked, kept⟩ := Option.bind_eq_some_iff.mp found
    rw [List.cons_append, searchObjects, looked, Option.bind_some]
    by_cases defined : here ≠ 0
    · rwa [if_pos defined] at kept ⊢
    · rw [if_neg defined] at kept ⊢
      exact ih kept

theorem Cache.find_mem (found : s.cache.find name = some addr) :
    some (name, addr) ∈ s.cache.entries := by
  obtain ⟨entry, member, bound⟩ := List.exists_of_findSome?_eq_some found
  obtain ⟨⟨cached, stored⟩, rfl, kept⟩ := Option.bind_eq_some_iff.mp bound
  obtain ⟨same, equal⟩ := Option.ite_none_right_eq_some.mp kept
  cases equal
  rw [ldStrcmp_eq_zero _ _ cached.property name.property, Subtype.val_inj] at same
  exact same ▸ member

/-- A lookup that the cache answers, and one that it does not. -/
theorem ldLookupSymbolInternal_cases (truthful : Truthful fuel s) (name : CString) :
    (ldLookupSymbolInternal fuel s name).1 = searchObjects fuel name s.objects ∧
      Truthful fuel (ldLookupSymbolInternal fuel s name).2 := by
  unfold ldLookupSymbolInternal
  cases found : s.cache.find name with
  | some addr => exact ⟨(truthful name addr (Cache.find_mem found)).2.symm, truthful⟩
  | none =>
    cases searched : searchObjects fuel name s.objects with
    | none => exact ⟨rfl, truthful⟩
    | some addr =>
      dsimp only
      by_cases zero : addr = 0
      · rw [if_pos zero]
        exact ⟨congrArg some zero.symm, truthful⟩
      · rw [if_neg zero]
        refine ⟨rfl, ?_⟩
        intro other stored member
        rcases List.mem_or_eq_of_mem_set member with old | new
        · exact truthful other stored old
        · cases new
          exact ⟨zero, searched⟩

theorem step_truthful (truthful : Truthful fuel s) (event : Event) :
    Truthful fuel (step fuel s event) := by
  cases event with
  | append object =>
    intro name addr member
    obtain ⟨nonzero, found⟩ := truthful name addr member
    exact ⟨nonzero, searchObjects_append object found nonzero⟩
  | lookup name => exact (ldLookupSymbolInternal_cases truthful name).2

theorem run_truthful_cache (truthful : Truthful fuel s) (events : List Event) :
    Truthful fuel (run fuel s events) := by
  induction events generalizing s with
  | nil => exact truthful
  | cons event events ih => exact ih (step_truthful truthful event)

theorem initial_truthful (fuel : Nat) (objects : List Object) : Truthful fuel (.initial objects) := by
  intro name addr member
  exact absurd (List.eq_of_mem_replicate member) (by simp)

/-- After any lookups and any appended objects, the cache changes no lookup. -/
theorem ldLookupSymbolInternal_transparent (fuel : Nat) (objects : List Object)
    (events : List Event) (name : CString) :
    (ldLookupSymbolInternal fuel (run fuel (.initial objects) events) name).1 =
      searchObjects fuel name (run fuel (.initial objects) events).objects :=
  (ldLookupSymbolInternal_cases (run_truthful_cache (initial_truthful fuel objects) events) name).1

end Caching

end OsArmv8a.LinkerLookup
