import OsArmv8a.HeapArena

set_option autoImplicit false

namespace OsArmv8a.Heap

open Tiling State Intrusive

/-- An arena: where its pages are mapped, how many, and the blocks it is cut into. -/
structure Arena where
  base : Nat
  pageCount : Nat
  blocks : List Block

namespace Arena

def stop (a : Arena) : Nat := a.base + 4096 * a.pageCount

/-- The physical pages the arena occupies. -/
def frames (a : Arena) : List Nat := pagesFrom (a.base - kernelVaOffset) a.pageCount

def Apart (a b : Arena) : Prop := a.stop ≤ b.base ∨ b.stop ≤ a.base

end Arena

/-- A pointer, with null as `none`. -/
def nullable (ptr : Nat) : Option Nat := if ptr = 0 then none else some ptr

/-- `page->next` of the arena at `base`. -/
def arenaLink (s : State) (base : Nat) : Option Nat := nullable (s.load (base + 16))

/-- The memory of an arena holds its header and its blocks, in pages the heap owns. -/
structure ArenaAt (s : State) (a : Arena) : Prop where
  magic : s.load a.base = pageMagic
  count : s.load (a.base + 8) = a.pageCount
  usable : s.load (a.base + 24) = 4096 * a.pageCount - 80
  firstBlock : s.load (a.base + 32) = a.base + 48
  laid : Laid s.load 0 (a.base + 48) a.blocks 0
  tiled : Tiled 32 16 (4096 * a.pageCount - 48) a.blocks
  low : 0x40000000 + kernelVaOffset ≤ a.base
  high : a.stop ≤ 0x48000000 + kernelVaOffset
  positive : 1 ≤ a.pageCount
  owned : ∀ pa ∈ a.frames, PageAlloc.Managed s.pages pa ∧ s.pages.stateAt pa = .allocated

structure Invariant (s : State) (arenas : List Arena) : Prop where
  pages : PageAlloc.Invariant s.pages
  chain : Chain (arenaLink s) (nullable s.heapPages) (arenas.map Arena.base)
  each : ∀ a ∈ arenas, ArenaAt s a
  disjoint : arenas.Pairwise Arena.Apart

variable {s : State} {a : Arena}

theorem ArenaAt.extent (at_ : ArenaAt s a) : a.base + 48 + span 32 a.blocks = a.stop := by
  have exact := at_.tiled.exact
  have positive := at_.positive
  unfold Arena.stop
  omega

theorem ArenaAt.aligned (at_ : ArenaAt s a) : (a.base - kernelVaOffset) % 4096 = 0 := by
  have positive := at_.positive
  exact (at_.owned (a.base - kernelVaOffset) (mem_pagesFrom.mpr ⟨0, by omega, by omega⟩)).1.2.2

variable {t : State}

theorem ArenaAt.congr (at_ : ArenaAt s a)
    (same : ∀ va, a.base ≤ va → va < a.stop → t.load va = s.load va)
    (owned : ∀ pa ∈ a.frames, PageAlloc.Managed t.pages pa ∧ t.pages.stateAt pa = .allocated) :
    ArenaAt t a := by
  have extent := at_.extent
  refine ⟨?_, ?_, ?_, ?_, ?_, at_.tiled, at_.low, at_.high, at_.positive, owned⟩
  · rw [same _ (by omega) (by omega)]; exact at_.magic
  · rw [same _ (by omega) (by omega)]; exact at_.count
  · rw [same _ (by omega) (by omega)]; exact at_.usable
  · rw [same _ (by omega) (by omega)]; exact at_.firstBlock
  · exact at_.laid.frame fun va lower upper => same va (by omega) (by omega)

/-- A free page of the allocator is mapped outside every arena. -/
theorem ArenaAt.free_outside (at_ : ArenaAt s a) {pa : Nat} (managed : PageAlloc.Managed s.pages pa)
    (free : s.pages.stateAt pa = .free) :
    pa + kernelVaOffset < a.base ∨ a.stop ≤ pa + kernelVaOffset := by
  by_contra inside
  have aligned := at_.aligned
  have page := managed.2.2
  have member : pa ∈ a.frames := by
    unfold Arena.stop at inside
    exact mem_pagesFrom.mpr ⟨(pa - (a.base - kernelVaOffset)) / 4096, by omega, by omega⟩
  rw [(at_.owned pa member).2] at free
  cases free

variable {before after : List Arena}

/-- Rewriting the blocks of one arena in place keeps the rest of the heap. -/
theorem Invariant.update {b : Arena} (inv : Invariant s (before ++ a :: after))
    (within : Within s t (a.base + 48) a.stop) (base : b.base = a.base)
    (count : b.pageCount = a.pageCount) (at_ : ArenaAt t b) :
    Invariant t (before ++ b :: after) := by
  have old := inv.each a (by simp)
  have apart : ∀ other ∈ before ++ after, Arena.Apart a other := by
    have pairs := List.pairwise_append.mp inv.disjoint
    intro other member
    rcases List.mem_append.mp member with left | right
    · exact (pairs.2.2 other left a (by simp)).symm
    · exact (List.pairwise_cons.mp pairs.2.1).1 other right
  have same : ∀ other ∈ before ++ after, ∀ va, other.base ≤ va → va < other.stop →
      t.load va = s.load va := by
    intro other member va lower upper
    have low := (inv.each other (by grind)).low
    refine within.load (by omega) ?_
    rcases apart other member with left | right <;> omega
  have stop : b.stop = a.stop := by unfold Arena.stop; rw [base, count]
  constructor
  · rw [within.pages]
    refine PageAlloc.writeMem_invariant inv.pages ?_
    intro pa managed free
    refine within.mem pa ?_
    have outside := old.free_outside managed free
    omega
  · have bases : (before ++ b :: after).map Arena.base = (before ++ a :: after).map Arena.base := by
      simp [base]
    rw [bases, within.heapPages]
    refine inv.chain.congr ?_
    intro x member
    obtain ⟨other, listed, rfl⟩ := List.mem_map.mp member
    have at_other := inv.each other listed
    have extent := at_other.extent
    have low := at_other.low
    unfold arenaLink
    by_cases here : other = a
    · rw [here, within.load (by rw [← here]; omega) (Or.inl (by omega))]
    · rw [same other (by grind) _ (by omega) (by omega)]
  · intro other member
    by_cases here : other = b
    · exact here ▸ at_
    · have listed : other ∈ before ++ after := by grind
      refine (inv.each other (by grind)).congr (same other listed) ?_
      intro pa frame
      rw [within.pages]
      exact (inv.each other (by grind)).owned pa frame
  · have pairs := List.pairwise_append.mp inv.disjoint
    obtain ⟨head, tail⟩ := List.pairwise_cons.mp pairs.2.1
    refine List.pairwise_append.mpr ⟨pairs.1, List.pairwise_cons.mpr ⟨?_, tail⟩, ?_⟩
    · intro other member
      have separate := head other member
      unfold Arena.Apart at separate ⊢
      rw [stop, base]
      exact separate
    · intro other member third isThird
      rcases List.mem_cons.mp isThird with rfl | later
      · have separate := pairs.2.2 other member a (by simp)
        unfold Arena.Apart at separate ⊢
        rw [stop, base]
        exact separate
      · exact pairs.2.2 other member third (by simp [later])

/-- An arena whose blocks have been rewritten below its header. -/
theorem Invariant.reblock {blocks : List Block} (inv : Invariant s (before ++ a :: after))
    (within : Within s t (a.base + 48) a.stop) (laid : Laid t.load 0 (a.base + 48) blocks 0)
    (tiled : Tiled 32 16 (4096 * a.pageCount - 48) blocks) :
    Invariant t (before ++ { a with blocks := blocks } :: after) := by
  have at_ := inv.each a (by simp)
  have low := at_.low
  have unchanged : ∀ va, a.base ≤ va → va < a.base + 48 → t.load va = s.load va :=
    fun va lower upper => within.load (by omega) (Or.inl upper)
  refine inv.update within rfl rfl ?_
  constructor
  case magic => exact (unchanged a.base (by omega) (by omega)).trans at_.magic
  case count => exact (unchanged (a.base + 8) (by omega) (by omega)).trans at_.count
  case usable => exact (unchanged (a.base + 24) (by omega) (by omega)).trans at_.usable
  case firstBlock => exact (unchanged (a.base + 32) (by omega) (by omega)).trans at_.firstBlock
  case laid => exact laid
  case tiled => exact tiled
  case low => exact low
  case high => exact at_.high
  case positive => exact at_.positive
  case owned =>
    intro pa frame
    rw [within.pages]
    exact at_.owned pa frame

end OsArmv8a.Heap
