import OsArmv8a.HeapRun
import OsArmv8a.PageAllocPolicy

/-! What `kmalloc` promises: the bytes it hands out are the caller's alone, and a request it cannot
serve leaves no trace. Both promises are read off the lists as they stand in memory. -/

set_option autoImplicit false

namespace OsArmv8a.Heap

open Tiling State Intrusive

section Geometry

variable {s : State} {arenas : List Arena}

/-- The headers of all blocks of all arenas. -/
def headers (arenas : List Arena) : List Nat :=
  arenas.flatMap fun a => starts (a.base + 48) a.blocks

variable {blocks : List Block}

theorem Laid.payload_le {m : Nat → Nat} : ∀ {prev addr next b : Nat},
    Laid m prev addr blocks next → b ∈ starts addr blocks →
    b + 32 + m b ≤ addr + span 32 blocks := by
  induction blocks with
  | nil => intro prev addr next b _ member; cases member
  | cons block rest ih =>
    intro prev addr next b laid member
    simp only [span_cons]
    rcases List.mem_cons.mp member with rfl | later
    · rw [laid.1.size]
      omega
    · have bound := ih laid.2 later
      omega

theorem Laid.apart {m : Nat → Nat} : ∀ {prev addr next : Nat},
    Laid m prev addr blocks next → (starts addr blocks).Pairwise fun b c => b + 32 + m b ≤ c := by
  induction blocks with
  | nil => intro prev addr next _; exact List.Pairwise.nil
  | cons block rest ih =>
    intro prev addr next laid
    refine List.Pairwise.cons ?_ (ih laid.2)
    intro c member
    have bound := (starts_bounds member).1
    rw [laid.1.size]
    omega

theorem ArenaAt.header_bounds {a : Arena} {b : Nat} (at_ : ArenaAt s a)
    (member : b ∈ starts (a.base + 48) a.blocks) :
    a.base + 48 ≤ b ∧ b + 32 + s.load b ≤ a.stop := by
  have extent := at_.extent
  have upper := at_.laid.payload_le member
  exact ⟨(starts_bounds member).1, by omega⟩

/-- The blocks headed at `b` and `c` share no byte. -/
def BlocksApart (m : Nat → Nat) (b c : Nat) : Prop := b + 32 + m b ≤ c ∨ c + 32 + m c ≤ b

instance (m : Nat → Nat) : Std.Symm (BlocksApart m) := ⟨fun _ _ => Or.symm⟩

instance : Std.Symm Arena.Apart := ⟨fun _ _ => Or.symm⟩

/-- Two blocks never overlap, headers included. -/
theorem headers_apart (inv : Invariant s arenas) {b c : Nat} (first : b ∈ headers arenas)
    (second : c ∈ headers arenas) (distinct : b ≠ c) :
    BlocksApart s.load b c := by
  obtain ⟨x, memberX, inX⟩ := List.mem_flatMap.mp first
  obtain ⟨y, memberY, inY⟩ := List.mem_flatMap.mp second
  have atX := inv.each x memberX
  have atY := inv.each y memberY
  by_cases same : x = y
  · subst same
    have pairs : (starts (x.base + 48) x.blocks).Pairwise (BlocksApart s.load) :=
      atX.laid.apart.imp Or.inl
    exact pairs.forall inX inY distinct
  · have apart := inv.disjoint.forall memberX memberY same
    have boundsX := atX.header_bounds inX
    have boundsY := atY.header_bounds inY
    rcases apart with left | right
    · exact Or.inl (by omega)
    · exact Or.inr (by omega)

theorem used_sublist : ∀ {addr : Nat},
    (used addr blocks).Sublist ((starts addr blocks).map (· + 32)) := by
  induction blocks with
  | nil => intro addr; exact List.Sublist.slnil
  | cons block rest ih =>
    intro addr
    simp only [used, starts, List.map_cons]
    split
    · exact ih.cons _
    · exact ih.cons_cons _

theorem mem_headers_of_used {ptr : Nat} (live : ptr ∈ usedAll arenas) :
    32 ≤ ptr ∧ ptr - 32 ∈ headers arenas := by
  obtain ⟨a, member, inside⟩ := List.mem_flatMap.mp live
  obtain ⟨b, start, rfl⟩ := List.mem_map.mp (used_sublist.subset inside)
  exact ⟨by omega, List.mem_flatMap.mpr ⟨a, member, by simpa using start⟩⟩

theorem headers_nodup (inv : Invariant s arenas) : (headers arenas).Nodup := by
  refine List.nodup_flatMap.mpr ⟨?_, ?_⟩
  · intro a member
    exact (inv.each a member).laid.apart.imp fun bound => by omega
  · refine inv.disjoint.imp_of_mem ?_
    intro x y memberX memberY apart b inX inY
    have boundsX := (inv.each x memberX).header_bounds inX
    have boundsY := (inv.each y memberY).header_bounds inY
    rcases apart with left | right <;> omega

theorem usedAll_sublist (arenas : List Arena) :
    (usedAll arenas).Sublist ((headers arenas).map (· + 32)) := by
  induction arenas with
  | nil => exact List.Sublist.slnil
  | cons a rest ih =>
    simp only [usedAll, headers, List.flatMap_cons, List.map_append] at ih ⊢
    exact used_sublist.append ih

/-- No pointer is handed out twice. -/
theorem usedAll_nodup (inv : Invariant s arenas) : (usedAll arenas).Nodup := by
  refine List.Nodup.sublist (usedAll_sublist arenas) ((headers_nodup inv).map ?_)
  intro b c same
  exact Nat.add_right_cancel same

end Geometry

section Contract

variable {s t : State} {arenas : List Arena} {live : List Nat} {ptr size : Nat}

/-- The bytes `[ptr, ptr + size)` lie in the payload area of one of the arenas at `bases`, away from
the payloads of `live` and from every header. -/
structure Delivered (t : State) (live : List Nat) (ptr size : Nat) (bases : List Nat) : Prop where
  listed : Chain (arenaLink t) (nullable t.heapPages) bases
  aligned : ptr % 16 = 0
  arena : ∃ base ∈ bases, base + 48 ≤ ptr ∧ ptr + size ≤ base + 4096 * t.load (base + 8)
  others : ∀ p ∈ live, ptr + size ≤ p ∨ p + t.load (p - 32) ≤ ptr
  arenaHeaders : ∀ base ∈ bases, ptr + size ≤ base ∨ base + 40 ≤ ptr
  blockHeaders : ∀ base ∈ bases, ∃ blocks, BlockStructure t base blocks ∧
    ∀ b ∈ blocks, ptr + size ≤ b ∨ b + 32 ≤ ptr

/-- `kmalloc` returns null or delivers `size` bytes. -/
def Delivers (σ : System) (size : Nat) : Prop :=
  ∃ result t, kmalloc σ.heap size = some (result, t) ∧
    ∀ ptr, result = some ptr → ∃ bases, Delivered t σ.live ptr size bases

theorem starts_aligned {blocks : List Block} : ∀ {addr b : Nat},
    (∀ block ∈ blocks, 16 ∣ block.size) → 16 ∣ addr → b ∈ starts addr blocks → 16 ∣ b := by
  induction blocks with
  | nil => intro addr b _ _ member; cases member
  | cons block rest ih =>
    intro addr b grained aligned member
    rcases List.mem_cons.mp member with rfl | later
    · exact aligned
    · have own := grained block List.mem_cons_self
      exact ih (fun other listed => grained other (List.mem_cons_of_mem _ listed))
        (by omega) later

/-- A block of `size` bytes or more is delivered with its payload. -/
theorem delivered_of_header (inv : Invariant t arenas) (member : ptr - 32 ∈ headers arenas)
    (above : 32 ≤ ptr) (room : size ≤ t.load (ptr - 32))
    (others : ∀ p ∈ live, p ∈ usedAll arenas ∧ p ≠ ptr) :
    Delivered t live ptr size (arenas.map Arena.base) := by
  obtain ⟨a, listed, inside⟩ := List.mem_flatMap.mp member
  have at_ := inv.each a listed
  have bounds := at_.header_bounds inside
  have stop : a.stop = a.base + 4096 * a.pageCount := rfl
  constructor
  case listed => exact inv.chain
  case aligned =>
    have page := at_.aligned
    have low := at_.low
    have offset := kernelVaOffset_top
    have start := starts_aligned at_.tiled.grained (by omega) inside
    omega
  case arena =>
    refine ⟨a.base, List.mem_map_of_mem listed, by omega, ?_⟩
    rw [at_.count]
    omega
  case others =>
    intro p isLive
    obtain ⟨used, distinct⟩ := others p isLive
    obtain ⟨aboveP, memberP⟩ := mem_headers_of_used used
    rcases headers_apart inv member memberP (by omega) with left | right
    · exact Or.inl (by omega)
    · exact Or.inr (by omega)
  case arenaHeaders =>
    intro base isBase
    obtain ⟨other, isArena, rfl⟩ := List.mem_map.mp isBase
    by_cases same : a = other
    · exact Or.inr (by rw [← same]; omega)
    · have extent := (inv.each other isArena).extent
      rcases inv.disjoint.forall listed isArena same with left | right
      · exact Or.inl (by omega)
      · exact Or.inr (by omega)
  case blockHeaders =>
    intro base isBase
    obtain ⟨other, isArena, rfl⟩ := List.mem_map.mp isBase
    refine ⟨_, (inv.each other isArena).blockStructure, ?_⟩
    intro b isBlock
    by_cases same : ptr - 32 = b
    · exact Or.inr (by omega)
    · have isHeader : b ∈ headers arenas := List.mem_flatMap.mpr ⟨other, isArena, isBlock⟩
      rcases headers_apart inv member isHeader same with left | right
      · exact Or.inl (by omega)
      · exact Or.inr (by omega)

theorem carve_head {block : Block} (room : size ≤ block.size) :
    ∃ head rest, carve 32 16 size block = head :: rest ∧ size ≤ head.size := by
  unfold carve
  split
  · exact ⟨_, _, rfl, room⟩
  · exact ⟨_, _, rfl, Nat.le_refl _⟩

variable {arenas' : List Arena}

/-- The block a scan takes holds what was asked for. -/
theorem Scanned.header (inv : Invariant s arenas) (aligned : 16 ∣ size)
    (scanned : Scanned s size arenas (some ptr) t arenas') :
    32 ≤ ptr ∧ ptr - 32 ∈ headers arenas' ∧ size ≤ t.load (ptr - 32) := by
  have after := (scanned.allocated inv aligned).1
  cases scanned with
  | @taken before after' a front back block shape free room =>
    obtain ⟨head, rest, carved, enough⟩ := carve_head room
    have at_ := after.each { a with blocks := front ++ carve 32 16 size block ++ back } (by simp)
    have blocks : front ++ carve 32 16 size block ++ back = front ++ head :: (rest ++ back) := by
      simp [carved]
    have laid := at_.laid
    simp only [blocks] at laid
    have header := (laid_append.mp laid).2.1
    refine ⟨by omega, ?_, ?_⟩
    · refine List.mem_flatMap.mpr ⟨{ a with blocks := _ }, List.mem_append_right before
        List.mem_cons_self, ?_⟩
      simp only [blocks, Nat.add_sub_cancel, starts_append]
      exact List.mem_append_right _ List.mem_cons_self
    · rw [Nat.add_sub_cancel, header.size]
      exact enough

theorem Requested.header (inv : Invariant s arenas)
    (requested : Requested s arenas size (some ptr) t arenas') :
    32 ≤ ptr ∧ ptr - 32 ∈ headers arenas' ∧ Word64.alignUp size 16 ≤ t.load (ptr - 32) := by
  cases requested with
  | found positive taken => exact taken.header inv (dvd_alignUp size)
  | grown positive full acquired added inv' scanned => exact scanned.header inv' (dvd_alignUp size)

/-- Rounding up to the alignment is exact below the last grain of the address space. -/
theorem le_alignUp (word : size ≤ 2 ^ 64 - 16) : size ≤ Word64.alignUp size 16 := by
  unfold Word64.alignUp
  rw [Word64.add_of_lt (by omega)]
  omega

/-- Above it the sum wraps around, and nothing is left of the size. -/
theorem alignUp_wraps (large : 2 ^ 64 - 16 < size) (word : size < 2 ^ 64) :
    Word64.alignUp size 16 = 0 := by
  unfold Word64.alignUp Word64.add
  omega

theorem Sound.delivers {σ : System} (sound : Sound σ) (small : size ≤ 2 ^ 64 - 16) :
    Delivers σ size := by
  obtain ⟨arenas, inv, perm⟩ := sound
  obtain ⟨result, t, arenas', call, requested⟩ := kmalloc_requested inv size
  refine ⟨result, t, call, ?_⟩
  rintro ptr rfl
  obtain ⟨after, handed⟩ := requested.allocated inv
  obtain ⟨above, member, room⟩ := requested.header inv
  refine ⟨_, delivered_of_header after member above (Nat.le_trans (le_alignUp small) room) ?_⟩
  intro p live
  have old := perm.mem_iff.mp live
  refine ⟨handed.mem_iff.mpr (List.mem_cons_of_mem _ old), ?_⟩
  rintro rfl
  exact (List.nodup_cons.mp (handed.nodup_iff.mp (usedAll_nodup after))).1 old

/-- No arena reaches far enough for a size next to 2^64. -/
theorem Invariant.not_delivered {bases : List Nat} (inv : Invariant t arenas)
    (large : 2 ^ 64 - 16 < size) : ¬ Delivered t live ptr size bases := by
  intro delivered
  obtain ⟨base, member, above, below⟩ := delivered.arena
  rw [delivered.listed.unique inv.chain] at member
  obtain ⟨a, listed, rfl⟩ := List.mem_map.mp member
  have at_ := inv.each a listed
  have low := at_.low
  have high := at_.high
  rw [at_.count] at below
  unfold Arena.stop at high
  omega

end Contract

section Pressure

variable {s t : State} {arenas : List Arena} {size : Nat}

/-- Some arena has a free block, of whatever size. -/
def FreeBlock (s : State) : Prop :=
  ∃ bases, Chain (arenaLink s) (nullable s.heapPages) bases ∧ ∃ base ∈ bases,
    ∃ blocks, BlockStructure s base blocks ∧ ∃ b ∈ blocks, s.load (b + 8) ≠ 0

/-- The page allocator has a page left. -/
def FreePage (s : State) : Prop :=
  ∃ pa, PageAlloc.Managed s.pages pa ∧ s.pages.stateAt pa = .free

theorem freeBlock_iff (inv : Invariant s arenas) :
    FreeBlock s ↔ ∃ a ∈ arenas, ∃ block ∈ a.blocks, block.free = true := by
  constructor
  · rintro ⟨bases, chain, base, member, blocks, structured, b, listed, flag⟩
    rw [chain.unique inv.chain] at member
    obtain ⟨a, isArena, rfl⟩ := List.mem_map.mp member
    have at_ := inv.each a isArena
    rw [structured.listed.unique at_.blockStructure.listed] at listed
    have value : s.load (b + 8) ∈ a.blocks.map fun block => if block.free = true then 1 else 0 :=
      at_.laid.flags ▸ List.mem_map_of_mem listed
    obtain ⟨block, isBlock, same⟩ := List.mem_map.mp value
    refine ⟨a, isArena, block, isBlock, ?_⟩
    by_contra taken
    rw [if_neg taken] at same
    exact flag same.symm
  · rintro ⟨a, isArena, block, isBlock, free⟩
    have at_ := inv.each a isArena
    have value : 1 ∈ (starts (a.base + 48) a.blocks).map fun b => s.load (b + 8) := by
      rw [at_.laid.flags]
      exact List.mem_map.mpr ⟨block, isBlock, if_pos free⟩
    obtain ⟨b, listed, flag⟩ := List.mem_map.mp value
    refine ⟨_, inv.chain, a.base, List.mem_map_of_mem isArena, _, at_.blockStructure, b, listed, ?_⟩
    rw [flag]
    exact Nat.one_ne_zero

theorem short_zero_iff (inv : Invariant s arenas) :
    (∀ a ∈ arenas, a.Short 0) ↔ ¬ FreeBlock s := by
  rw [freeBlock_iff inv]
  constructor
  · rintro full ⟨a, isArena, block, isBlock, free⟩
    exact Nat.not_lt_zero _ (full a isArena block isBlock free)
  · intro none a isArena block isBlock free
    exact absurd ⟨a, isArena, block, isBlock, free⟩ none

/-- One page can be had exactly when one is left. -/
theorem pageAllocContiguous_one (inv : PageAlloc.Invariant s.pages) :
    (∃ rawPa pages, PageAlloc.pageAllocContiguous s.pages 1 = (some rawPa, pages)) ↔ FreePage s := by
  constructor
  · rintro ⟨rawPa, pages, taken⟩
    have run := (PageAlloc.pageAllocContiguous_firstFit inv taken).run
    have member : rawPa ∈ pagesFrom rawPa 1 := mem_pagesFrom.mpr ⟨0, by omega, by omega⟩
    exact ⟨rawPa, run.managed rawPa member, run.free rawPa member⟩
  · rintro ⟨pa, managed, free⟩
    have only : ∀ other ∈ pagesFrom pa 1, other = pa := by
      intro other member
      obtain ⟨offset, small, rfl⟩ := mem_pagesFrom.mp member
      omega
    have run : PageAlloc.FreeRun s.pages pa 1 :=
      ⟨Nat.one_pos, fun other member => only other member ▸ managed,
        fun other member => only other member ▸ free⟩
    obtain ⟨found, pages, taken, _⟩ := PageAlloc.pageAllocContiguous_complete inv run
    exact ⟨found, pages, taken⟩

theorem pagesForSize_zero : pagesForSize 0 = 1 := by
  simp [pagesForSize, Word64.alignUp, Word64.add]

/-- A size that has been rounded to nothing is refused only when nothing at all is free. -/
theorem Requested.wrapped {arenas' : List Arena} {result : Option Nat} (inv : Invariant s arenas)
    (large : 2 ^ 64 - 16 < size) (word : size < 2 ^ 64)
    (requested : Requested s arenas size result t arenas') :
    result = none ↔ ¬ FreeBlock s ∧ ¬ FreePage s := by
  have zero := alignUp_wraps large word
  cases requested with
  | nothing zero => omega
  | found positive taken =>
    refine iff_of_false nofun ?_
    rintro ⟨none, -⟩
    cases taken with
    | @taken before after a front back block shape free room =>
      have member : block ∈ a.blocks := by simp [shape]
      exact none ((freeBlock_iff inv).mpr ⟨a, by simp, block, member, free⟩)
  | refused positive full failed =>
    rw [zero, pagesForSize_zero] at failed
    rw [zero] at full
    refine iff_of_true rfl ⟨(short_zero_iff inv).mp full, ?_⟩
    intro left
    obtain ⟨rawPa, pages, taken⟩ := (pageAllocContiguous_one inv.pages).mpr left
    rw [failed] at taken
    cases taken
  | grown positive full acquired added inv' scanned =>
    rw [zero, pagesForSize_zero] at acquired
    rw [zero] at scanned
    refine iff_of_false ?_ fun none => none.2 ((pageAllocContiguous_one inv.pages).mp ⟨_, _, acquired⟩)
    rintro rfl
    have short := scanned.of_none.2.2 _ List.mem_cons_self
    exact Nat.not_lt_zero _ (short _ List.mem_cons_self rfl)

end Pressure

/-- `kmalloc` gives what was asked unless the size is rounded up past the top of the address space
while a block or a page is left to be handed out for it. -/
theorem kmalloc_delivers {σ : System} {size : Nat}
    (reached : Transition.Reachable Started step Transition.always σ) (word : size < 2 ^ 64) :
    Delivers σ size ↔ size ≤ 2 ^ 64 - 16 ∨ ¬ FreeBlock σ.heap ∧ ¬ FreePage σ.heap := by
  have sound := reachable_sound reached
  by_cases small : size ≤ 2 ^ 64 - 16
  · exact iff_of_true (sound.delivers small) (Or.inl small)
  have large := Nat.lt_of_not_le small
  obtain ⟨arenas, inv, perm⟩ := sound
  obtain ⟨result, t, arenas', call, requested⟩ := kmalloc_requested inv size
  rw [or_iff_right small, ← requested.wrapped inv large word]
  constructor
  · rintro ⟨result', t', call', delivers⟩
    cases call.symm.trans call'
    cases result with
    | none => rfl
    | some ptr =>
      obtain ⟨bases, delivered⟩ := delivers ptr rfl
      exact absurd delivered (Invariant.not_delivered (requested.allocated inv).1 large)
  · rintro rfl
    exact ⟨none, t, call, nofun⟩

/-- A machine with four pages behind the kernel, the first of them the heap's. -/
def smallSystem : System :=
  { heap := init (PageAlloc.init ⟨0x47ffc000, by decide⟩ (fun _ => 0) true), live := [] }

theorem smallSystem_started : Started smallSystem := ⟨_, _, _, _, .start rfl, rfl⟩

/-- A request that splits the first arena and one that needs a second. -/
theorem kmalloc_delivers_twice :
    ∃ σ, Transition.run step smallSystem [.kmalloc 24] = some σ ∧
      σ.live = [kernelVaOffset + 0x47ffc050] ∧ Delivers σ 5000 := by
  refine Transition.ends_imp (Q := fun σ => σ.live = [kernelVaOffset + 0x47ffc050])
    (by decide +kernel) ?_
  intro σ ran live
  refine ⟨live, (kmalloc_delivers ?_ (by decide)).mpr (Or.inl (by decide))⟩
  exact .of_ran smallSystem_started ran

/-- The largest size of all is answered with a block of no bytes. -/
theorem kmalloc_delivers_nothing :
    (∃ t, kmalloc smallSystem.heap (2 ^ 64 - 1) = some (some (kernelVaOffset + 0x47ffc050), t) ∧
      t.load (kernelVaOffset + 0x47ffc050 - 32) = 0) ∧ ¬ Delivers smallSystem (2 ^ 64 - 1) := by
  obtain ⟨⟨_, t⟩, call, rfl, size⟩ : ∃ answer,
      kmalloc smallSystem.heap (2 ^ 64 - 1) = some answer ∧
      answer.1 = some (kernelVaOffset + 0x47ffc050) ∧
      answer.2.load (kernelVaOffset + 0x47ffc050 - 32) = 0 := by
    decide +kernel
  refine ⟨⟨t, call, size⟩, ?_⟩
  rintro ⟨result', t', call', delivers⟩
  cases call.symm.trans call'
  obtain ⟨bases, delivered⟩ := delivers _ rfl
  obtain ⟨arenas, inv, -⟩ := started_sound smallSystem_started
  obtain ⟨result', t', arenas', call', requested⟩ := kmalloc_requested inv (2 ^ 64 - 1)
  cases call.symm.trans call'
  exact Invariant.not_delivered (requested.allocated inv).1 (by decide) delivered

section Failure

variable {s t : State} {arenas arenas' : List Arena} {size : Nat} {result : Option Nat}

/-- A request that is refused changes the counter of failures at most, and an arena that was added
for it holds what was asked. -/
def Traceless (s : State) (size : Nat) : Prop :=
  ∃ result t, kmalloc s size = some (result, t) ∧
    (result = none → ∃ failed, t = { s with failed := failed } ∧
      (failed = s.failed ∨ failed = Word64.add s.failed 1)) ∧
    (t.heapPages ≠ s.heapPages → size ≤ t.load (t.heapPages + 24))

theorem splitBlock_heapPages (s : State) (block size : Nat) :
    (splitBlock s block size).heapPages = s.heapPages := by
  unfold splitBlock
  split
  · rfl
  · dsimp only
    split <;> rfl

/-- A scan cuts blocks, never arenas. -/
theorem Scanned.extents (scanned : Scanned s size arenas result t arenas') :
    t.heapPages = s.heapPages ∧ arenas'.map (fun a => (a.base, a.pageCount)) =
      arenas.map fun a => (a.base, a.pageCount) := by
  cases scanned with
  | taken shape free room => exact ⟨splitBlock_heapPages _ _ _, by simp⟩
  | short full => exact ⟨rfl, rfl⟩

theorem Invariant.head_fresh {fresh : Arena} (inv : Invariant s arenas)
    (after : Invariant t (fresh :: arenas)) : fresh.base ≠ s.heapPages := by
  intro same
  have head := inv.chain.head_eq
  rw [← same] at head
  have low := (after.each fresh List.mem_cons_self).low
  rw [nullable, if_neg (by omega)] at head
  have distinct := after.chain.nodup
  rw [List.map_cons, List.nodup_cons] at distinct
  exact distinct.1 (List.mem_of_head? head.symm)

/-- The requests an arena is added for: nothing fits, and there are pages to be had. -/
def Grows (s : State) (arenas : List Arena) (size : Nat) : Prop :=
  size ≠ 0 ∧ (∀ a ∈ arenas, a.Short (Word64.alignUp size 16)) ∧
    ∃ rawPa pages, PageAlloc.pageAllocContiguous s.pages (pagesForSize (Word64.alignUp size 16)) =
      (some rawPa, pages)

/-- Without a new arena a refusal is counted and nothing else. -/
theorem Requested.stays (requested : Requested s arenas size result t arenas')
    (still : ¬ Grows s arenas size) :
    t.heapPages = s.heapPages ∧ (result = none → ∃ failed, t = { s with failed := failed } ∧
      (failed = s.failed ∨ failed = Word64.add s.failed 1)) := by
  cases requested with
  | nothing zero => exact ⟨rfl, fun _ => ⟨_, rfl, Or.inl rfl⟩⟩
  | found positive taken => exact ⟨taken.extents.1, nofun⟩
  | refused positive full failed => exact ⟨rfl, fun _ => ⟨_, rfl, Or.inr rfl⟩⟩
  | grown positive full acquired added inv' scanned =>
    exact absurd ⟨positive, full, _, _, acquired⟩ still

/-- A new arena stands at the head of the list, and serves the request if it is large enough. -/
theorem Requested.grows (inv : Invariant s arenas)
    (requested : Requested s arenas size result t arenas') (growing : Grows s arenas size) :
    t.heapPages ≠ s.heapPages ∧
      t.load (t.heapPages + 24) = 4096 * pagesForSize (Word64.alignUp size 16) - 80 ∧
      (result = none → 4096 * pagesForSize (Word64.alignUp size 16) - 80 < Word64.alignUp size 16) := by
  obtain ⟨positive, full, rawPa, pages, acquired⟩ := growing
  cases requested with
  | nothing zero => exact absurd zero positive
  | found positive taken =>
    cases taken with
    | @taken before after a front back block shape free room =>
      exact absurd room (Nat.not_le.mpr (full a (by simp) block (by simp [shape]) free))
  | refused positive full failed => cases acquired.symm.trans failed
  | grown positive full acquired added inv' scanned =>
    obtain ⟨same, extents⟩ := scanned.extents
    have after := (scanned.allocated inv' (dvd_alignUp size)).invariant
    cases arenas' with
    | nil => cases extents
    | cons first rest =>
      obtain ⟨here, -⟩ := List.cons.inj extents
      obtain ⟨base, count⟩ := Prod.mk.inj here
      have head := (nullable_eq_some after.chain.1).1
      refine ⟨?_, ?_, ?_⟩
      · rw [head, base]
        exact inv.head_fresh inv'
      · rw [head, (after.each first List.mem_cons_self).usable, count]
        rfl
      · rintro rfl
        exact scanned.of_none.2.2 _ List.mem_cons_self _ List.mem_cons_self rfl

/-- The pages for a size hold it with its headers, unless the count wraps to nothing. -/
theorem pagesForSize_enough {a : Nat} (aligned : 16 ∣ a) (small : a ≤ 2 ^ 64 - 80) :
    pagesForSize a = 0 ∨ a + 80 ≤ 4096 * pagesForSize a := by
  simp only [pagesForSize, Word64.alignUp, Word64.add]
  omega

/-- The last sizes but one grain wrap to a single page. -/
theorem pagesForSize_wraps {a : Nat} (aligned : 16 ∣ a) (large : 2 ^ 64 - 80 < a)
    (word : a < 2 ^ 64) : pagesForSize a = 1 := by
  simp only [pagesForSize, Word64.alignUp, Word64.add]
  omega

theorem Invariant.short_large (inv : Invariant s arenas) (large : 2 ^ 64 - 80 < size) :
    ∀ a ∈ arenas, a.Short size := by
  intro a member block listed _
  have at_ := inv.each a member
  obtain ⟨front, back, shape⟩ := List.append_of_mem listed
  have extent := at_.extent
  have low := at_.low
  have high := at_.high
  rw [shape, span_append, span_cons] at extent
  omega

/-- The last seventy-nine sizes of the address space, while there is a page to be wasted and, for
those that are rounded to nothing, no free block. -/
def Wasteful (s : State) (size : Nat) : Prop :=
  2 ^ 64 - 80 < size ∧ FreePage s ∧ (size ≤ 2 ^ 64 - 16 ∨ ¬ FreeBlock s)

theorem wasteful_iff (inv : Invariant s arenas) (word : size < 2 ^ 64) :
    Wasteful s size ↔ Grows s arenas size ∧
      4096 * pagesForSize (Word64.alignUp size 16) - 80 < size := by
  have grain := dvd_alignUp size
  by_cases small : size ≤ 2 ^ 64 - 80
  · refine iff_of_false (fun wasteful => absurd wasteful.1 (by omega)) ?_
    rintro ⟨⟨-, -, rawPa, pages, acquired⟩, tight⟩
    have enough := le_alignUp (show size ≤ 2 ^ 64 - 16 by omega)
    have bound : Word64.alignUp size 16 ≤ 2 ^ 64 - 80 := by
      unfold Word64.alignUp
      rw [Word64.add_of_lt (by omega)]
      omega
    have positive := PageAlloc.pageAllocContiguous_positive acquired
    rcases pagesForSize_enough grain bound with none | room <;> omega
  have one : pagesForSize (Word64.alignUp size 16) = 1 := by
    by_cases wraps : 2 ^ 64 - 16 < size
    · rw [alignUp_wraps wraps word, pagesForSize_zero]
    · have enough := le_alignUp (Nat.le_of_not_lt wraps)
      have bound : Word64.alignUp size 16 < 2 ^ 64 := by
        unfold Word64.alignUp
        rw [Word64.add_of_lt (by omega)]
        omega
      exact pagesForSize_wraps grain (by omega) bound
  have full : (∀ a ∈ arenas, a.Short (Word64.alignUp size 16)) ↔
      size ≤ 2 ^ 64 - 16 ∨ ¬ FreeBlock s := by
    by_cases wraps : 2 ^ 64 - 16 < size
    · rw [alignUp_wraps wraps word, short_zero_iff inv, or_iff_right (by omega)]
    · have enough := le_alignUp (Nat.le_of_not_lt wraps)
      exact iff_of_true (inv.short_large (by omega)) (Or.inl (by omega))
  unfold Wasteful Grows
  rw [one, full, pageAllocContiguous_one inv.pages]
  constructor
  · rintro ⟨large, page, kind⟩
    exact ⟨⟨by omega, kind, page⟩, by omega⟩
  · rintro ⟨⟨-, kind, page⟩, -⟩
    exact ⟨by omega, page, kind⟩

end Failure

/-- A failed `kmalloc` changes nothing, and no arena is added in vain, unless the request is
wasteful. -/
theorem kmalloc_traceless {σ : System} {size : Nat}
    (reached : Transition.Reachable Started step Transition.always σ) (word : size < 2 ^ 64) :
    Traceless σ.heap size ↔ ¬ Wasteful σ.heap size := by
  obtain ⟨arenas, inv, perm⟩ := reachable_sound reached
  obtain ⟨result, t, arenas', call, requested⟩ := kmalloc_requested inv size
  rw [wasteful_iff inv word]
  constructor
  · rintro ⟨result', t', call', clean, room⟩ ⟨growing, tight⟩
    cases call.symm.trans call'
    obtain ⟨moved, usable, -⟩ := requested.grows inv growing
    omega
  · intro frugal
    refine ⟨result, t, call, ?_⟩
    by_cases growing : Grows σ.heap arenas size
    · obtain ⟨moved, usable, short⟩ := requested.grows inv growing
      have room : size ≤ 4096 * pagesForSize (Word64.alignUp size 16) - 80 :=
        Nat.le_of_not_lt fun tight => frugal ⟨growing, tight⟩
      refine ⟨?_, fun _ => usable ▸ room⟩
      intro refused
      have tight := short refused
      generalize pagesForSize (Word64.alignUp size 16) = count at room tight
      unfold Word64.alignUp Word64.add at tight
      omega
    · obtain ⟨same, clean⟩ := requested.stays growing
      exact ⟨clean, fun moved => absurd same moved⟩

/-- A request for more memory than there is is refused without a trace. -/
theorem kmalloc_traceless_huge :
    ∃ σ, Transition.run step smallSystem [.kmalloc 24, .pages .alloc] = some σ ∧
      Traceless σ.heap (2 ^ 32) := by
  refine Transition.ends_imp (Q := fun _ => True) (by decide +kernel) fun σ ran _ => ?_
  refine (kmalloc_traceless (.of_ran smallSystem_started ran) (by decide)).mpr ?_
  rintro ⟨large, -⟩
  omega

/-- The pages for 2^64 - 64 bytes wrap to one: null is returned, and the heap has grown. -/
theorem kmalloc_traceless_wasted :
    (∃ t, kmalloc smallSystem.heap (2 ^ 64 - 64) = some (none, t) ∧
      t.heapPages = kernelVaOffset + 0x47ffd000 ∧ t.pagesUsed = 2) ∧
      ¬ Traceless smallSystem.heap (2 ^ 64 - 64) := by
  have before : smallSystem.heap.heapPages = kernelVaOffset + 0x47ffc000 := by decide +kernel
  obtain ⟨⟨_, t⟩, call, rfl, head, used⟩ : ∃ answer,
      kmalloc smallSystem.heap (2 ^ 64 - 64) = some answer ∧ answer.1 = none ∧
      answer.2.heapPages = kernelVaOffset + 0x47ffd000 ∧ answer.2.pagesUsed = 2 := by
    decide +kernel
  refine ⟨⟨t, call, head, used⟩, ?_⟩
  rintro ⟨result', t', call', clean, -⟩
  cases call.symm.trans call'
  obtain ⟨failed, same, -⟩ := clean rfl
  have kept := congrArg State.heapPages same
  dsimp only at kept head
  omega

end OsArmv8a.Heap
