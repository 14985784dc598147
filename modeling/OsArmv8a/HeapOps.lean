import OsArmv8a.HeapInvariant

set_option autoImplicit false

namespace OsArmv8a.Heap

open Tiling State Intrusive

/-- The pointers that are allocated in some arena. -/
def usedAll (arenas : List Arena) : List Nat := arenas.flatMap fun a => used (a.base + 48) a.blocks

theorem length_le_span (blocks : List Block) : 32 * blocks.length ≤ span 32 blocks := by
  induction blocks with
  | nil => exact Nat.zero_le _
  | cons block rest ih =>
    simp only [List.length_cons, span_cons]
    omega

variable {s : State} {a : Arena}

theorem ArenaAt.blocks_lt (at_ : ArenaAt s a) : a.blocks.length < loopFuel := by
  have bound := length_le_span a.blocks
  have extent := at_.extent
  have low := at_.low
  have high := at_.high
  unfold loopFuel
  omega

theorem ArenaAt.blocks_ne_nil (at_ : ArenaAt s a) : a.blocks ≠ [] := by
  intro empty
  have exact := at_.tiled.exact
  have positive := at_.positive
  rw [empty, span_nil] at exact
  omega

/-- The scan ends and finds the first block that fits, if there is one. -/
theorem firstFit_spec (size : Nat) (blocks : List Block) :
    ∀ {prev addr fuel : Nat}, addr ≠ 0 → Laid s.load prev addr blocks 0 → blocks.length < fuel →
    ∃ found, firstFit s size fuel (if blocks = [] then 0 else addr) = some found ∧
      (found = none ∧ (∀ block ∈ blocks, block.free = true → block.size < size) ∨
        ∃ front block back, blocks = front ++ block :: back ∧ block.free = true ∧
          size ≤ block.size ∧ found = some (addr + span 32 front)) := by
  induction blocks with
  | nil =>
    intro prev addr fuel _ _ enough
    obtain ⟨fuel, rfl⟩ := Nat.exists_eq_succ_of_ne_zero (Nat.ne_of_gt enough)
    exact ⟨none, rfl, Or.inl ⟨rfl, by simp⟩⟩
  | cons block rest ih =>
    intro prev addr fuel positive laid enough
    obtain ⟨fuel, rfl⟩ := Nat.exists_eq_succ_of_ne_zero
      (Nat.ne_of_gt (Nat.lt_of_le_of_lt (Nat.zero_le _) enough))
    obtain ⟨header, tail⟩ := laid
    simp only [firstFit, reduceCtorEq, if_false, if_neg positive]
    rw [header.free, header.size, header.next]
    by_cases fits : block.free = true ∧ size ≤ block.size
    · refine ⟨some addr, ?_, Or.inr ⟨[], block, rest, rfl, fits.1, fits.2, rfl⟩⟩
      simp [fits.1, fits.2]
    · obtain ⟨found, search, result⟩ := ih
        (show addr + (32 + block.size) ≠ 0 by omega) tail (Nat.lt_of_succ_lt_succ enough)
      refine ⟨found, ?_, ?_⟩
      · rw [if_neg, search]
        rintro ⟨flag, room⟩
        split at flag
        · rename_i free
          exact fits ⟨free, room⟩
        · exact flag rfl
      · rcases result with ⟨rfl, none⟩ | ⟨front, hit, back, rfl, free, room, rfl⟩
        · refine Or.inl ⟨rfl, ?_⟩
          intro other member isFree
          rcases List.mem_cons.mp member with rfl | later
          · exact Nat.lt_of_not_le fun room => fits ⟨isFree, room⟩
          · exact none other later isFree
        · refine Or.inr ⟨block :: front, hit, back, rfl, free, room, ?_⟩
          simp only [span_cons]
          congr 1
          omega

variable {before after : List Arena} {front back : List Block} {block : Block} {size : Nat}

/-- Taking a block rewrites its arena as `carve` does. -/
theorem takeBlock_arena (inv : Invariant s (before ++ a :: after))
    (shape : a.blocks = front ++ block :: back) (free : block.free = true)
    (fits : size ≤ block.size) (aligned : 16 ∣ size) :
    Invariant (takeBlock s (a.base + 48 + span 32 front) size)
      (before ++ { a with blocks := front ++ carve 32 16 size block ++ back } :: after) := by
  have at_ := inv.each a (by simp)
  have extent := at_.extent
  have low := at_.low
  have high := at_.high
  have laid := at_.laid
  have tiled := at_.tiled
  rw [shape] at laid tiled extent
  rw [span_append] at extent
  obtain ⟨within, taken⟩ := takeBlock_laid (by omega) (by omega) (laid_append.mp laid).2 fits
  refine inv.reblock (within.mono (by omega) (by omega)) ?_ (tiled.carve free aligned (by decide))
  rw [List.append_assoc]
  refine laid.replace ⟨by simp, by simp [carve_ne_nil]⟩ ?_ taken
  intro va lower upper
  exact within.load (by omega) (Or.inl (by omega))

theorem used_carve {addr : Nat} (free : block.free = true) :
    used addr (carve 32 16 size block) = (addr + 32) :: used addr [block] := by
  unfold carve
  split <;> simp [used, free]

/-- The payload handed out is the only pointer that becomes used. -/
theorem usedAll_take (shape : a.blocks = front ++ block :: back) (free : block.free = true) :
    (usedAll (before ++ { a with blocks := front ++ carve 32 16 size block ++ back } :: after)).Perm
      ((a.base + 48 + span 32 front + 32) :: usedAll (before ++ a :: after)) := by
  have span : span 32 (carve 32 16 size block) = 32 + block.size := span_carve
  simp only [usedAll, List.flatMap_append, List.flatMap_cons, shape, List.append_assoc,
    used_append, used_carve free, span]
  simp only [used, free]
  rw [← List.append_assoc, ← List.append_assoc _ (used (a.base + 48) front)]
  exact List.perm_middle

/-- What an allocation does to the heap: nothing, or one more pointer is in use. -/
def Allocated (arenas : List Arena) : Option Nat → State → List Arena → Prop
  | none, t, arenas' => Invariant t arenas' ∧ usedAll arenas' = usedAll arenas
  | some ptr, t, arenas' => Invariant t arenas' ∧ (usedAll arenas').Perm (ptr :: usedAll arenas)

variable {arenas arenas' : List Arena} {result : Option Nat} {t : State}

theorem Allocated.invariant (allocated : Allocated arenas result t arenas') :
    Invariant t arenas' := by
  cases result with
  | none => exact allocated.1
  | some ptr => exact allocated.1

/-- No free block of the arena holds `size` bytes. -/
def Arena.Short (size : Nat) (a : Arena) : Prop :=
  ∀ block ∈ a.blocks, block.free = true → block.size < size

/-- The outcome of a first-fit scan: the first free block that holds `size` bytes is taken, or
there is none and nothing has changed. -/
inductive Scanned (s : State) (size : Nat) : List Arena → Option Nat → State → List Arena → Prop
  | taken {before after : List Arena} {a : Arena} {front back : List Block} {block : Block}
      (shape : a.blocks = front ++ block :: back) (free : block.free = true)
      (room : size ≤ block.size) :
      Scanned s size (before ++ a :: after) (some (a.base + 48 + span 32 front + 32))
        (takeBlock s (a.base + 48 + span 32 front) size)
        (before ++ { a with blocks := front ++ carve 32 16 size block ++ back } :: after)
  | short {arenas : List Arena} (full : ∀ a ∈ arenas, a.Short size) :
      Scanned s size arenas none s arenas

theorem Scanned.allocated (inv : Invariant s arenas) (aligned : 16 ∣ size)
    (scanned : Scanned s size arenas result t arenas') : Allocated arenas result t arenas' := by
  cases scanned with
  | taken shape free room =>
    exact ⟨takeBlock_arena inv shape free room aligned, usedAll_take shape free⟩
  | short full => exact ⟨inv, rfl⟩

theorem Scanned.of_none (scanned : Scanned s size arenas none t arenas') :
    t = s ∧ arenas' = arenas ∧ ∀ a ∈ arenas, a.Short size := by
  cases scanned with
  | short full => exact ⟨rfl, rfl, full⟩

theorem allocateFromArena_spec (before : List Arena) (size : Nat)
    (inv : Invariant s (before ++ a :: after)) :
    (allocateFromArena s loopFuel a.base size = some (none, s) ∧ a.Short size) ∨
      ∃ ptr t arenas, allocateFromArena s loopFuel a.base size = some (some ptr, t) ∧
        Scanned s size (before ++ a :: after) (some ptr) t arenas := by
  have at_ := inv.each a (by simp)
  obtain ⟨found, search, outcome⟩ :=
    firstFit_spec size a.blocks (show a.base + 48 ≠ 0 by omega) at_.laid at_.blocks_lt
  rw [if_neg at_.blocks_ne_nil] at search
  unfold allocateFromArena
  rw [at_.firstBlock, search]
  rcases outcome with ⟨rfl, short⟩ | ⟨front, block, back, shape, free, fits, rfl⟩
  · exact Or.inl ⟨rfl, short⟩
  · exact Or.inr ⟨_, _, _, rfl, .taken shape free fits⟩

theorem nullable_eq_some {page base : Nat} (linked : nullable page = some base) :
    page = base ∧ page ≠ 0 := by
  unfold nullable at linked
  split at linked
  · cases linked
  · rename_i positive
    exact ⟨Option.some.inj linked, positive⟩

/-- The loop over the arenas of `kmalloc` ends with a scan of all of them. -/
theorem searchArenas_spec (size : Nat) (rest : List Arena) :
    ∀ (before : List Arena) {fuel page : Nat}, Invariant s (before ++ rest) →
    (∀ a ∈ before, a.Short size) →
    Chain (arenaLink s) (nullable page) (rest.map Arena.base) → rest.length < fuel →
    ∃ result t arenas, searchArenas s size loopFuel fuel page = some (result, t) ∧
      Scanned s size (before ++ rest) result t arenas := by
  induction rest with
  | nil =>
    intro before fuel page inv full chain enough
    obtain ⟨fuel, rfl⟩ := Nat.exists_eq_succ_of_ne_zero (Nat.ne_of_gt enough)
    have null : page = 0 := by
      by_contra positive
      simp [nullable, positive] at chain
    exact ⟨none, s, _, by simp [searchArenas, null], .short (by simpa using full)⟩
  | cons a rest ih =>
    intro before fuel page inv full chain enough
    obtain ⟨fuel, rfl⟩ := Nat.exists_eq_succ_of_ne_zero
      (Nat.ne_of_gt (Nat.lt_of_le_of_lt (Nat.zero_le _) enough))
    have here := nullable_eq_some chain.1
    simp only [searchArenas, if_neg here.2]
    rw [here.1]
    rcases allocateFromArena_spec before size inv with ⟨call, short⟩ | ⟨ptr, t, arenas, call, taken⟩
    · have shape : before ++ a :: rest = (before ++ [a]) ++ rest := by simp
      rw [call]
      rw [shape] at inv ⊢
      refine ih (before ++ [a]) inv ?_ chain.2 (Nat.lt_of_succ_lt_succ enough)
      intro other member
      rcases List.mem_append.mp member with early | last
      · exact full other early
      · exact List.mem_singleton.mp last ▸ short
    · rw [call]
      exact ⟨some ptr, t, arenas, rfl, taken⟩

/-- The arenas share no frame of RAM, so their pages add up to no more than there are. -/
theorem Invariant.pages_le (inv : Invariant s arenas) :
    (arenas.map Arena.pageCount).sum ≤ 32768 := by
  have window := inv.pages.core.window
  have distinct : (arenas.flatMap Arena.frames).Nodup := by
    refine List.nodup_flatMap.mpr ⟨fun a _ => nodup_pagesFrom _ _, ?_⟩
    refine inv.disjoint.imp_of_mem ?_
    intro a b memberA memberB apart pa inA inB
    have lowA := (inv.each a memberA).low
    have lowB := (inv.each b memberB).low
    obtain ⟨i, boundA, rfl⟩ := mem_pagesFrom.mp inA
    obtain ⟨j, boundB, same⟩ := mem_pagesFrom.mp inB
    unfold Arena.Apart Arena.stop at apart
    omega
  have managed : arenas.flatMap Arena.frames ⊆ s.pages.managedPages := by
    intro pa member
    obtain ⟨a, listed, frame⟩ := List.mem_flatMap.mp member
    exact window.mem_managedPages.mpr ((inv.each a listed).owned pa frame).1
  have bound := (List.subperm_of_subset distinct managed).length_le
  have lengths : (arenas.map fun a => a.frames.length) = arenas.map Arena.pageCount :=
    List.map_congr_left fun a _ => length_pagesFrom _ _
  rw [List.length_flatMap, lengths, PageAlloc.State.managedPages, length_pagesFrom] at bound
  have lower := window.lower
  have top := window.top
  omega

theorem Invariant.arenas_lt (inv : Invariant s arenas) : arenas.length < loopFuel := by
  have total := inv.pages_le
  have bound := List.length_le_sum_of_one_le (arenas.map Arena.pageCount) (by
    intro count member
    obtain ⟨a, listed, rfl⟩ := List.mem_map.mp member
    exact (inv.each a listed).positive)
  rw [List.length_map] at bound
  unfold loopFuel
  omega

/-- The counters are not part of the structure. -/
theorem Invariant.of_same (inv : Invariant s arenas) (pages : t.pages = s.pages)
    (head : t.heapPages = s.heapPages) : Invariant t arenas := by
  have load : t.load = s.load := by
    unfold State.load
    rw [pages]
  refine ⟨pages ▸ inv.pages, ?_, ?_, inv.disjoint⟩
  · rw [head]
    refine inv.chain.congr ?_
    intro base _
    unfold arenaLink
    rw [load]
  · intro a member
    have at_ := inv.each a member
    refine at_.congr (fun va _ _ => by rw [load]) ?_
    rw [pages]
    exact at_.owned

variable {pages : PageAlloc.State}

/-- A change of the page allocator that keeps the pages of the heap keeps the heap. -/
theorem Invariant.of_kept (inv : Invariant s arenas) (invPages : PageAlloc.Invariant pages)
    (kept : ∀ a ∈ arenas, ∀ pa ∈ a.frames, PageAlloc.Kept s.pages pages pa) :
    Invariant { s with pages := pages } arenas := by
  have same : ∀ a ∈ arenas, ∀ va, a.base ≤ va → va < a.stop →
      ({ s with pages := pages } : State).load va = s.load va := by
    intro a member va lower upper
    have low := (inv.each a member).low
    unfold Arena.stop at upper
    have frame := kept a member
      (a.base - kernelVaOffset + 4096 * ((va - a.base) / 4096))
      (mem_pagesFrom.mpr ⟨(va - a.base) / 4096, by omega, rfl⟩)
    unfold State.load
    rw [frame.contents (va - kernelVaOffset) (by omega) (by omega)]
  refine ⟨invPages, ?_, ?_, inv.disjoint⟩
  · refine inv.chain.congr ?_
    intro base member
    obtain ⟨a, listed, rfl⟩ := List.mem_map.mp member
    have extent := (inv.each a listed).extent
    unfold arenaLink
    rw [same a listed _ (by omega) (by omega)]
  · intro a member
    refine (inv.each a member).congr (same a member) ?_
    intro pa frame
    have page := kept a member pa frame
    exact ⟨page.managed, page.allocated⟩

/-- Two arenas that share no page do not overlap. -/
theorem Arena.apart_of_frames {b : Arena} (highA : kernelVaOffset ≤ a.base)
    (highB : kernelVaOffset ≤ b.base) (alignedA : (a.base - kernelVaOffset) % 4096 = 0)
    (alignedB : (b.base - kernelVaOffset) % 4096 = 0) (positiveA : 1 ≤ a.pageCount)
    (positiveB : 1 ≤ b.pageCount) (distinct : ∀ pa ∈ a.frames, pa ∉ b.frames) : a.Apart b := by
  by_contra overlap
  unfold Arena.Apart Arena.stop at overlap
  by_cases order : a.base ≤ b.base
  · refine distinct (b.base - kernelVaOffset) (mem_pagesFrom.mpr
      ⟨(b.base - a.base) / 4096, by omega, by omega⟩) (mem_pagesFrom.mpr ⟨0, by omega, by omega⟩)
  · refine distinct (a.base - kernelVaOffset) (mem_pagesFrom.mpr ⟨0, by omega, by omega⟩)
      (mem_pagesFrom.mpr ⟨(a.base - b.base) / 4096, by omega, by omega⟩)

theorem load_setHead (s : State) (head used free va : Nat) :
    ({ s with heapPages := head, pagesUsed := used, freeSpace := free } : State).load va =
      s.load va := rfl

variable {pageCount : Nat}

/-- The header words of a new arena. -/
theorem addArena_loads {rawPa : Nat}
    (found : PageAlloc.pageAllocContiguous s.pages pageCount = (some rawPa, pages))
    (low : 0x40000000 ≤ rawPa) (positive : 1 ≤ pageCount)
    (high : rawPa + 4096 * pageCount ≤ 0x48000000) (aligned : rawPa % 4096 = 0)
    (head : s.heapPages < 2 ^ 64) :
    ∃ t, addArena s pageCount = (some (rawPa + kernelVaOffset), t) ∧
      t.heapPages = rawPa + kernelVaOffset ∧
      t.pages = { pages with mem := t.pages.mem } ∧
      (∀ pa, pa < rawPa ∨ rawPa + 80 ≤ pa → t.pages.mem pa = pages.mem pa) ∧
      t.load (rawPa + kernelVaOffset) = pageMagic ∧
      t.load (rawPa + kernelVaOffset + 8) = pageCount ∧
      t.load (rawPa + kernelVaOffset + 16) = s.heapPages ∧
      t.load (rawPa + kernelVaOffset + 24) = 4096 * pageCount - 80 ∧
      t.load (rawPa + kernelVaOffset + 32) = rawPa + kernelVaOffset + 48 ∧
      t.load (rawPa + kernelVaOffset + 48) = 4096 * pageCount - 80 ∧
      t.load (rawPa + kernelVaOffset + 48 + 8) = 1 ∧
      t.load (rawPa + kernelVaOffset + 48 + 16) = 0 ∧
      t.load (rawPa + kernelVaOffset + 48 + 24) = 0 ∧
      t.pagesUsed = Word64.add s.pagesUsed pageCount ∧
      t.freeSpace = Word64.add s.freeSpace (4096 * pageCount - 80) ∧ t.usedSpace = s.usedSpace := by
  have space := kernelVaOffset_top
  have magic : pageMagic < 2 ^ 64 := by decide
  have start : Word64.alignUp (rawPa + kernelVaOffset + 40) 16 = rawPa + kernelVaOffset + 48 := by
    unfold Word64.alignUp
    rw [Word64.add_of_lt (by omega)]
    omega
  have total : Word64.mul 4096 pageCount = 4096 * pageCount := Word64.mul_of_lt (by omega)
  have gap : Word64.sub (rawPa + kernelVaOffset + 48) (rawPa + kernelVaOffset) = 48 := by
    rw [Word64.sub_of_le (by omega) (by omega)]
    omega
  have rest : Word64.sub (4096 * pageCount) 48 = 4096 * pageCount - 48 :=
    Word64.sub_of_le (by omega) (by omega)
  have usable : Word64.sub (4096 * pageCount - 48) 32 = 4096 * pageCount - 80 := by
    rw [Word64.sub_of_le (by omega) (by omega)]
    omega
  unfold addArena
  rw [found]
  simp only [start, total, gap, rest, usable]
  refine ⟨_, rfl, rfl, rfl, ?_, ?_, ?_, ?_, ?_, ?_, ?_, ?_, ?_, ?_, rfl, rfl, rfl⟩
  · intro pa outside
    simp (disch := omega) only [store_mem, Mem.set_other]
  all_goals
    simp (disch := omega) only [store_heapPages, load_store_same, load_store_other, load_setHead]

theorem Invariant.head_lt (inv : Invariant s arenas) : s.heapPages < 2 ^ 64 := by
  have space := kernelVaOffset_top
  have head := inv.chain.head_eq
  unfold nullable at head
  split at head
  · omega
  · cases arenas with
    | nil => cases head
    | cons a rest =>
      have base : s.heapPages = a.base := Option.some.inj head
      have at_ := inv.each a List.mem_cons_self
      have high := at_.high
      have extent := at_.extent
      omega

/-- The arena made of the pages from `rawPa` on, all of it one free block. -/
def freshArena (rawPa pageCount : Nat) : Arena :=
  { base := rawPa + kernelVaOffset
    pageCount := pageCount
    blocks := [{ size := 4096 * pageCount - 80, free := true }] }

theorem freshArena_frames (rawPa pageCount : Nat) :
    (freshArena rawPa pageCount).frames = pagesFrom rawPa pageCount := by
  unfold Arena.frames freshArena
  rw [Nat.add_sub_cancel]

theorem addArena_some (inv : Invariant s arenas) {rawPa : Nat}
    (found : PageAlloc.pageAllocContiguous s.pages pageCount = (some rawPa, pages)) :
    ∃ t, addArena s pageCount = (some (rawPa + kernelVaOffset), t) ∧
      Invariant t (freshArena rawPa pageCount :: arenas) ∧
      t.pagesUsed = Word64.add s.pagesUsed pageCount ∧
      t.freeSpace = Word64.add s.freeSpace (4096 * pageCount - 80) ∧ t.usedSpace = s.usedSpace := by
  obtain ⟨acquired, invPages⟩ := PageAlloc.pageAllocContiguous_spec inv.pages found
  have positive := PageAlloc.pageAllocContiguous_positive found
  obtain ⟨low, high, aligned⟩ := acquired.bounds inv.pages.core.window positive
  obtain ⟨t, call, head, samePages, frame, magic, count, next, usable, first, size, free, link,
    back, counters⟩ := addArena_loads found low positive high aligned inv.head_lt
  have base : (freshArena rawPa pageCount).base = rawPa + kernelVaOffset := rfl
  have moved : Invariant { s with pages := pages } arenas := by
    refine inv.of_kept invPages ?_
    intro a member pa owned
    obtain ⟨managed, allocated⟩ := (inv.each a member).owned pa owned
    exact acquired.kept managed allocated
  have apart : ∀ a ∈ arenas, (freshArena rawPa pageCount).Apart a := by
    intro a member
    have at_ := inv.each a member
    have lowA := at_.low
    refine Arena.apart_of_frames (by omega) (by omega) ?_ at_.aligned positive at_.positive ?_
    · rw [base, Nat.add_sub_cancel]
      exact aligned
    · rw [freshArena_frames]
      intro pa fresh owned
      have state := (at_.owned pa owned).2
      rw [acquired.wasFree pa fresh] at state
      cases state
  have stop : (freshArena rawPa pageCount).stop = rawPa + kernelVaOffset + 4096 * pageCount := rfl
  have same : ∀ a ∈ arenas, ∀ va, a.base ≤ va → va < a.stop →
      t.load va = ({ s with pages := pages } : State).load va := by
    intro a member va lower upper
    unfold State.load
    rw [frame]
    rcases apart a member with left | right <;> omega
  refine ⟨t, call, ⟨?_, ?_, ?_, ?_⟩, counters⟩
  · rw [samePages]
    refine PageAlloc.writeMem_invariant invPages ?_
    intro pa managed isFree
    refine frame pa ?_
    by_contra inside
    have page := managed.2.2
    have member : pa ∈ pagesFrom rawPa pageCount :=
      mem_pagesFrom.mpr ⟨0, by omega, by omega⟩
    rw [acquired.states pa (acquired.managed pa member), if_pos member] at isFree
    cases isFree
  · refine ⟨?_, ?_⟩
    · rw [head]
      exact if_neg (by omega)
    · have old : arenaLink t (freshArena rawPa pageCount).base = nullable s.heapPages := by
        unfold arenaLink
        rw [base, next]
      rw [old]
      refine moved.chain.congr ?_
      intro x member
      obtain ⟨a, listed, rfl⟩ := List.mem_map.mp member
      have extent := (inv.each a listed).extent
      unfold arenaLink
      rw [same a listed _ (by omega) (by omega)]
  · refine List.forall_mem_cons.mpr ⟨?_, ?_⟩
    · refine ⟨magic, count, usable, first, ?_, ?_, by omega, by omega, positive, ?_⟩
      · exact ⟨⟨size, free, link, back⟩, trivial⟩
      · refine ⟨?_, ?_, List.isChain_singleton _, ?_⟩
        · simp only [freshArena, span_cons, span_nil]
          omega
        · intro block member
          simp only [freshArena, List.mem_singleton] at member
          subst member
          change 16 ∣ 4096 * pageCount - 80
          omega
        · intro block member
          simp only [freshArena, List.getLast?_singleton, Option.mem_some_iff] at member
          subst member
          change 16 ≤ 4096 * pageCount - 80
          omega
      · rw [freshArena_frames, samePages]
        intro pa member
        refine ⟨(acquired.same.managed_iff pa).mpr (acquired.managed pa member), ?_⟩
        change pages.stateAt pa = .allocated
        rw [acquired.states pa (acquired.managed pa member), if_pos member]
    · intro a member
      refine (moved.each a member).congr (same a member) ?_
      rw [samePages]
      exact (moved.each a member).owned
  · exact List.pairwise_cons.mpr ⟨apart, inv.disjoint⟩

theorem addArena_none (inv : Invariant s arenas)
    (failed : PageAlloc.pageAllocContiguous s.pages pageCount = (none, pages)) :
    ∃ t, addArena s pageCount = (none, t) ∧ Invariant t arenas := by
  have same := PageAlloc.pageAllocContiguous_none failed
  refine ⟨{ s with pages := pages, failed := Word64.add s.failed 1 }, ?_, ?_⟩
  · unfold addArena
    rw [failed]
  · exact inv.of_same same rfl

theorem usedAll_fresh (rawPa pageCount : Nat) (arenas : List Arena) :
    usedAll (freshArena rawPa pageCount :: arenas) = usedAll arenas := rfl

theorem dvd_alignUp (size : Nat) : 16 ∣ Word64.alignUp size 16 := Nat.dvd_mul_left 16 _

/-- The ways a request can go. A new arena is tried once, and stays when it is too small. -/
inductive Requested (s : State) (arenas : List Arena) (size : Nat) :
    Option Nat → State → List Arena → Prop
  | nothing (zero : size = 0) : Requested s arenas size none s arenas
  | found {ptr : Nat} {t : State} {arenas' : List Arena} (positive : size ≠ 0)
      (taken : Scanned s (Word64.alignUp size 16) arenas (some ptr) t arenas') :
      Requested s arenas size (some ptr) t arenas'
  | refused (positive : size ≠ 0) (full : ∀ a ∈ arenas, a.Short (Word64.alignUp size 16))
      (failed : PageAlloc.pageAllocContiguous s.pages (pagesForSize (Word64.alignUp size 16)) =
        (none, s.pages)) :
      Requested s arenas size none { s with failed := Word64.add s.failed 1 } arenas
  | grown {rawPa : Nat} {pages : PageAlloc.State} {result : Option Nat} {u t : State}
      {arenas' : List Arena} (positive : size ≠ 0)
      (full : ∀ a ∈ arenas, a.Short (Word64.alignUp size 16))
      (acquired : PageAlloc.pageAllocContiguous s.pages (pagesForSize (Word64.alignUp size 16)) =
        (some rawPa, pages))
      (added : addArena s (pagesForSize (Word64.alignUp size 16)) =
        (some (rawPa + kernelVaOffset), u))
      (inv : Invariant u (freshArena rawPa (pagesForSize (Word64.alignUp size 16)) :: arenas))
      (scanned : Scanned u (Word64.alignUp size 16)
        (freshArena rawPa (pagesForSize (Word64.alignUp size 16)) :: arenas) result t arenas') :
      Requested s arenas size result t arenas'

theorem kmalloc_requested (inv : Invariant s arenas) (size : Nat) :
    ∃ result t arenas', kmalloc s size = some (result, t) ∧
      Requested s arenas size result t arenas' := by
  unfold kmalloc
  split
  · rename_i zero
    exact ⟨none, s, arenas, rfl, .nothing zero⟩
  rename_i positive
  obtain ⟨result, t, arenas', search, scanned⟩ :=
    searchArenas_spec (Word64.alignUp size 16) arenas [] inv (by simp) inv.chain inv.arenas_lt
  simp only [search, Option.bind_some]
  cases result with
  | some ptr => exact ⟨some ptr, t, arenas', rfl, .found positive scanned⟩
  | none =>
    obtain ⟨same, -, full⟩ := scanned.of_none
    subst same
    cases acquired : PageAlloc.pageAllocContiguous t.pages
        (pagesForSize (Word64.alignUp size 16)) with
    | mk found pages =>
      cases found with
      | none =>
        have same := PageAlloc.pageAllocContiguous_none acquired
        rw [same] at acquired
        refine ⟨none, _, arenas, ?_, .refused positive full acquired⟩
        simp only [addArena, acquired]
      | some rawPa =>
        obtain ⟨u, added, inv', -⟩ := addArena_some inv acquired
        simp only [added]
        rcases allocateFromArena_spec [] (Word64.alignUp size 16) inv' with
          ⟨call, short⟩ | ⟨ptr, t, arenas', call, taken⟩
        · refine ⟨none, u, _, call, .grown positive full acquired added inv' (.short ?_)⟩
          exact List.forall_mem_cons.mpr ⟨short, full⟩
        · exact ⟨some ptr, t, arenas', call, .grown positive full acquired added inv' taken⟩

theorem Requested.allocated (inv : Invariant s arenas)
    (requested : Requested s arenas size result t arenas') : Allocated arenas result t arenas' := by
  cases requested with
  | nothing zero => exact ⟨inv, rfl⟩
  | found positive taken => exact taken.allocated inv (dvd_alignUp size)
  | refused positive full failed => exact ⟨inv.of_same rfl rfl, rfl⟩
  | grown positive full acquired added inv' scanned =>
    have allocated := scanned.allocated inv' (dvd_alignUp size)
    cases result with
    | none => exact allocated
    | some ptr => exact allocated

/-- `kmalloc` returns for every size, and its result is the only new pointer in use. -/
theorem kmalloc_spec (inv : Invariant s arenas) (size : Nat) :
    ∃ result t arenas', kmalloc s size = some (result, t) ∧ Allocated arenas result t arenas' := by
  obtain ⟨result, t, arenas', call, requested⟩ := kmalloc_requested inv size
  exact ⟨result, t, arenas', call, requested.allocated inv⟩

theorem ArenaAt.end_eq (at_ : ArenaAt s a) :
    Word64.add a.base (Word64.mul 4096 (s.load (a.base + 8))) = a.stop := by
  have space := kernelVaOffset_top
  have high := at_.high
  have stop : a.stop = a.base + 4096 * a.pageCount := rfl
  rw [at_.count, Word64.mul_of_lt (by omega), Word64.add_of_lt (by omega)]
  rfl

/-- A pointer inside an arena is traced back to it. -/
theorem pageFromPointer_spec {ptr : Nat} (rest : List Arena) :
    ∀ {fuel page : Nat}, (∀ b ∈ rest, ArenaAt s b) → rest.Pairwise Arena.Apart → a ∈ rest →
    a.base ≤ ptr → ptr < a.stop → Chain (arenaLink s) (nullable page) (rest.map Arena.base) →
    rest.length < fuel → pageFromPointer s ptr fuel page = some (some a.base) := by
  induction rest with
  | nil => intro fuel page _ _ member; cases member
  | cons b rest ih =>
    intro fuel page each disjoint member lower upper chain enough
    obtain ⟨fuel, rfl⟩ := Nat.exists_eq_succ_of_ne_zero
      (Nat.ne_of_gt (Nat.lt_of_le_of_lt (Nat.zero_le _) enough))
    obtain ⟨here, positive⟩ := nullable_eq_some chain.1
    have at_ := each b List.mem_cons_self
    simp only [pageFromPointer, if_neg positive]
    rw [here, at_.end_eq]
    by_cases inside : b.base ≤ ptr ∧ ptr < b.stop
    · rw [if_pos inside, if_pos at_.magic]
      rcases List.mem_cons.mp member with rfl | later
      · rfl
      · have apart := (List.pairwise_cons.mp disjoint).1 a later
        unfold Arena.Apart at apart
        omega
    · rw [if_neg inside]
      refine ih (fun c later => each c (List.mem_cons_of_mem b later))
        (List.pairwise_cons.mp disjoint).2 ?_ lower upper chain.2
        (Nat.lt_of_succ_lt_succ enough)
      rcases List.mem_cons.mp member with rfl | later
      · exact absurd ⟨lower, upper⟩ inside
      · exact later

/-- Giving a block back rewrites its arena as `Joined` describes. -/
theorem releaseBlock_arena (inv : Invariant s (before ++ a :: after))
    (shape : a.blocks = front ++ block :: back) :
    ∃ blocks, Joined 32 block front back blocks ∧
      Invariant (releaseBlock s (a.base + 48 + span 32 front))
        (before ++ { a with blocks := blocks } :: after) := by
  have at_ := inv.each a (by simp)
  have extent := at_.extent
  have low := at_.low
  have high := at_.high
  have laid := at_.laid
  have tiled := at_.tiled
  rw [shape] at laid tiled extent
  have bounds := extent
  simp only [span_append, span_cons] at bounds
  unfold releaseBlock
  dsimp only
  generalize marked : State.mk _ _ _ _ _ _ _ = u
  have pages : u.pages = (s.store (a.base + 48 + span 32 front + 8) 1).pages := by rw [← marked]
  have load : u.load = (s.store (a.base + 48 + span 32 front + 8) 1).load := by
    unfold State.load
    rw [pages]
  have one : Within s (s.store (a.base + 48 + span 32 front + 8) 1) (a.base + 48) a.stop :=
    (Within.refl s _ _).store (by omega) (by omega) (by omega)
  have first : Within s u (a.base + 48) a.stop := by
    refine ⟨?_, ?_, ?_⟩
    · rw [pages]; exact one.pages
    · rw [← marked]; exact one.heapPages
    · rw [pages]; exact one.mem
  have whole : Laid u.load 0 (a.base + 48) (front ++ { block with free := true } :: back) 0 := by
    rw [load]
    refine laid.replace (by simp) ?_ (Laid.setFree (by omega) (laid_append.mp laid).2 true)
    intro va lower upper
    exact load_store_other (by omega) (by omega) (by omega)
  obtain ⟨second, blocks, joined, final⟩ := coalesce_laid (by omega) (by omega) whole
  rw [extent] at second
  exact ⟨blocks, joined, inv.reblock (first.trans second) final
    (tiled.joined (by decide) joined)⟩

theorem used_joined {blocks : List Block} (addr : Nat) (taken : block.free = false)
    (joined : Joined 32 block front back blocks) :
    used addr (front ++ block :: back) =
        used addr front ++ (addr + span 32 front + 32) ::
          used (addr + span 32 front + (32 + block.size)) back ∧
      used addr blocks =
        used addr front ++ used (addr + span 32 front + (32 + block.size)) back := by
  constructor
  · simp [used_append, used, taken]
  · cases joined with
    | neither left right => simp [used_append, used]
    | next left right => simp [used_append, used, right, Nat.add_assoc]
    | previous left right => simp [used_append, used, left, Nat.add_assoc]
    | both left right => simp [used_append, used, left, right, Nat.add_assoc]

/-- A block in use has been given back and joined with its free neighbours. -/
inductive Released (s : State) : List Arena → State → List Arena → Prop
  | joined {before after : List Arena} {a : Arena} {front back blocks : List Block} {block : Block}
      (shape : a.blocks = front ++ block :: back) (taken : block.free = false)
      (joined : Joined 32 block front back blocks) :
      Released s (before ++ a :: after) (releaseBlock s (a.base + 48 + span 32 front))
        (before ++ { a with blocks := blocks } :: after)

/-- `kfree` of a pointer in use returns, and that pointer is the only one to leave. -/
theorem kfree_spec (inv : Invariant s arenas) {ptr : Nat} (live : ptr ∈ usedAll arenas) :
    ∃ t arenas', kfree s ptr = some t ∧ Released s arenas t arenas' ∧ Invariant t arenas' ∧
      (usedAll arenas).Perm (ptr :: usedAll arenas') := by
  obtain ⟨a, member, inside⟩ := List.mem_flatMap.mp live
  obtain ⟨front, block, back, shape, taken, rfl⟩ := mem_used inside
  obtain ⟨before, after, rfl⟩ := List.append_of_mem member
  have at_ := inv.each a member
  have extent := at_.extent
  have laid := at_.laid
  have tiled := at_.tiled
  rw [shape] at laid tiled extent
  have bounds := extent
  simp only [span_append, span_cons] at bounds
  have lastSize : 0 < block.size + span 32 back := by
    cases back with
    | nil =>
      have final := tiled.last block (by simp)
      omega
    | cons next rest => simp only [span_cons]; omega
  have search := pageFromPointer_spec (before ++ a :: after) inv.each inv.disjoint member
    (show a.base ≤ a.base + 48 + span 32 front + 32 by omega) (by omega) inv.chain inv.arenas_lt
  have header := (laid_append.mp laid).2.1
  have address : a.base + 48 + span 32 front + 32 - 32 = a.base + 48 + span 32 front := by omega
  have flag : s.load (a.base + 48 + span 32 front + 8) = 0 := by
    rw [header.free]
    simp [taken]
  obtain ⟨blocks, joined, inv'⟩ := releaseBlock_arena inv shape
  refine ⟨releaseBlock s (a.base + 48 + span 32 front),
    before ++ { a with blocks := blocks } :: after, ?_, .joined shape taken joined, inv', ?_⟩
  · unfold kfree
    rw [if_neg (by omega), search]
    simp only [Option.map_some, address, flag, ne_eq, not_true_eq_false, if_false]
  · obtain ⟨old, new⟩ := used_joined (a.base + 48) taken joined
    simp only [usedAll, List.flatMap_append, List.flatMap_cons, shape, old, new, List.append_assoc]
    rw [← List.append_assoc, ← List.append_assoc _ (used (a.base + 48) front)]
    exact List.perm_middle

end OsArmv8a.Heap
