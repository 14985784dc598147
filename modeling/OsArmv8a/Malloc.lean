import OsArmv8a.Brk

/-! The `malloc` of libc: `sbrk` keeps its own copy of the break and takes the rounded size as a
signed increment, `process_brk` answers a refused break with the old one. -/

set_option autoImplicit false

namespace OsArmv8a.Malloc

open Elf Brk

/-- A process that is alone in calling `brk`, the static `current_brk` of `sbrk`, and the blocks
that `malloc` has handed out with the sizes they were asked for, the last one first. -/
structure Libc where
  process : Process
  currentBrk : Nat
  blocks : List (Nat × Nat)

/-- `sbrk`, with the increment as an unsigned word: the result, the process and `current_brk`. -/
def sbrk (process : Process) (currentBrk increment : Nat) : Nat × Process × Nat :=
  let oldBrk := if currentBrk = 0 then (processBrk process 0).1 else currentBrk
  let newBrk := Word64.add oldBrk increment
  let answer := processBrk process newBrk
  if answer.1 < newBrk ∧ 0 < increment ∧ increment < 2 ^ 63 then (2 ^ 64 - 1, answer.2, oldBrk)
  else (oldBrk, answer.2, answer.1)

/-- `malloc`: the pointer, 0 for NULL, and what is left. -/
def malloc (s : Libc) (size : Nat) : Nat × Libc :=
  if size = 0 then (0, s)
  else
    let (ptr, process, currentBrk) := sbrk s.process s.currentBrk (Word64.alignUp size 8)
    (if ptr = 2 ^ 64 - 1 then 0 else ptr, { s with process := process, currentBrk := currentBrk })

/-- A call of `malloc` of the program, which keeps a result that is not NULL. -/
def call (s : Libc) (size : Nat) : Libc :=
  let (ptr, t) := malloc s size
  if ptr = 0 then t else { t with blocks := (ptr, size) :: t.blocks }

def calls (s : Libc) (sizes : List Nat) : Libc := sizes.foldl call s

/-- The start of a program: libc has asked for nothing yet. -/
def start (process : Process) : Libc := ⟨process, 0, []⟩

/-- The blocks lie between the initial and the current break, and no two of them overlap. -/
structure Sound (initial : Nat) (s : Libc) : Prop where
  within : ∀ block ∈ s.blocks, initial ≤ block.1 ∧ block.1 + block.2 ≤ s.process.brk
  disjoint : s.blocks.Pairwise fun later earlier =>
    earlier.1 + earlier.2 ≤ later.1 ∨ later.1 + later.2 ≤ earlier.1

/-- The sizes that do not become a negative or an empty increment. -/
def Small (size : Nat) : Prop := size ≤ 2 ^ 63 - 8

instance (size : Nat) : Decidable (Small size) := inferInstanceAs (Decidable (_ ≤ _))

/-- What every call keeps: libc and the kernel agree on the break. -/
structure Agrees (s : Libc) : Prop where
  bounded : Bounded s.process
  limit : s.process.heapLimit = userHeapLimit
  positive : 0 < s.process.heapStart
  current : s.currentBrk = 0 ∨ s.currentBrk = s.process.brk

variable {s : Libc} {size : Nat}

theorem Agrees.brk_pos (agrees : Agrees s) : 0 < s.process.brk :=
  Nat.lt_of_lt_of_le agrees.positive agrees.bounded.lower

theorem Agrees.brk_le (agrees : Agrees s) : s.process.brk ≤ 0x70000000 := by
  have upper := agrees.bounded.upper
  rwa [agrees.limit] at upper

/-- The copy of the break that `sbrk` works with is the break of the kernel. -/
theorem Agrees.oldBrk (agrees : Agrees s) :
    (if s.currentBrk = 0 then (processBrk s.process 0).1 else s.currentBrk) = s.process.brk := by
  rcases agrees.current with zero | same
  · rw [if_pos zero]
    rfl
  · rw [same, if_neg agrees.brk_pos.ne']

/-- The kernel takes a break from the heap and refuses any other. -/
theorem Agrees.answer (agrees : Agrees s) (newBrk : Nat) :
    (processBrk s.process newBrk = (s.process.brk, s.process) ∧
      ¬ (s.process.heapStart ≤ newBrk ∧ newBrk ≤ 0x70000000)) ∨
    (processBrk s.process newBrk = (newBrk, { s.process with brk := newBrk }) ∧
      s.process.heapStart ≤ newBrk ∧ newBrk ≤ 0x70000000) := by
  have positive := agrees.positive
  have limit : s.process.heapLimit = 0x70000000 := agrees.limit
  rcases processBrk_cases s.process newBrk with ⟨refused, same⟩ | ⟨accepted, moved⟩
  · exact Or.inl ⟨same, by omega⟩
  · rw [limit] at accepted
    exact Or.inr ⟨moved, accepted.2⟩

theorem alignUp_small (small : Small size) :
    size ≤ Word64.alignUp size 8 ∧ Word64.alignUp size 8 < 2 ^ 63 := by
  unfold Small at small
  unfold Word64.alignUp
  rw [Word64.add_of_lt (by omega)]
  omega

theorem alignUp_large (fits : size < 2 ^ 64) (large : ¬ Small size) :
    ¬ (0 < Word64.alignUp size 8 ∧ Word64.alignUp size 8 < 2 ^ 63) := by
  unfold Small at large
  unfold Word64.alignUp Word64.add
  omega

/-- `sbrk` fails for a positive increment that the kernel refuses, and for no other. -/
theorem sbrk_cases (agrees : Agrees s) (increment : Nat) :
    ((0 < increment ∧ increment < 2 ^ 63) ∧
      sbrk s.process s.currentBrk increment = (2 ^ 64 - 1, s.process, s.process.brk)) ∨
    ∃ brk, s.process.heapStart ≤ brk ∧ brk ≤ 0x70000000 ∧
      (increment < 2 ^ 63 → s.process.brk + increment ≤ brk) ∧
      sbrk s.process s.currentBrk increment =
        (s.process.brk, { s.process with brk := brk }, brk) := by
  have below := agrees.brk_le
  have lower := agrees.bounded.lower
  have unwrapped (signed : increment < 2 ^ 63) :
      Word64.add s.process.brk increment = s.process.brk + increment :=
    Word64.add_of_lt (by omega)
  unfold sbrk
  simp only [agrees.oldBrk]
  rcases agrees.answer (Word64.add s.process.brk increment) with
    ⟨refused, outside⟩ | ⟨moved, inside⟩
  · rw [refused]
    by_cases signed : 0 < increment ∧ increment < 2 ^ 63
    · left
      rw [unwrapped signed.2, if_pos ⟨by omega, signed⟩]
      exact ⟨signed, rfl⟩
    · right
      rw [if_neg fun failed => signed failed.2]
      refine ⟨s.process.brk, lower, below, ?_, rfl⟩
      intro positive
      omega
  · right
    rw [moved, if_neg fun failed => Nat.lt_irrefl _ failed.1]
    exact ⟨_, inside.1, inside.2, fun signed => (unwrapped signed).ge, rfl⟩

/-- What a call can do: fail and change nothing, or hand out the old break as a block. -/
theorem call_cases (agrees : Agrees s) (positive : 0 < size) (fits : size < 2 ^ 64) :
    (Small size ∧ call s size = { s with currentBrk := s.process.brk }) ∨
    ∃ brk, s.process.heapStart ≤ brk ∧ brk ≤ 0x70000000 ∧
      (Small size → s.process.brk + size ≤ brk) ∧
      call s size = ⟨{ s.process with brk := brk }, brk, (s.process.brk, size) :: s.blocks⟩ := by
  have above := agrees.brk_pos
  have below := agrees.brk_le
  have rounded (small : Small size) := alignUp_small small
  unfold call malloc
  rw [if_neg positive.ne']
  rcases sbrk_cases agrees (Word64.alignUp size 8) with ⟨signed, failed⟩ | ⟨brk, start, upper, covers, moved⟩
  · left
    rw [failed]
    by_contra differs
    exact alignUp_large fits (fun small => differs ⟨small, rfl⟩) signed
  · right
    rw [moved]
    have pointer : ¬ s.process.brk = 2 ^ 64 - 1 := by omega
    refine ⟨brk, start, upper, ?_, ?_⟩
    · intro small
      have covers := covers (rounded small).2
      have room := (rounded small).1
      omega
    · simp only [if_neg pointer, if_neg above.ne']

theorem call_agrees (agrees : Agrees s) (positive : 0 < size) (fits : size < 2 ^ 64) :
    Agrees (call s size) ∧ ∀ block ∈ s.blocks, block ∈ (call s size).blocks := by
  rcases call_cases agrees positive fits with ⟨_, failed⟩ | ⟨brk, start, upper, _, moved⟩
  · rw [failed]
    exact ⟨⟨agrees.bounded, agrees.limit, agrees.positive, Or.inr rfl⟩, fun _ member => member⟩
  · rw [moved]
    exact ⟨⟨⟨start, agrees.limit ▸ upper⟩, agrees.limit, agrees.positive, Or.inr rfl⟩,
      fun _ => List.mem_cons_of_mem _⟩

/-- A call with a small size keeps the blocks sound: the new one starts where the last ones end. -/
theorem call_sound {initial : Nat} (agrees : Agrees s) (sound : Sound initial s)
    (below : initial ≤ s.process.brk) (positive : 0 < size) (small : Small size) :
    Sound initial (call s size) ∧ initial ≤ (call s size).process.brk := by
  have fits : size < 2 ^ 64 := by
    unfold Small at small
    omega
  rcases call_cases agrees positive fits with ⟨_, failed⟩ | ⟨brk, _, _, covers, moved⟩
  · rw [failed]
    exact ⟨⟨sound.within, sound.disjoint⟩, below⟩
  · have covers := covers small
    rw [moved]
    refine ⟨⟨?_, List.pairwise_cons.mpr ⟨?_, sound.disjoint⟩⟩, show initial ≤ brk by omega⟩
    · intro block member
      rcases List.mem_cons.mp member with rfl | old
      · exact ⟨below, covers⟩
      · have within := sound.within block old
        exact ⟨within.1, show block.1 + block.2 ≤ brk by omega⟩
    · intro block member
      exact Or.inl (sound.within block member).2

/-- A block of any other size ends behind every break there can be. -/
theorem call_unsound (agrees : Agrees s) (positive : 0 < size) (fits : size < 2 ^ 64)
    (large : ¬ Small size) : (s.process.brk, size) ∈ (call s size).blocks := by
  rcases call_cases agrees positive fits with ⟨small, _⟩ | ⟨brk, _, _, _, moved⟩
  · exact absurd small large
  · rw [moved]
    exact List.mem_cons_self

/-- The calls of a whole program: the block of a large size stays among the blocks. -/
theorem calls_kept (sizes : List Nat) {s : Libc} (agrees : Agrees s)
    (sized : ∀ size ∈ sizes, 0 < size ∧ size < 2 ^ 64) :
    Agrees (calls s sizes) ∧ (∀ block ∈ s.blocks, block ∈ (calls s sizes).blocks) ∧
      ∀ size ∈ sizes, ¬ Small size → ∃ ptr, (ptr, size) ∈ (calls s sizes).blocks := by
  induction sizes generalizing s with
  | nil => exact ⟨agrees, fun _ member => member, fun _ member => absurd member (by simp)⟩
  | cons size sizes ih =>
    obtain ⟨⟨positive, fits⟩, sized⟩ := List.forall_mem_cons.mp sized
    obtain ⟨next, kept⟩ := call_agrees agrees positive fits
    obtain ⟨last, later, handed⟩ := ih next sized
    refine ⟨last, fun block member => later block (kept block member), ?_⟩
    intro other member large
    rcases List.mem_cons.mp member with rfl | member
    · exact ⟨_, later _ (call_unsound agrees positive fits large)⟩
    · exact handed other member large

theorem calls_sound (sizes : List Nat) {s : Libc} {initial : Nat} (agrees : Agrees s)
    (sound : Sound initial s) (below : initial ≤ s.process.brk)
    (sized : ∀ size ∈ sizes, 0 < size ∧ size < 2 ^ 64) (small : ∀ size ∈ sizes, Small size) :
    Sound initial (calls s sizes) := by
  induction sizes generalizing s with
  | nil => exact sound
  | cons size sizes ih =>
    obtain ⟨⟨positive, fits⟩, sized⟩ := List.forall_mem_cons.mp sized
    obtain ⟨small, smaller⟩ := List.forall_mem_cons.mp small
    obtain ⟨sound, below⟩ := call_sound agrees sound below positive small
    exact ih (call_agrees agrees positive fits).1 sound below sized smaller

theorem start_agrees {first : Brk.State} (created : Created first) :
    Agrees (start first.process) ∧ Sound first.process.brk (start first.process) := by
  obtain ⟨fresh, positive⟩ := created.fresh
  have upper := fresh.start.1
  rw [← fresh.limit] at upper
  refine ⟨⟨⟨fresh.brk.ge, fresh.brk.trans_le upper⟩, fresh.limit, positive, Or.inl rfl⟩, ?_⟩
  exact ⟨fun _ member => absurd member (by simp [start]), List.Pairwise.nil⟩

/-- The blocks of a program are sound exactly when it asked for no size that turns into a negative
or an empty increment. -/
theorem malloc_sound {first : Brk.State} (created : Created first) (sizes : List Nat)
    (sized : ∀ size ∈ sizes, 0 < size ∧ size < 2 ^ 64) :
    Sound first.process.brk (calls (start first.process) sizes) ↔ ∀ size ∈ sizes, Small size := by
  obtain ⟨agrees, sound⟩ := start_agrees created
  constructor
  · intro sound size member
    by_contra large
    obtain ⟨last, _, handed⟩ := calls_kept sizes agrees sized
    obtain ⟨ptr, block⟩ := handed size member large
    have within := (sound.within _ block).2
    have below := last.brk_le
    unfold Small at large
    omega
  · exact calls_sound sizes agrees sound le_rfl sized

theorem sample_created :
    ∃ process, Created ⟨process, 0⟩ ∧ process.heapStart = 0x13000 := by
  obtain ⟨process, made, heapStart⟩ : ∃ process,
      createFromElf sampleKernel (sampleMain 0x1000) = some process ∧ process.heapStart = 0x13000 := by
    decide +kernel
  exact ⟨process, Or.inl ⟨_, _, made⟩, heapStart⟩

/-- Three calls, the second of which the kernel refuses. -/
theorem malloc_sound_three :
    ∃ process, Created ⟨process, 0⟩ ∧
      Sound process.brk (calls (start process) [100, 2 ^ 40, 2 ^ 20]) := by
  obtain ⟨process, created, _⟩ := sample_created
  exact ⟨process, created, (malloc_sound created [100, 2 ^ 40, 2 ^ 20] (by decide)).mpr (by decide)⟩

/-- `malloc(-1)` rounds to an empty increment: its block and the next one are the same address. -/
theorem malloc_overlapping :
    ∃ process, Created ⟨process, 0⟩ ∧
      (calls (start process) [2 ^ 64 - 1, 8]).blocks = [(0x13000, 8), (0x13000, 2 ^ 64 - 1)] ∧
      (calls (start process) [2 ^ 64 - 1, 8]).process.brk = 0x13008 ∧
      ¬ Sound process.brk (calls (start process) [2 ^ 64 - 1, 8]) := by
  obtain ⟨process, created, heapStart⟩ := sample_created
  obtain ⟨fresh, _⟩ := created.fresh
  have brk : process.brk = 0x13000 := fresh.brk.trans heapStart
  have limit : process.heapLimit = 0x70000000 := fresh.limit
  have ended : calls (start process) [2 ^ 64 - 1, 8] =
      ⟨{ process with brk := 0x13008 }, 0x13008, [(0x13000, 8), (0x13000, 2 ^ 64 - 1)]⟩ := by
    simp [calls, start, call, malloc, sbrk, processBrk, Word64.alignUp, Word64.add, brk, limit,
      heapStart]
  refine ⟨process, created, by rw [ended], by rw [ended], ?_⟩
  intro sound
  rw [ended] at sound
  have within := (sound.within (0x13000, 2 ^ 64 - 1) (by simp)).2
  dsimp only at within
  omega

end OsArmv8a.Malloc
