import Mathlib

set_option autoImplicit false

/-! A region cut into blocks, each a header followed by its payload. -/

namespace Tiling

structure Block where
  size : Nat
  free : Bool
  deriving DecidableEq, Repr

/-- The bytes that headers and payloads take together. -/
def span (header : Nat) : List Block → Nat
  | [] => 0
  | block :: rest => header + block.size + span header rest

@[simp] theorem span_nil (header : Nat) : span header [] = 0 := rfl

@[simp] theorem span_cons (header : Nat) (block : Block) (rest : List Block) :
    span header (block :: rest) = header + block.size + span header rest := rfl

@[simp] theorem span_append (header : Nat) (front back : List Block) :
    span header (front ++ back) = span header front + span header back := by
  induction front with
  | nil => simp
  | cons block front ih => simp [ih]; omega

/-- The payload bytes of the blocks that are not free. -/
def taken : List Block → Nat
  | [] => 0
  | block :: rest => (if block.free = true then 0 else block.size) + taken rest

/-- The payload bytes of the free blocks. -/
def spare : List Block → Nat
  | [] => 0
  | block :: rest => (if block.free = true then block.size else 0) + spare rest

@[simp] theorem taken_nil : taken [] = 0 := rfl

@[simp] theorem taken_cons (block : Block) (rest : List Block) :
    taken (block :: rest) = (if block.free = true then 0 else block.size) + taken rest := rfl

@[simp] theorem taken_append (front back : List Block) :
    taken (front ++ back) = taken front + taken back := by
  induction front with
  | nil => simp
  | cons block front ih => simp [ih]; omega

/-- Headers, free payloads and payloads in use make up the whole. -/
theorem span_eq (header : Nat) (blocks : List Block) :
    span header blocks = header * blocks.length + spare blocks + taken blocks := by
  induction blocks with
  | nil => rfl
  | cons block rest ih =>
    simp only [span_cons, taken_cons, spare, List.length_cons, ih, Nat.mul_succ]
    split <;> omega

/-- No two neighbours are both free. -/
def Separated (blocks : List Block) : Prop :=
  blocks.IsChain fun left right => left.free = false ∨ right.free = false

/-- Blocks that fill `total` bytes in multiples of `grain`, the last one not empty. -/
structure Tiled (header grain total : Nat) (blocks : List Block) : Prop where
  exact : span header blocks = total
  grained : ∀ block ∈ blocks, grain ∣ block.size
  separated : Separated blocks
  last : ∀ block ∈ blocks.getLast?, grain ≤ block.size

variable {blocks : List Block}

/-- Free blocks that are all separated are at most one. -/
theorem Separated.single (separated : Separated blocks) (free : ∀ block ∈ blocks, block.free = true)
    : blocks.length ≤ 1 := by
  cases blocks with
  | nil => exact Nat.zero_le 1
  | cons first rest =>
    cases rest with
    | nil => exact Nat.le_refl 1
    | cons second rest =>
      have apart := (List.isChain_cons_cons.mp separated).1
      rw [free first (by simp), free second (by simp)] at apart
      simp at apart

/-- Takes a block for a request: the tail becomes a free block of its own when it can
hold a header and one grain. -/
def carve (header grain size : Nat) (block : Block) : List Block :=
  if block.size < size + (header + grain) then [{ block with free := false }]
  else [{ size := size, free := false }, { size := block.size - size - header, free := true }]

theorem carve_ne_nil (header grain size : Nat) (block : Block) :
    carve header grain size block ≠ [] := by
  unfold carve
  split <;> simp

variable {header grain size : Nat} {block : Block}

theorem span_carve : span header (carve header grain size block) = header + block.size := by
  unfold carve
  split
  · rfl
  · simp; omega

variable {front back : List Block}

theorem Separated.carve (separated : Separated (front ++ block :: back)) (free : block.free = true)
    : Separated (front ++ Tiling.carve header grain size block ++ back) := by
  unfold Separated at *
  rw [List.isChain_append] at separated
  obtain ⟨left, right, middle⟩ := separated
  obtain ⟨tail, next⟩ := List.isChain_cons.mp right
  unfold Tiling.carve
  split
  · simp only [List.append_assoc, List.singleton_append]
    refine List.isChain_append.mpr ⟨left, List.isChain_cons.mpr ⟨?_, next⟩, ?_⟩
    · intro other _
      exact Or.inl rfl
    · intro last _ first isFirst
      simp only [List.head?_cons, Option.mem_some_iff] at isFirst
      subst isFirst
      exact Or.inr rfl
  · simp only [List.append_assoc, List.cons_append, List.nil_append]
    refine List.isChain_append.mpr ⟨left, ?_, ?_⟩
    · refine List.isChain_cons_cons.mpr ⟨Or.inl rfl, List.isChain_cons.mpr ⟨?_, next⟩⟩
      intro other isHead
      have apart := tail other isHead
      rw [free] at apart
      exact Or.inr (apart.resolve_left (by simp))
    · intro last _ first isFirst
      simp only [List.head?_cons, Option.mem_some_iff] at isFirst
      subst isFirst
      exact Or.inr rfl

variable {total : Nat}

theorem Tiled.carve (tiled : Tiled header grain total (front ++ block :: back))
    (free : block.free = true) (aligned : grain ∣ size) (headerAligned : grain ∣ header) :
    Tiled header grain total (front ++ Tiling.carve header grain size block ++ back) := by
  have exact := tiled.exact
  refine ⟨?_, ?_, tiled.separated.carve free, ?_⟩
  · rw [← exact]
    simp [span_carve]
  · have whole := tiled.grained block (by simp)
    intro other member
    simp only [List.append_assoc, List.mem_append] at member
    rcases member with before | here | after
    · exact tiled.grained other (by simp [before])
    · unfold Tiling.carve at here
      split at here
      · simp only [List.mem_singleton] at here
        subst here
        exact whole
      · simp only [List.mem_cons, List.not_mem_nil, or_false] at here
        rcases here with rfl | rfl
        · exact aligned
        · exact Nat.dvd_sub (Nat.dvd_sub whole aligned) headerAligned
    · exact tiled.grained other (by simp [after])
  · intro other isLast
    cases back with
    | cons next rest =>
      rw [List.getLast?_append_of_ne_nil _ (List.cons_ne_nil next rest)] at isLast
      refine tiled.last other ?_
      rw [List.getLast?_append_of_ne_nil _ (List.cons_ne_nil block _), List.getLast?_cons_cons]
      exact isLast
    | nil =>
      have final := tiled.last block (by simp)
      unfold Tiling.carve at isLast
      split at isLast
      · simp at isLast
        subst isLast
        exact final
      · simp at isLast
        subst isLast
        change grain ≤ block.size - size - header
        omega

/-- The four shapes a release can take, by which neighbours are free. -/
inductive Joined (header : Nat) (block : Block) :
    List Block → List Block → List Block → Prop
  | neither {front back : List Block}
      (left : ∀ previous ∈ front.getLast?, previous.free = false)
      (right : ∀ next ∈ back.head?, next.free = false) :
      Joined header block front back (front ++ { block with free := true } :: back)
  | next {front rest : List Block} {next : Block}
      (left : ∀ previous ∈ front.getLast?, previous.free = false) (right : next.free = true) :
      Joined header block front (next :: rest)
        (front ++ { size := block.size + (header + next.size), free := true } :: rest)
  | previous {front back : List Block} {previous : Block} (left : previous.free = true)
      (right : ∀ next ∈ back.head?, next.free = false) :
      Joined header block (front ++ [previous]) back
        (front ++ { size := previous.size + (header + block.size), free := true } :: back)
  | both {front rest : List Block} {previous next : Block} (left : previous.free = true)
      (right : next.free = true) :
      Joined header block (front ++ [previous]) (next :: rest)
        (front ++ { size := previous.size + (header + (block.size + (header + next.size))),
                    free := true } :: rest)

/-- A release takes the block's bytes out of use, whichever neighbours it is joined with. -/
theorem Joined.taken (inUse : block.free = false) (joined : Joined header block front back blocks) :
    Tiling.taken blocks + block.size = Tiling.taken (front ++ block :: back) := by
  cases joined with
  | neither left right => simp [inUse]; omega
  | next left right => simp [inUse, right]; omega
  | previous left right => simp [inUse, left]; omega
  | both left right => simp [inUse, left, right]; omega

theorem dvd_span (headerAligned : grain ∣ header) (grained : ∀ block ∈ blocks, grain ∣ block.size) :
    grain ∣ span header blocks := by
  induction blocks with
  | nil => exact Nat.dvd_zero grain
  | cons block rest ih =>
    obtain ⟨head, tail⟩ := List.forall_mem_cons.mp grained
    exact Nat.dvd_add (Nat.dvd_add headerAligned head) (ih tail)

/-- A run of blocks may be replaced by one free block that covers it, when the blocks
around it are not free. -/
theorem Tiled.merge {merged : Block} (middle : List Block)
    (tiled : Tiled header grain total (front ++ middle ++ back)) (headerAligned : grain ∣ header)
    (covers : header + merged.size = span header middle)
    (left : ∀ previous ∈ front.getLast?, previous.free = false)
    (right : ∀ next ∈ back.head?, next.free = false)
    (large : ∃ block ∈ middle.getLast?, block.size ≤ merged.size) :
    Tiled header grain total (front ++ merged :: back) := by
  have exact := tiled.exact
  simp only [span_append] at exact
  obtain ⟨final, isFinal, large⟩ := large
  refine ⟨?_, ?_, ?_, ?_⟩
  · simp only [span_append, span_cons]
    omega
  · intro other member
    simp only [List.mem_append, List.mem_cons] at member
    rcases member with before | rfl | after
    · exact tiled.grained other (by simp [before])
    · have whole : grain ∣ span header middle :=
        dvd_span headerAligned fun block inside => tiled.grained block (by simp [inside])
      rw [← covers] at whole
      exact (Nat.dvd_add_right headerAligned).mp whole
    · exact tiled.grained other (by simp [after])
  · have separated := tiled.separated
    unfold Separated at separated ⊢
    rw [List.isChain_append, List.isChain_append] at separated
    refine List.isChain_append.mpr ⟨separated.1.1, List.isChain_cons.mpr ⟨?_, separated.2.1⟩, ?_⟩
    · intro next isHead
      exact Or.inr (right next isHead)
    · intro previous isLast first _
      exact Or.inl (left previous isLast)
  · intro other isLast
    cases back with
    | nil =>
      simp only [List.getLast?_append, List.getLast?_singleton, Option.some_or,
        Option.mem_some_iff] at isLast
      subst isLast
      refine Nat.le_trans (tiled.last final ?_) large
      rw [List.append_nil, List.getLast?_append]
      rw [Option.mem_def.mp isFinal]
      rfl
    | cons next rest =>
      refine tiled.last other ?_
      rw [List.getLast?_append_of_ne_nil _ (List.cons_ne_nil next rest)]
      rw [List.getLast?_append_of_ne_nil _ (List.cons_ne_nil merged _),
        List.getLast?_cons_cons] at isLast
      exact isLast

/-- In a separated list the block before a free one is not free. -/
theorem Separated.before_free (back : List Block) (separated : Separated (front ++ block :: back))
    (free : block.free = true) : ∀ previous ∈ front.getLast?, previous.free = false := by
  intro previous isLast
  have apart := (List.isChain_append.mp separated).2.2 previous isLast block rfl
  rw [free] at apart
  exact apart.resolve_right (by simp)

theorem Separated.after_free (front : List Block) (separated : Separated (front ++ block :: back))
    (free : block.free = true) : ∀ next ∈ back.head?, next.free = false := by
  intro next isHead
  have apart := (List.isChain_cons.mp (List.isChain_append.mp separated).2.1).1 next isHead
  rw [free] at apart
  exact apart.resolve_left (by simp)

theorem Tiled.joined (tiled : Tiled header grain total (front ++ block :: back))
    (headerAligned : grain ∣ header) (joined : Joined header block front back blocks) :
    Tiled header grain total blocks := by
  cases joined with
  | neither left right =>
    refine Tiled.merge [block] (by simpa using tiled) headerAligned ?_ left right ?_
    · simp
    · exact ⟨block, rfl, Nat.le_refl _⟩
  | @next _ rest next left right =>
    refine Tiled.merge [block, next] (by simpa using tiled) headerAligned ?_ left ?_ ?_
    · simp; omega
    · refine Separated.after_free (front ++ [block]) ?_ right
      simpa using tiled.separated
    · exact ⟨next, rfl, by change next.size ≤ block.size + (header + next.size); omega⟩
  | @previous front _ previous left right =>
    refine Tiled.merge [previous, block] (by simpa using tiled) headerAligned ?_ ?_
      right ?_
    · simp; omega
    · refine Separated.before_free (block :: back) ?_ left
      simpa using tiled.separated
    · exact ⟨block, rfl, by change block.size ≤ previous.size + (header + block.size); omega⟩
  | @both front rest previous next left right =>
    refine Tiled.merge [previous, block, next] (by simpa using tiled) headerAligned
      ?_ ?_ ?_ ?_
    · simp; omega
    · refine Separated.before_free (block :: next :: rest) ?_ left
      simpa using tiled.separated
    · refine Separated.after_free (front ++ [previous, block]) ?_ right
      simpa using tiled.separated
    · refine ⟨next, rfl, ?_⟩
      change next.size ≤ previous.size + (header + (block.size + (header + next.size)))
      omega

end Tiling
