import OsArmv8a.Heap
import OsArmv8a.Lib.Tiling
import OsArmv8a.PageAllocFrame

set_option autoImplicit false

namespace OsArmv8a.Heap

open Tiling

namespace State

theorem load_lt (s : State) (va : Nat) : s.load va < 2 ^ 64 := BitVec.isLt _

theorem store_mem (s : State) (va value : Nat) : (s.store va value).pages.mem =
    s.pages.mem.set (va - kernelVaOffset) (BitVec.ofNat 64 value) := rfl

theorem store_heapPages (s : State) (va value : Nat) :
    (s.store va value).heapPages = s.heapPages := rfl

theorem load_store_same {s : State} {va value : Nat} (small : value < 2 ^ 64) :
    (s.store va value).load va = value := by
  unfold load
  rw [store_mem, Mem.set_same, BitVec.toNat_ofNat, Nat.mod_eq_of_lt small]

theorem load_store_other {s : State} {va value a : Nat} (high : kernelVaOffset ≤ va)
    (highA : kernelVaOffset ≤ a) (apart : a ≠ va) : (s.store va value).load a = s.load a := by
  unfold load
  rw [store_mem, Mem.set_other]
  omega

end State

/-- `t` differs from `s` only in the counters and in words of `[low, high)`. -/
structure Within (s t : State) (low high : Nat) : Prop where
  pages : t.pages = { s.pages with mem := t.pages.mem }
  heapPages : t.heapPages = s.heapPages
  mem : ∀ pa, pa + kernelVaOffset < low ∨ high ≤ pa + kernelVaOffset →
    t.pages.mem pa = s.pages.mem pa

theorem Within.refl (s : State) (low high : Nat) : Within s s low high :=
  ⟨rfl, rfl, fun _ _ => rfl⟩

variable {s t : State} {low high : Nat}

theorem Within.trans {u : State} (first : Within s t low high) (second : Within t u low high) :
    Within s u low high := by
  refine ⟨?_, second.heapPages.trans first.heapPages, ?_⟩
  · rw [second.pages, first.pages]
  · intro pa outside
    rw [second.mem pa outside, first.mem pa outside]

theorem Within.store (within : Within s t low high) {va value : Nat} (base : kernelVaOffset ≤ low)
    (lower : low ≤ va) (upper : va < high) : Within s (t.store va value) low high := by
  refine within.trans ⟨rfl, rfl, ?_⟩
  intro pa outside
  exact Mem.set_other _ _ (by omega)

theorem Within.load (within : Within s t low high) {a : Nat} (base : kernelVaOffset ≤ a)
    (outside : a < low ∨ high ≤ a) : t.load a = s.load a := by
  unfold State.load
  rw [within.mem]
  omega

/-- The header at `addr` describes `block`. -/
structure Header (m : Nat → Nat) (addr : Nat) (block : Block) (prev next : Nat) : Prop where
  size : m addr = block.size
  free : m (addr + 8) = if block.free = true then 1 else 0
  next : m (addr + 16) = next
  prev : m (addr + 24) = prev

/-- The headers of `blocks` lie one after the other from `addr` on, linked both ways;
`prev` precedes the first and `next` follows the last. -/
def Laid (m : Nat → Nat) : Nat → Nat → List Block → Nat → Prop
  | _, _, [], _ => True
  | prev, addr, block :: rest, next =>
    Header m addr block prev (if rest = [] then next else addr + (32 + block.size)) ∧
      Laid m addr (addr + (32 + block.size)) rest next

/-- The header that precedes what follows `blocks`. -/
def lastAddr : Nat → Nat → List Block → Nat
  | prev, _, [] => prev
  | _, addr, block :: rest => lastAddr addr (addr + (32 + block.size)) rest

variable {m : Nat → Nat} {front back : List Block}

theorem laid_append : ∀ {prev addr next : Nat},
    Laid m prev addr (front ++ back) next ↔
      Laid m prev addr front (if back = [] then next else addr + span 32 front) ∧
        Laid m (lastAddr prev addr front) (addr + span 32 front) back next := by
  induction front with
  | nil => intro prev addr next; simp [Laid, lastAddr]
  | cons block front ih =>
    intro prev addr next
    simp only [List.cons_append, Laid, lastAddr, span_cons, ih, and_assoc, Nat.add_assoc]
    cases front with
    | nil => cases back <;> simp [Laid, lastAddr]
    | cons second rest => simp [Laid]

/-- Where the blocks start. -/
def starts : Nat → List Block → List Nat
  | _, [] => []
  | addr, block :: rest => addr :: starts (addr + (32 + block.size)) rest

theorem starts_append : ∀ {addr : Nat},
    starts addr (front ++ back) = starts addr front ++ starts (addr + span 32 front) back := by
  induction front with
  | nil => intro addr; rfl
  | cons block front ih =>
    intro addr
    simp only [List.cons_append, starts, ih, span_cons, Nat.add_assoc]

variable {blocks : List Block}

theorem starts_bounds : ∀ {addr p : Nat}, p ∈ starts addr blocks →
    addr ≤ p ∧ p + 32 ≤ addr + span 32 blocks := by
  induction blocks with
  | nil => intro addr p member; cases member
  | cons block rest ih =>
    intro addr p member
    simp only [span_cons]
    rcases List.mem_cons.mp member with rfl | later
    · omega
    · have bounds := ih later
      omega

variable {fresh : Nat → Nat}

/-- Only the header words matter. -/
theorem Laid.congr : ∀ {prev addr next : Nat},
    Laid m prev addr blocks next →
    (∀ p ∈ starts addr blocks, ∀ offset < 32, fresh (p + offset) = m (p + offset)) →
    Laid fresh prev addr blocks next := by
  induction blocks with
  | nil => intro prev addr next _ _; exact trivial
  | cons block rest ih =>
    intro prev addr next laid same
    have here := same addr List.mem_cons_self
    refine ⟨⟨?_, ?_, ?_, ?_⟩, ih laid.2 fun p member =>
      same p (List.mem_cons_of_mem addr member)⟩
    · exact (here 0 (by omega)).trans laid.1.size
    · exact (here 8 (by omega)).trans laid.1.free
    · exact (here 16 (by omega)).trans laid.1.next
    · exact (here 24 (by omega)).trans laid.1.prev

theorem Laid.frame {prev addr next : Nat} (laid : Laid m prev addr blocks next)
    (same : ∀ a, addr ≤ a → a < addr + span 32 blocks → fresh a = m a) :
    Laid fresh prev addr blocks next := by
  refine laid.congr ?_
  intro p member offset inside
  have bounds := starts_bounds member
  exact same _ (by omega) (by omega)

/-- The first header may be given a new predecessor. -/
theorem Laid.relink {prev prev' addr next : Nat} (laid : Laid m prev addr blocks next)
    (same : ∀ a, addr ≤ a → a < addr + span 32 blocks → a ≠ addr + 24 → fresh a = m a)
    (link : blocks ≠ [] → fresh (addr + 24) = prev') : Laid fresh prev' addr blocks next := by
  cases blocks with
  | nil => exact trivial
  | cons block rest =>
    simp only [span_cons] at same
    refine ⟨⟨?_, ?_, ?_, link (List.cons_ne_nil block rest)⟩, ?_⟩
    · exact (same addr (by omega) (by omega) (by omega)).trans laid.1.size
    · exact (same _ (by omega) (by omega) (by omega)).trans laid.1.free
    · exact (same _ (by omega) (by omega) (by omega)).trans laid.1.next
    · exact laid.2.frame fun a lower upper => same a (by omega) (by omega) (by omega)

/-- The payloads of the blocks that are not free. -/
def used : Nat → List Block → List Nat
  | _, [] => []
  | addr, block :: rest =>
    (if block.free = true then [] else [addr + 32]) ++ used (addr + (32 + block.size)) rest

theorem used_append : ∀ {addr : Nat},
    used addr (front ++ back) = used addr front ++ used (addr + span 32 front) back := by
  induction front with
  | nil => intro addr; rfl
  | cons block front ih =>
    intro addr
    simp only [List.cons_append, used, ih, span_cons, Nat.add_assoc, List.append_assoc]

theorem mem_used : ∀ {addr ptr : Nat}, ptr ∈ used addr blocks →
    ∃ front block back, blocks = front ++ block :: back ∧ block.free = false ∧
      ptr = addr + span 32 front + 32 := by
  induction blocks with
  | nil => intro addr ptr member; cases member
  | cons block rest ih =>
    intro addr ptr member
    rcases List.mem_append.mp member with here | later
    · split at here
      · cases here
      · rename_i taken
        refine ⟨[], block, rest, rfl, by simpa using taken, ?_⟩
        simpa using here
    · obtain ⟨front, found, back, rfl, taken, rfl⟩ := ih later
      refine ⟨block :: front, found, back, rfl, taken, ?_⟩
      simp only [span_cons]
      omega

theorem used_nil : ∀ {addr : Nat}, used addr blocks = [] →
    ∀ block ∈ blocks, block.free = true := by
  induction blocks with
  | nil => intro addr _ block member; cases member
  | cons first rest ih =>
    intro addr empty block member
    obtain ⟨head, tail⟩ := List.append_eq_nil_iff.mp empty
    rcases List.mem_cons.mp member with rfl | later
    · by_contra taken
      simp [taken] at head
    · exact ih tail block later

end OsArmv8a.Heap
