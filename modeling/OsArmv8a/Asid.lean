import OsArmv8a.Lib.Bitmap
import OsArmv8a.Mmu

/-! The ASIDs of `mmu_vmsa.c`: the bitmap with its rotating cursor, and the contexts that hold them. -/

set_option autoImplicit false

namespace OsArmv8a.Asid

/-- `asid_bitmap` and `next_asid`. -/
structure Asids where
  bitmap : Nat → BitVec 64
  next : Nat

namespace Asids

/-- The loop of `mmu_asid_alloc` with the attempts that are left. -/
def search : Nat → Asids → Nat × Asids
  | 0, s => (0, s)
  | attempts + 1, s =>
    let asid := s.next
    let next := (s.next + 1) % 2 ^ 32
    let s := { s with next := if 255 < next then 1 else next }
    if asid = 0 ∨ 255 < asid ∨ Bitmap.test s.bitmap asid = true then search attempts s
    else (asid, { s with bitmap := Bitmap.set s.bitmap asid })

/-- `mmu_asid_alloc`. -/
def alloc (s : Asids) : Nat × Asids := search 255 s

/-- `mmu_asid_free`. -/
def free (s : Asids) (asid : Nat) : Asids :=
  if asid = 0 ∨ 255 < asid then s
  else if Bitmap.test s.bitmap asid = false then s
  else { s with bitmap := Bitmap.clear s.bitmap asid }

end Asids

/-- A context is named by the block that `kmalloc` gave it. -/
structure State where
  asids : Asids
  live : Nat → Option Nat

/-- How far `mmu_context_create` gets: it finds no block, no root page or no room for the page, or
all three. -/
inductive Outcome where
  | noBlock
  | noRoot
  | noRoom
  | made
  deriving DecidableEq

inductive Label where
  | create (id : Nat) (outcome : Outcome)
  | release (id : Nat)
  deriving DecidableEq

namespace State

def setLive (s : State) (id : Nat) (asid : Option Nat) : State :=
  { s with live := fun other => if other = id then asid else s.live other }

/-- `mmu_context_create`. -/
def contextCreate (s : State) (id : Nat) : Outcome → State
  | .noBlock | .noRoot => s
  | .noRoom =>
    let (asid, asids) := s.asids.alloc
    if asid = 0 then { s with asids := asids } else { s with asids := asids.free asid }
  | .made =>
    let (asid, asids) := s.asids.alloc
    if asid = 0 then { s with asids := asids } else { s with asids := asids }.setLive id (some asid)

/-- `mmu_context_release`. -/
def contextRelease (s : State) (id asid : Nat) : State :=
  { s with asids := s.asids.free asid }.setLive id none

end State

def step (s : State) : Label → Option State
  | .create id outcome => if s.live id = none then some (s.contextCreate id outcome) else none
  | .release id => (s.live id).map (s.contextRelease id)

def init : State := { asids := { bitmap := fun _ => 0, next := 1 }, live := fun _ => none }

/-- The ASID that the cursor meets in attempt `i`. -/
def spot (next i : Nat) : Nat := (next - 1 + i) % 255 + 1

section Search

variable {s : Asids}

theorem spot_range (next i : Nat) : 1 ≤ spot next i ∧ spot next i ≤ 255 := by
  unfold spot
  omega

theorem spot_zero {next : Nat} (low : 1 ≤ next) (high : next ≤ 255) : spot next 0 = next := by
  unfold spot
  omega

theorem spot_succ {next : Nat} (low : 1 ≤ next) (high : next ≤ 255) (i : Nat) :
    spot (if 255 < (next + 1) % 2 ^ 32 then 1 else (next + 1) % 2 ^ 32) i = spot next (i + 1) := by
  unfold spot
  split <;> omega

/-- A full turn of the cursor meets every ASID. -/
theorem spot_covers (next : Nat) {asid : Nat} (low : 1 ≤ asid) (high : asid ≤ 255) :
    ∃ i, i < 255 ∧ spot next i = asid := by
  refine ⟨(asid - 1 + (255 - (next - 1) % 255)) % 255, Nat.mod_lt _ (by decide), ?_⟩
  unfold spot
  omega

/-- The search stops at the first ASID from the cursor on that is not in use, or finds none. -/
theorem search_cases (attempts : Nat) (low : 1 ≤ s.next) (high : s.next ≤ 255) :
    (∀ i, i < attempts → Bitmap.test s.bitmap (spot s.next i) = true) ∧
        s.search attempts = (0, { s with next := spot s.next attempts }) ∨
      ∃ i, i < attempts ∧ Bitmap.test s.bitmap (spot s.next i) = false ∧
        s.search attempts = (spot s.next i,
          { bitmap := Bitmap.set s.bitmap (spot s.next i), next := spot s.next (i + 1) }) := by
  induction attempts generalizing s with
  | zero =>
    refine Or.inl ⟨fun i small => absurd small (Nat.not_lt_zero i), ?_⟩
    rw [spot_zero low high]
    rfl
  | succ attempts ih =>
    have turns := spot_succ low high
    have here := spot_zero low high
    have inside : ∀ next, next = (if 255 < (s.next + 1) % 2 ^ 32 then 1 else (s.next + 1) % 2 ^ 32) →
        1 ≤ next ∧ next ≤ 255 := by
      rintro next rfl
      split <;> omega
    obtain ⟨moved, next⟩ : ∃ next,
        next = if 255 < (s.next + 1) % 2 ^ 32 then 1 else (s.next + 1) % 2 ^ 32 := ⟨_, rfl⟩
    obtain ⟨above, below⟩ := inside moved next
    rw [← next] at turns
    simp only [Asids.search, ← next]
    by_cases used : Bitmap.test s.bitmap s.next = true
    · rw [if_pos (Or.inr (Or.inr used))]
      rcases ih (s := { s with next := moved }) above below with ⟨all, failed⟩ | ⟨i, small, free, found⟩
      · refine Or.inl ⟨fun i small => ?_, ?_⟩
        · cases i with
          | zero => rwa [here]
          | succ i => exact turns i ▸ all i (by omega)
        · rw [failed, ← turns]
      · refine Or.inr ⟨i + 1, by omega, turns i ▸ free, ?_⟩
        rw [found, ← turns, ← turns]
    · have first : s.next = 0 ∨ 255 < s.next ∨ Bitmap.test s.bitmap s.next = true → False := by
        rintro (zero | large | busy)
        · omega
        · omega
        · exact used busy
      rw [if_neg first]
      refine Or.inr ⟨0, by omega, by rw [here]; exact Bool.eq_false_of_not_eq_true used, ?_⟩
      rw [here, ← turns, spot_zero above below]

theorem alloc_cases (low : 1 ≤ s.next) (high : s.next ≤ 255) :
    (∀ asid, 1 ≤ asid → asid ≤ 255 → Bitmap.test s.bitmap asid = true) ∧ s.alloc = (0, s) ∨
      ∃ asid next, (1 ≤ asid ∧ asid ≤ 255) ∧ (1 ≤ next ∧ next ≤ 255) ∧
        Bitmap.test s.bitmap asid = false ∧
        s.alloc = (asid, { bitmap := Bitmap.set s.bitmap asid, next := next }) := by
  rcases search_cases 255 low high with ⟨all, failed⟩ | ⟨i, _, free, found⟩
  · refine Or.inl ⟨fun asid above below => ?_, failed.trans ?_⟩
    · obtain ⟨i, small, rfl⟩ := spot_covers s.next above below
      exact all i small
    · have turn : spot s.next 255 = s.next := by
        unfold spot
        omega
      rw [turn]
  · exact Or.inr ⟨_, _, spot_range s.next i, spot_range s.next (i + 1), free, found⟩

theorem free_test (s : Asids) {asid : Nat} (above : 1 ≤ asid) (below : asid ≤ 255) (other : Nat) :
    Bitmap.test (s.free asid).bitmap other = (decide (other ≠ asid) && Bitmap.test s.bitmap other) := by
  unfold Asids.free
  rw [if_neg (by omega)]
  split
  · rename_i unused
    by_cases same : other = asid
    · simp [same, unused]
    · simp [same]
  · exact Bitmap.test_clear s.bitmap asid other

theorem free_next (asid : Nat) : (s.free asid).next = s.next := by
  unfold Asids.free
  split
  · rfl
  · split <;> rfl

end Search

/-- The contexts hold distinct ASIDs, which are the ones that the bitmap marks. -/
structure Exact (s : State) : Prop where
  distinct : ∀ a b asid, s.live a = some asid → s.live b = some asid → a = b
  range : ∀ id asid, s.live id = some asid → 1 ≤ asid ∧ asid ≤ 255
  marked : ∀ asid, Bitmap.test s.asids.bitmap asid = true ↔ ∃ id, s.live id = some asid
  cursor : 1 ≤ s.asids.next ∧ s.asids.next ≤ 255

section Runs

variable {s r : State} {label : Label}

/-- Only the cursor has moved. -/
theorem Exact.turn (inv : Exact s) {asids : Asids} (cursor : 1 ≤ asids.next ∧ asids.next ≤ 255)
    (same : ∀ asid, Bitmap.test asids.bitmap asid = Bitmap.test s.asids.bitmap asid) :
    Exact { s with asids := asids } :=
  ⟨inv.distinct, inv.range, fun asid => by rw [same]; exact inv.marked asid, cursor⟩

theorem Exact.made (inv : Exact s) {id asid next : Nat} (fresh : s.live id = none)
    (range : 1 ≤ asid ∧ asid ≤ 255) (cursor : 1 ≤ next ∧ next ≤ 255)
    (free : Bitmap.test s.asids.bitmap asid = false) :
    Exact ({ s with asids := ⟨Bitmap.set s.asids.bitmap asid, next⟩ }.setLive id (some asid)) := by
  have unheld : ∀ b, s.live b ≠ some asid := by
    intro b held
    rw [(inv.marked asid).mpr ⟨b, held⟩] at free
    cases free
  refine ⟨?_, ?_, ?_, cursor⟩
  · intro a b other first second
    simp only [State.setLive] at first second
    split at first <;> split at second
    · rename_i left right
      rw [left, right]
    · cases first
      exact absurd second (unheld b)
    · cases second
      exact absurd first (unheld a)
    · exact inv.distinct a b other first second
  · intro b other held
    simp only [State.setLive] at held
    split at held
    · cases held
      exact range
    · exact inv.range b other held
  · intro other
    show Bitmap.test (Bitmap.set s.asids.bitmap asid) other = true ↔
      ∃ b, (if b = id then some asid else s.live b) = some other
    rw [Bitmap.test_set, Bool.or_eq_true, decide_eq_true_eq, inv.marked]
    constructor
    · rintro (rfl | ⟨b, held⟩)
      · exact ⟨id, if_pos rfl⟩
      · refine ⟨b, (if_neg ?_).trans held⟩
        rintro rfl
        rw [fresh] at held
        cases held
    · rintro ⟨b, held⟩
      split at held
      · cases held
        exact Or.inl rfl
      · exact Or.inr ⟨b, held⟩

theorem Exact.create (inv : Exact s) {id : Nat} (outcome : Outcome) (fresh : s.live id = none) :
    Exact (s.contextCreate id outcome) := by
  cases outcome with
  | noBlock => exact inv
  | noRoot => exact inv
  | noRoom =>
    unfold State.contextCreate
    rcases alloc_cases inv.cursor.1 inv.cursor.2 with ⟨_, failed⟩ | ⟨asid, next, range, cursor, free, found⟩
    · simp only [failed, if_pos]
      exact inv
    · simp only [found]
      rw [if_neg (by omega)]
      refine inv.turn (by rw [free_next]; exact cursor) fun other => ?_
      rw [free_test _ range.1 range.2]
      by_cases same : other = asid
      · simp [same, free]
      · simp [same]
  | made =>
    unfold State.contextCreate
    rcases alloc_cases inv.cursor.1 inv.cursor.2 with ⟨_, failed⟩ | ⟨asid, next, range, cursor, free, found⟩
    · simp only [failed, if_pos]
      exact inv
    · simp only [found]
      rw [if_neg (by omega)]
      exact inv.made fresh range cursor free

theorem Exact.release (inv : Exact s) {id asid : Nat} (held : s.live id = some asid) :
    Exact (s.contextRelease id asid) := by
  obtain ⟨above, below⟩ := inv.range id asid held
  have live : ∀ other, (s.contextRelease id asid).live other =
      if other = id then none else s.live other := fun other => rfl
  have kept : ∀ {other n}, (s.contextRelease id asid).live other = some n →
      other ≠ id ∧ s.live other = some n := by
    intro other n now
    rw [live] at now
    split at now
    · cases now
    · exact ⟨‹_›, now⟩
  refine ⟨?_, ?_, ?_, ?_⟩
  · exact fun a b n first second => inv.distinct a b n (kept first).2 (kept second).2
  · exact fun other n now => inv.range other n (kept now).2
  · intro n
    show Bitmap.test (s.asids.free asid).bitmap n = true ↔ _
    rw [free_test _ above below, Bool.and_eq_true, decide_eq_true_eq, inv.marked]
    constructor
    · rintro ⟨other, holder, here⟩
      refine ⟨holder, ?_⟩
      rw [live, if_neg]
      · exact here
      · rintro rfl
        exact other (Option.some.inj (here.symm.trans held))
    · rintro ⟨holder, now⟩
      obtain ⟨apart, here⟩ := kept now
      refine ⟨?_, holder, here⟩
      rintro rfl
      exact apart (inv.distinct holder id n here held)
  · show 1 ≤ (s.asids.free asid).next ∧ (s.asids.free asid).next ≤ 255
    rw [free_next]
    exact inv.cursor

theorem Exact.step (inv : Exact s) (taken : Asid.step s label = some r) : Exact r := by
  cases label with
  | create id outcome =>
    obtain ⟨fresh, rfl⟩ := Transition.of_guard taken
    exact inv.create outcome fresh
  | release id =>
    obtain ⟨asid, held, rfl⟩ := Option.map_eq_some_iff.mp taken
    exact inv.release held

theorem init_exact : Exact init where
  distinct _ _ _ held := nomatch held
  range _ _ held := nomatch held
  marked asid := by simp [init]
  cursor := by decide

/-- ASIDs are distinct and marked exactly while they are held, and allocation fails, wherever the
cursor is, only when contexts hold all of them. -/
theorem run_asids (reached : Transition.Reachable (· = init) step Transition.always s) :
    (∀ a b asid, s.live a = some asid → s.live b = some asid → a = b) ∧
      (∀ id asid, s.live id = some asid → 1 ≤ asid ∧ asid ≤ 255) ∧
      (∀ asid, Bitmap.test s.asids.bitmap asid = true ↔ ∃ id, s.live id = some asid) ∧
      (1 ≤ s.asids.next ∧ s.asids.next ≤ 255) ∧
      ∀ next, 1 ≤ next → next ≤ 255 → ({ s.asids with next := next }.alloc.1 = 0 ↔
        ∀ asid, 1 ≤ asid → asid ≤ 255 → ∃ id, s.live id = some asid) := by
  have inv : Exact s := reached.invariant (fun s initial => initial ▸ init_exact)
    fun _ _ _ inv _ taken => inv.step taken
  refine ⟨inv.distinct, inv.range, inv.marked, inv.cursor, fun next above below => ?_⟩
  rcases alloc_cases (s := { s.asids with next := next }) above below with
    ⟨all, failed⟩ | ⟨asid, _, range, _, free, found⟩
  · rw [failed]
    exact iff_of_true rfl fun asid low high => (inv.marked asid).mp (all asid low high)
  · rw [found]
    refine iff_of_false (by dsimp only; omega) fun all => ?_
    have marked := (inv.marked asid).mpr (all asid range.1 range.2)
    rw [show Bitmap.test s.asids.bitmap asid = false from free] at marked
    cases marked

end Runs

theorem run_asids_reused : ∃ s, Transition.run step init
    [.create 0 .made, .create 1 .made, .release 0, .create 2 .made] = some s ∧
      s.live 1 = some 2 ∧ s.live 2 = some 3 ∧ (∀ id, s.live id ≠ some 1) ∧
      { s.asids with next := 255 }.alloc.1 ≠ 0 := by
  refine Transition.ends_imp (Q := fun s => s.live 1 = some 2 ∧ s.live 2 = some 3 ∧
    Bitmap.test s.asids.bitmap 1 = false) (by decide +kernel) ?_
  rintro s ran ⟨second, third, unmarked⟩
  obtain ⟨_, _, marked, _, complete⟩ := run_asids (.of_ran rfl ran)
  have unheld : ∀ id, s.live id ≠ some 1 := by
    intro id held
    rw [(marked 1).mpr ⟨id, held⟩] at unmarked
    cases unmarked
  refine ⟨second, third, unheld, fun failed => ?_⟩
  obtain ⟨id, held⟩ := (complete 255 (by decide) (by decide)).mp failed 1 (by decide) (by decide)
  exact unheld id held

section Refinement

variable {s : Asids}

end Refinement

end OsArmv8a.Asid
