import OsArmv8a.Ramfs

/-! The choice of a mount in `vfs_lookup`. Mount paths are compared with the start of the path byte by
byte, so a mount can be chosen whose last component is only the start of a component of the path. -/

set_option autoImplicit false

namespace OsArmv8a.Vfs

open Ramfs (Path PathByte)

theorem slash_ne : (47 : UInt8) ≠ 0 := by decide

def slash : PathByte := ⟨47, slash_ne⟩

/-- `struct vfs_mount`; `root` stands for its root vnode. -/
structure Mount (α : Type) where
  path : Path
  root : α

/-- The inner loop: how far the two paths agree, and what is left of the mount path then. -/
def agree : Path → Path → Nat × Path
  | a :: p1, b :: p2 =>
    if a = b then ((agree p1 p2).1 + 1, (agree p1 p2).2) else (0, b :: p2)
  | _, p2 => (0, p2)

section Lookup

variable {α : Type}

/-- The loop over the mounts, the most recent one first. -/
def lookupLoop (path : Path) : List (Mount α) → Option (Mount α) → Nat → Option (Mount α)
  | [], bestMnt, _ => bestMnt
  | mnt :: next, bestMnt, maxLen =>
    if (agree path mnt.path).2 = [] ∧ (maxLen < (agree path mnt.path).1 ∨ bestMnt.isNone = true) then
      lookupLoop path next (some mnt) (agree path mnt.path).1
    else lookupLoop path next bestMnt maxLen

/-- `vfs_lookup`: the mount that the lookup is forwarded to, or `none`. -/
def vfsLookup (mounts : List (Mount α)) (path : Path) : Option (Mount α) :=
  if path.head? = some slash then lookupLoop path mounts none 0 else none

/-- The mount path is the path, or all its components are the first ones of the path, or it is the root. -/
def Mount.Contains (mnt : Mount α) (path : Path) : Prop :=
  mnt.path = path ∨ mnt.path ++ [slash] <+: path ∨ mnt.path = [slash]

instance (mnt : Mount α) (path : Path) : Decidable (mnt.Contains path) :=
  inferInstanceAs (Decidable (_ ∨ _ ∨ _))

/-- Nothing in the list that meets the condition has a longer mount path. -/
def Longest (mounts : List (Mount α)) (cond : Mount α → Prop) (mnt : Mount α) : Prop :=
  cond mnt ∧ ∀ other ∈ mounts, cond other → other.path.length ≤ mnt.path.length

instance (mounts : List (Mount α)) (cond : Mount α → Prop) [DecidablePred cond] (mnt : Mount α) :
    Decidable (Longest mounts cond mnt) := inferInstanceAs (Decidable (_ ∧ _))

/-- The mount that the path belongs to: the first of the longest ones that contain it. -/
def resolve (mounts : List (Mount α)) (path : Path) : Option (Mount α) :=
  mounts.find? fun mnt => Longest mounts (·.Contains path) mnt

variable {mounts : List (Mount α)} {path : Path} {mnt other : Mount α}

theorem agree_prefix (path mount : Path) :
    ((agree path mount).2 = [] ↔ mount <+: path) ∧
      ((agree path mount).2 = [] → (agree path mount).1 = mount.length) := by
  induction path generalizing mount with
  | nil => cases mount <;> simp [agree]
  | cons a p1 ih =>
    cases mount with
    | nil => simp [agree]
    | cons b p2 =>
      by_cases same : a = b
      · subst same
        simpa [agree] using ih p2
      · have apart : b ≠ a := fun equal => same equal.symm
        simp [agree, same, apart]

/-- What the loop has chosen among the mounts it has seen: the first of the longest matching ones. -/
def Chosen (path : Path) (seen : List (Mount α)) : Option (Mount α) → Nat → Prop
  | none, _ => ∀ mnt ∈ seen, ¬ mnt.path <+: path
  | some mnt, maxLen => maxLen = mnt.path.length ∧ mnt.path <+: path ∧ ∃ front back,
    seen = front ++ mnt :: back ∧
      (∀ other ∈ front, other.path <+: path → other.path.length < mnt.path.length) ∧
      ∀ other ∈ back, other.path <+: path → other.path.length ≤ mnt.path.length

theorem Chosen.le {seen : List (Mount α)} {maxLen : Nat} (chosen : Chosen path seen (some mnt) maxLen)
    (member : other ∈ seen) (matching : other.path <+: path) :
    other.path.length ≤ mnt.path.length := by
  obtain ⟨-, -, front, back, rfl, before, after⟩ := chosen
  rcases List.mem_append.mp member with early | late
  · exact Nat.le_of_lt (before other early matching)
  · rcases List.mem_cons.mp late with rfl | late
    · exact Nat.le_refl _
    · exact after other late matching

theorem lookupLoop_chosen (next : List (Mount α)) : ∀ {seen : List (Mount α)}
    {bestMnt : Option (Mount α)} {maxLen : Nat}, Chosen path seen bestMnt maxLen →
    ∃ len, Chosen path (seen ++ next) (lookupLoop path next bestMnt maxLen) len := by
  induction next with
  | nil =>
    intro seen bestMnt maxLen chosen
    rw [List.append_nil]
    exact ⟨maxLen, chosen⟩
  | cons mnt next ih =>
    intro seen bestMnt maxLen chosen
    obtain ⟨matching, length⟩ := agree_prefix path mnt.path
    rw [show seen ++ mnt :: next = (seen ++ [mnt]) ++ next by simp]
    unfold lookupLoop
    split
    · rename_i taken
      refine ih ⟨length taken.1, matching.mp taken.1, seen, [], rfl, ?_, nofun⟩
      intro other member also
      cases bestMnt with
      | none => exact absurd also (chosen other member)
      | some best =>
        have longer : maxLen < mnt.path.length := by
          have more := taken.2.resolve_right (by simp)
          rwa [length taken.1] at more
        have most := chosen.le member also
        have same := chosen.1
        omega
    · rename_i kept
      refine ih ?_
      cases bestMnt with
      | none =>
        intro other member
        rcases List.mem_append.mp member with early | late
        · exact chosen other early
        · cases List.mem_singleton.mp late
          exact fun also => kept ⟨matching.mpr also, Or.inr rfl⟩
      | some best =>
        obtain ⟨same, found, front, back, rfl, before, after⟩ := chosen
        refine ⟨same, found, front, back ++ [mnt], by simp, before, ?_⟩
        intro other member also
        rcases List.mem_append.mp member with early | late
        · exact after other early also
        · cases List.mem_singleton.mp late
          by_contra longer
          refine kept ⟨matching.mpr also, Or.inl ?_⟩
          rw [length (matching.mpr also)]
          omega

/-- The choice is none of the mounts, or a longest one and longer than those in front of it. -/
theorem lookupLoop_cases (mounts : List (Mount α)) (path : Path) :
    lookupLoop path mounts none 0 = none ∧ (∀ mnt ∈ mounts, ¬ mnt.path <+: path) ∨
      ∃ mnt front back, lookupLoop path mounts none 0 = some mnt ∧ mounts = front ++ mnt :: back ∧
        Longest mounts (·.path <+: path) mnt ∧
        ∀ other ∈ front, other.path <+: path → other.path.length < mnt.path.length := by
  obtain ⟨len, chosen⟩ := @lookupLoop_chosen α path mounts [] none 0 nofun
  cases result : lookupLoop path mounts none 0 with
  | none =>
    rw [result] at chosen
    exact Or.inl ⟨rfl, chosen⟩
  | some mnt =>
    rw [result] at chosen
    have most := fun other => @Chosen.le α path mnt other mounts len chosen
    obtain ⟨-, found, front, back, split, before, -⟩ := chosen
    exact Or.inr ⟨mnt, front, back, rfl, split, ⟨found, most⟩, before⟩

theorem Mount.Contains.starts (contains : mnt.Contains path) (absolute : path.head? = some slash) :
    mnt.path <+: path := by
  rcases contains with same | inside | root
  · exact same ▸ List.prefix_rfl
  · exact (List.prefix_append _ _).trans inside
  · obtain ⟨rest, rfl⟩ := List.head?_eq_some_iff.mp absolute
    rw [root]
    exact ⟨rest, rfl⟩

/-- A path is looked up in the mount it belongs to if and only if the longest mount path that the path
starts with, when there is one, contains it. -/
theorem vfsLookup_resolves (mounts : List (Mount α)) (rest : Path) :
    vfsLookup mounts (slash :: rest) = resolve mounts (slash :: rest) ↔
      ∀ mnt ∈ mounts, Longest mounts (·.path <+: slash :: rest) mnt → mnt.Contains (slash :: rest) := by
  have absolute : (slash :: rest).head? = some slash := rfl
  rw [vfsLookup, if_pos absolute, resolve]
  generalize slash :: rest = path at absolute
  rcases lookupLoop_cases mounts path with ⟨result, none⟩ | ⟨best, front, back, result, split, longest, before⟩
  · rw [result]
    refine iff_of_true ?_ fun mnt member longest => absurd longest.1 (none mnt member)
    symm
    rw [List.find?_eq_none]
    intro mnt member chosen
    exact none mnt member ((of_decide_eq_true chosen).1.starts absolute)
  rw [result]
  have member : best ∈ mounts := by simp [split]
  constructor
  · intro same mnt listed also
    have chosen := List.find?_some same.symm
    have contains := (of_decide_eq_true chosen).1
    -- two starts of one path with the same length are the same
    have length : mnt.path.length = best.path.length :=
      Nat.le_antisymm (longest.2 mnt listed also.1) (also.2 best member longest.1)
    have equal : mnt.path = best.path :=
      (List.prefix_of_prefix_length_le also.1 longest.1 (Nat.le_of_eq length)).eq_of_length length
    unfold Mount.Contains at contains ⊢
    rwa [equal]
  · intro whole
    have contains := whole best member longest
    symm
    rw [List.find?_eq_some_iff_append]
    refine ⟨decide_eq_true ⟨contains, fun other listed also =>
      longest.2 other listed (also.starts absolute)⟩, front, back, split, ?_⟩
    intro other listed
    simp only [Bool.not_eq_true', decide_eq_false_iff_not]
    intro chosen
    have shorter := before other listed (chosen.1.starts absolute)
    have bound := chosen.2 best member contains
    omega

/-- The path `/ab` and a mount on `/a`: the lookup goes to a file system that does not contain it. -/
theorem vfsLookup_halfComponent :
    (vfsLookup [Mount.mk [slash, ⟨97, by decide⟩] 1, ⟨[slash], 0⟩]
        [slash, ⟨97, by decide⟩, ⟨98, by decide⟩]).map (·.root) = some 1 ∧
      (resolve [Mount.mk [slash, ⟨97, by decide⟩] 1, ⟨[slash], 0⟩]
        [slash, ⟨97, by decide⟩, ⟨98, by decide⟩]).map (·.root) = some 0 := by
  decide

end Lookup

end OsArmv8a.Vfs
