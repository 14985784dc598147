import Mathlib

/-! A table of numbered slots, searched by key from the first slot on, is a finite map as long as no
key stands in two slots. -/

set_option autoImplicit false

-- Named, so that the definitions which use numerals as slots hold no proof of their own.
instance neZero4 : NeZero 4 := ⟨by decide⟩

instance neZero8 : NeZero 8 := ⟨by decide⟩

instance neZero32 : NeZero 32 := ⟨by decide⟩

instance neZero64 : NeZero 64 := ⟨by decide⟩

instance lawfulBEqFin32 : LawfulBEq (Fin 32) := inferInstance

namespace SlotTable

variable {n : Nat} {κ ν : Type} [DecidableEq κ]

/-- The first slot with the key. -/
def find (table : Fin n → Option (κ × ν)) (key : κ) : Option (Fin n) :=
  (List.finRange n).find? fun i => (table i).any fun entry => entry.1 = key

def get (table : Fin n → Option (κ × ν)) (key : κ) : Option ν :=
  (find table key).bind fun i => (table i).map Prod.snd

def set (table : Fin n → Option (κ × ν)) (i : Fin n) (entry : Option (κ × ν)) :
    Fin n → Option (κ × ν) :=
  fun j => if j = i then entry else table j

def Distinct (table : Fin n → Option (κ × ν)) : Prop :=
  ∀ i j key v w, table i = some (key, v) → table j = some (key, w) → i = j

/-- A slot where the entry of a key may be written: its own, or an empty one if it has none. -/
def Fits (table : Fin n → Option (κ × ν)) (key : κ) (i : Fin n) : Prop :=
  find table key = some i ∨ find table key = none ∧ table i = none

section Laws

variable {table : Fin n → Option (κ × ν)} {key : κ} {i : Fin n} {v : ν}

theorem matches_iff :
    ((table i).any fun entry => entry.1 = key) = true ↔ ∃ v, table i = some (key, v) := by
  cases here : table i with
  | none => simp
  | some entry =>
    simp only [Option.any_some, decide_eq_true_eq, Option.some.injEq]
    constructor
    · rintro rfl
      exact ⟨entry.2, rfl⟩
    · rintro ⟨v, rfl⟩
      rfl

theorem find_some (found : find table key = some i) : ∃ v, table i = some (key, v) := by
  have matched := List.find?_some found
  exact matches_iff.mp matched

theorem find_none : find table key = none ↔ ∀ i v, table i ≠ some (key, v) := by
  unfold find
  rw [List.find?_eq_none]
  constructor
  · intro missing i v here
    exact missing i (List.mem_finRange i) (matches_iff.mpr ⟨v, here⟩)
  · intro missing i _ matched
    obtain ⟨v, here⟩ := matches_iff.mp matched
    exact missing i v here

theorem find_eq (distinct : Distinct table) (here : table i = some (key, v)) :
    find table key = some i := by
  cases found : find table key with
  | none => exact absurd here (find_none.mp found i v)
  | some j =>
    obtain ⟨w, there⟩ := find_some found
    rw [distinct j i key w v there here]

theorem get_eq_some (distinct : Distinct table) :
    get table key = some v ↔ ∃ i, table i = some (key, v) := by
  unfold get
  constructor
  · intro got
    obtain ⟨i, found, value⟩ := Option.bind_eq_some_iff.mp got
    obtain ⟨w, here⟩ := find_some found
    rw [here] at value
    cases value
    exact ⟨i, here⟩
  · rintro ⟨i, here⟩
    rw [find_eq distinct here]
    simp [here]

/-- An entry for the key stands in no other slot. -/
theorem Fits.other (distinct : Distinct table) (fits : Fits table key i) {j : Fin n}
    (there : table j = some (key, v)) : j = i := by
  rcases fits with found | ⟨missing, _⟩
  · obtain ⟨w, here⟩ := find_some found
    exact distinct j i key v w there here
  · exact absurd there (find_none.mp missing j v)

theorem Distinct.put (distinct : Distinct table) (fits : Fits table key i) (v : ν) :
    Distinct (set table i (some (key, v))) := by
  intro a b k x y first second
  simp only [set] at first second
  split at first <;> split at second
  · rename_i left right
    rw [left, right]
  · cases first
    rename_i left right
    exact absurd (fits.other distinct second) right
  · cases second
    rename_i left right
    exact absurd (fits.other distinct first) left
  · exact distinct a b k x y first second

omit [DecidableEq κ] in
theorem Distinct.remove (distinct : Distinct table) (i : Fin n) : Distinct (set table i none) := by
  intro a b k x y first second
  simp only [set] at first second
  split at first <;> split at second
  · cases first
  · cases first
  · cases second
  · exact distinct a b k x y first second

theorem get_put (distinct : Distinct table) (fits : Fits table key i) (v : ν) (other : κ) :
    get (set table i (some (key, v))) other = if other = key then some v else get table other := by
  apply Option.ext
  intro w
  rw [get_eq_some (distinct.put fits v)]
  by_cases same : other = key
  · subst same
    rw [if_pos rfl]
    constructor
    · rintro ⟨j, there⟩
      simp only [set] at there
      split at there
      · cases there
        rfl
      · exact absurd (fits.other distinct there) ‹_›
    · rintro ⟨⟩
      exact ⟨i, if_pos rfl⟩
  · rw [if_neg same, get_eq_some distinct]
    constructor
    · rintro ⟨j, there⟩
      simp only [set] at there
      split at there
      · cases there
        exact absurd rfl same
      · exact ⟨j, there⟩
    · rintro ⟨j, there⟩
      refine ⟨j, (if_neg ?_).trans there⟩
      rintro rfl
      rcases fits with found | ⟨_, empty⟩
      · obtain ⟨x, here⟩ := find_some found
        rw [here] at there
        cases there
        exact same rfl
      · rw [empty] at there
        cases there

theorem get_remove (distinct : Distinct table) (found : find table key = some i) (other : κ) :
    get (set table i none) other = if other = key then none else get table other := by
  obtain ⟨v, here⟩ := find_some found
  apply Option.ext
  intro w
  rw [get_eq_some (distinct.remove i)]
  by_cases same : other = key
  · subst same
    rw [if_pos rfl]
    refine iff_of_false ?_ nofun
    rintro ⟨j, there⟩
    simp only [set] at there
    split at there
    · cases there
    · exact absurd (distinct j i other w v there here) ‹_›
  · rw [if_neg same, get_eq_some distinct]
    constructor
    · rintro ⟨j, there⟩
      simp only [set] at there
      split at there
      · cases there
      · exact ⟨j, there⟩
    · rintro ⟨j, there⟩
      refine ⟨j, (if_neg ?_).trans there⟩
      rintro rfl
      rw [here] at there
      cases there
      exact same rfl

end Laws

end SlotTable
