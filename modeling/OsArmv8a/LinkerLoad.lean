import OsArmv8a.Linker

/-! Whether library loading ends: `ld_load_object` and `ld_load_needed` call each other without a
depth counter, and a load that fails takes back the entry it has made. -/

set_option autoImplicit false

namespace OsArmv8a.Linker

variable {α : Type}

/-- `g_objects` with a `g_object_count` that never exceeds `MAX_OBJECTS`. -/
abbrev Table (α : Type) : Type := { st : Loader α // st.objects.length ≤ maxObjects }

namespace Table

/-- `&g_objects[g_object_count++]`. -/
def push (t : Table α) (room : t.val.objects.length < maxObjects) (object : Object α) : Table α :=
  ⟨t.val.push object, by
    rw [Loader.push_objects, List.length_append, List.length_singleton]
    exact room⟩

/-- `g_object_count--`. -/
def pop (t : Table α) : Table α :=
  ⟨{ t.val with objects := t.val.objects.dropLast }, by
    rw [List.length_dropLast]
    exact Nat.le_trans (Nat.sub_le _ _) t.property⟩

def withKernel (t : Table α) (kernel : Kernel) : Table α := ⟨t.val.withKernel kernel, t.property⟩

def advance (t : Table α) : Table α :=
  ⟨t.val.advance, by
    rw [Loader.advance_objects]
    exact t.property⟩

theorem pop_push (t : Table α) (room : t.val.objects.length < maxObjects) (object : Object α)
    (kernel : Kernel) : ((t.push room object).withKernel kernel).pop.val = t.val.withKernel kernel := by
  simp [pop, withKernel, push, Loader.withKernel, Loader.push]

end Table

/-- A call that has returned: the table is the one of `loadObject`, no name came in twice, and
without an object it is as before. -/
structure Returned (before after : Table α) (done : Bool) (loaded : Loader α) : Prop where
  table : after.val = loaded
  once : before.val.names.Nodup → after.val.names.Nodup
  failed : done = false → after.val.objects = before.val.objects

theorem Returned.refl (t : Table α) (done : Bool) : Returned t t done t.val :=
  ⟨rfl, id, fun _ => rfl⟩

variable [DecidableEq α] (files : α → Option (SharedObject α))

/-- `ld_load_object`: whether it returns an object, and the table. The result is `none` when the
recursion goes deeper than the fuel. -/
def ldLoadObject : Nat → Bool → Table α → α → Nat → Option (Bool × Table α)
  | 0, _, _, _, _ => none
  | fuel + 1, library, t, path, bias =>
    if path ∈ t.val.names then some (true, t)
    else if room : t.val.objects.length < maxObjects then
      let entered := t.push room { name := path, base := bias, library := library }
      match mapObject files t.val.kernel path with
      | (none, kernel) => some (false, (entered.withKernel kernel).pop)
      | (some needed, kernel) =>
        (needed.foldlM (fun t lib =>
          (ldLoadObject fuel true t lib t.val.nextBias).map fun loaded => loaded.2.advance)
          (entered.withKernel kernel)).map fun t => (true, t)
    else some (false, t)

/-- `ld_load_needed`. -/
def ldLoadNeeded (fuel : Nat) (t : Table α) (needed : List α) : Option (Table α) :=
  needed.foldlM (fun t lib =>
    (ldLoadObject files fuel true t lib t.val.nextBias).map fun loaded => loaded.2.advance) t

variable {files}

theorem loadObject_known (depth : Nat) (library : Bool) {st : Loader α} {path : α} (bias : Nat)
    (stops : path ∈ st.names ∨ maxObjects ≤ st.objects.length) :
    loadObject files depth library st path bias = st := by
  cases depth with
  | zero => rfl
  | succ depth =>
    rw [loadObject_succ]
    rcases stops with known | full
    · rw [if_pos known]
    · rw [if_pos full, ite_self]

/-- The loop returns when its calls do. -/
theorem ldLoadNeeded_returns {fuel depth : Nat}
    (call : ∀ (t : Table α) (path : α) (bias : Nat),
      maxObjects ≤ depth + t.val.objects.length → ∃ done after,
        ldLoadObject files fuel true t path bias = some (done, after) ∧
        Returned t after done (loadObject files depth true t.val path bias))
    (needed : List α) : ∀ t : Table α, maxObjects ≤ depth + t.val.objects.length →
      ∃ after, ldLoadNeeded files fuel t needed = some after ∧
        Returned t after true (loadNeeded files depth t.val needed) := by
  induction needed with
  | nil => exact fun t _ => ⟨t, rfl, .refl t true⟩
  | cons lib rest ih =>
    intro t room
    obtain ⟨done, after, called, returned⟩ := call t lib t.val.nextBias room
    have grows := loadObject_length files depth true t.val lib t.val.nextBias
    rw [← returned.table] at grows
    obtain ⟨last, looped, further⟩ := ih after.advance (by
      show maxObjects ≤ depth + after.val.advance.objects.length
      rw [Loader.advance_objects]
      omega)
    refine ⟨last, ?_, ?_, ?_, nofun⟩
    · rw [ldLoadNeeded, List.foldlM_cons, called]
      exact looped
    · rw [further.table, loadNeeded_cons, ← returned.table]
      rfl
    · intro distinct
      apply further.once
      show after.val.advance.names.Nodup
      rw [Loader.advance_names]
      exact returned.once distinct

/-- The recursion is no deeper than the table has room: each level has entered an object before it
calls the next one, and gives it back only when there is no next one. -/
theorem ldLoadObject_returns (depth : Nat) : ∀ (library : Bool) (t : Table α) (path : α) (bias : Nat),
    maxObjects ≤ depth + t.val.objects.length → ∃ done after,
      ldLoadObject files (depth + 1) library t path bias = some (done, after) ∧
      Returned t after done (loadObject files depth library t.val path bias) := by
  induction depth with
  | zero =>
    intro library t path bias full
    rw [Nat.zero_add] at full
    rw [loadObject_known 0 library bias (Or.inr full), ldLoadObject]
    by_cases known : path ∈ t.val.names
    · exact ⟨true, t, if_pos known, .refl t true⟩
    · rw [if_neg known, dif_neg (by omega)]
      exact ⟨false, t, rfl, .refl t false⟩
  | succ depth ih =>
    intro library t path bias room
    by_cases known : path ∈ t.val.names
    · rw [loadObject_known _ library bias (Or.inl known), ldLoadObject]
      exact ⟨true, t, if_pos known, .refl t true⟩
    by_cases full : maxObjects ≤ t.val.objects.length
    · rw [loadObject_known _ library bias (Or.inr full), ldLoadObject, if_neg known,
        dif_neg (by omega)]
      exact ⟨false, t, rfl, .refl t false⟩
    rw [ldLoadObject, if_neg known, dif_pos (by omega), loadObject_succ, if_neg known, if_neg full]
    cases mapped : mapObject files t.val.kernel path with
    | mk outcome kernel =>
      cases outcome with
      | none =>
        have same := t.pop_push (by omega) { name := path, base := bias, library := library } kernel
        refine ⟨false, _, rfl, same, fun distinct => ?_, fun _ => ?_⟩
        · rwa [same, Loader.withKernel_names]
        · rw [same, Loader.withKernel_objects]
      | some needed =>
        let object : Object α := { name := path, base := bias, library := library }
        have length : (t.val.push object).objects.length = t.val.objects.length + 1 := by
          rw [Loader.push_objects, List.length_append, List.length_singleton]
        obtain ⟨after, looped, returned⟩ := ldLoadNeeded_returns (ih true) needed
          ((t.push (by omega) object).withKernel kernel) (by
            show maxObjects ≤ depth + (t.val.push object).objects.length
            omega)
        refine ⟨true, after, congrArg (Option.map _) looped, returned.table, ?_, nofun⟩
        intro distinct
        apply returned.once
        show (t.val.push object).names.Nodup
        rw [Loader.push_names]
        refine List.nodup_append.mpr ⟨distinct, by simp, ?_⟩
        intro name member other entered same
        rw [same, List.mem_singleton.mp entered] at member
        exact known member

/-- A cycle, a self-dependency, and files that are missing (2) or invalid (3). -/
def cyclicFiles : Nat → Option (SharedObject Nat)
  | 0 => some ⟨true, 1, [1, 0, 2], 48, by decide⟩
  | 1 => some ⟨true, 1, [3, 0, 1], 48, by decide⟩
  | 3 => some ⟨false, 1, [0], 16, by decide⟩
  | _ => none

end OsArmv8a.Linker
