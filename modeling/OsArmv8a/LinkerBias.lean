import OsArmv8a.Linker

/-! Where the linker puts libraries. `ld_load_needed` reads its cursor before it calls
`ld_load_object` and advances it after the call has returned, so a library and the first thing it
loads itself share a load bias. -/

set_option autoImplicit false

namespace OsArmv8a.Linker

/-- The cursor after so many advances. -/
def biasAt (turn : Nat) : Nat := (libLoadBase + libLoadStride * turn) % 2 ^ 64

theorem biasAt_succ (turn : Nat) : Word64.add (biasAt turn) libLoadStride = biasAt (turn + 1) := by
  unfold Word64.add biasAt libLoadBase libLoadStride
  omega

theorem biasAt_of_lt {turn : Nat} (small : turn < 2 ^ 39) :
    biasAt turn = libLoadBase + libLoadStride * turn := by
  unfold biasAt libLoadBase libLoadStride
  omega

/-- The kernel has no more left than it had. -/
structure Kernel.Le (after before : Kernel) : Prop where
  descriptors : after.descriptors ≤ before.descriptors
  regions : after.regions ≤ before.regions

theorem Kernel.Le.refl (kernel : Kernel) : kernel.Le kernel := ⟨Nat.le_refl _, Nat.le_refl _⟩

theorem Kernel.Le.trans {a b c : Kernel} (first : a.Le b) (second : b.Le c) : a.Le c :=
  ⟨Nat.le_trans first.descriptors second.descriptors, Nat.le_trans first.regions second.regions⟩

section Mapping

variable {α : Type} {files : α → Option (SharedObject α)}

theorem mapObject_le (files : α → Option (SharedObject α)) (kernel : Kernel) (path : α) :
    (mapObject files kernel path).2.Le kernel := by
  unfold mapObject
  split
  · exact .refl kernel
  split
  · exact .refl kernel
  split
  · exact ⟨Nat.sub_le _ _, Nat.le_refl _⟩
  split
  · exact ⟨Nat.sub_le _ _, Nat.sub_le _ _⟩
  · exact ⟨Nat.sub_le _ _, Nat.zero_le _⟩

variable {kernel : Kernel} {path : α}

theorem mapObject_some {after : Kernel} {needed : List α}
    (mapped : mapObject files kernel path = (some needed, after)) :
    ∃ object, files path = some object ∧ object.needed = needed ∧ object.valid = true ∧
      0 < kernel.descriptors ∧ object.segments ≤ kernel.regions ∧
      after = { descriptors := kernel.descriptors - 1,
                regions := kernel.regions - object.segments } := by
  unfold mapObject at mapped
  split at mapped
  · cases mapped
  rename_i object found
  split at mapped
  · cases mapped
  split at mapped
  · cases mapped
  rename_i valid
  split at mapped
  · rename_i room
    cases mapped
    exact ⟨object, found, rfl, by simpa using valid, by omega, room, rfl⟩
  · cases mapped

theorem mapObject_enough {object : SharedObject α} (found : files path = some object)
    (valid : object.valid = true) (positive : 0 < kernel.descriptors)
    (room : object.segments ≤ kernel.regions) :
    mapObject files kernel path = (some object.needed,
      { descriptors := kernel.descriptors - 1, regions := kernel.regions - object.segments }) := by
  unfold mapObject
  rw [found]
  simp [valid, room, Nat.ne_of_gt positive]

/-- What cannot be mapped now cannot be mapped with less. -/
theorem mapObject_none_of_le {less : Kernel} (failed : (mapObject files kernel path).1 = none)
    (le : less.Le kernel) : (mapObject files less path).1 = none := by
  cases again : mapObject files less path with
  | mk result after =>
    cases result with
    | none => rfl
    | some needed =>
      obtain ⟨object, found, -, valid, positive, room, -⟩ := mapObject_some again
      rw [mapObject_enough found valid (Nat.lt_of_lt_of_le positive le.descriptors)
        (Nat.le_trans room le.regions)] at failed
      cases failed

/-- The first `DT_NEEDED` entry of a file. -/
def firstNeeded (files : α → Option (SharedObject α)) (name : α) : Option α :=
  (files name).bind fun object => object.needed.head?

/-- No load from here on will add the object. -/
inductive Settled (files : α → Option (SharedObject α)) (st : Loader α) (name : α) : Prop
  | present (member : name ∈ st.names)
  | full (full : maxObjects ≤ st.objects.length)
  | refused (failed : (mapObject files st.kernel name).1 = none)

theorem Settled.mono {st st' : Loader α} {new : List (Object α)} {name : α}
    (settled : Settled files st name) (objects : st'.objects = st.objects ++ new)
    (kernel : st'.kernel.Le st.kernel) : Settled files st' name := by
  cases settled with
  | present member =>
    apply Settled.present
    unfold Loader.names at member ⊢
    rw [objects, List.map_append]
    exact List.mem_append_left _ member
  | full full =>
    apply Settled.full
    rw [objects, List.length_append]
    omega
  | refused failed => exact .refused (mapObject_none_of_le failed kernel)

theorem Settled.advance {st : Loader α} {name : α} :
    Settled files st.advance name ↔ Settled files st name := by
  have same : st.advance.objects = st.objects ++ [] := by simp
  have back : st.objects = st.advance.objects ++ [] := by simp
  constructor
  · exact fun settled => settled.mono back (by simp [Kernel.Le.refl])
  · exact fun settled => settled.mono same (by simp [Kernel.Le.refl])

end Mapping

section Turns

variable {α : Type} {files : α → Option (SharedObject α)} {st mid st' : Loader α}
  {n m n' : Nat} {new more : List (Object α)} {turns further : List Nat}

def Object.tag (object : Object α) : α × Bool := (object.name, object.library)

/-- The second object is not the first `DT_NEEDED` entry of the first, both being libraries. -/
def Apart (files : α → Option (SharedObject α)) (first second : α × Bool) : Prop :=
  first.2 = true → second.2 = true → firstNeeded files first.1 ≠ some second.1

/-- What a stretch of loading does: it appends libraries whose biases are the cursor at their
turns. The turns repeat exactly when some library is followed by its own first entry. -/
structure Growth (files : α → Option (SharedObject α)) (st st' : Loader α) (n n' : Nat)
    (new : List (Object α)) (turns : List Nat) : Prop where
  objects : st'.objects = st.objects ++ new
  library : ∀ object ∈ new, object.library = true
  bases : new.map Object.base = turns.map biasAt
  cursor : st'.nextBias = biasAt n'
  kernel : st'.kernel.Le st.kernel
  order : n ≤ n'
  lower : ∀ turn ∈ turns, n ≤ turn
  fresh : ∀ object ∈ new, ¬ Settled files st object.name
  tried : ∀ object ∈ new, ∀ lib ∈ firstNeeded files object.name, Settled files st' lib
  clash : turns.Nodup ↔ (new.map Object.tag).IsChain (Apart files)

theorem Growth.none (objects : st'.objects = st.objects) (cursor : st'.nextBias = biasAt n)
    (kernel : st'.kernel.Le st.kernel) : Growth files st st' n n [] [] where
  objects := by rw [objects, List.append_nil]
  library := nofun
  bases := rfl
  cursor := cursor
  kernel := kernel
  order := Nat.le_refl n
  lower := nofun
  fresh := nofun
  tried := nofun
  clash := by simp

/-- Two stretches with the cursor advanced in between. -/
theorem Growth.append (first : Growth files st mid n m new turns)
    (upper : ∀ turn ∈ turns, turn ≤ m)
    (second : Growth files mid.advance st' (m + 1) n' more further) :
    Growth files st st' n n' (new ++ more) (turns ++ further) := by
  have objects : st'.objects = mid.objects ++ more := by
    rw [second.objects, Loader.advance_objects]
  have kernel : st'.kernel.Le mid.kernel := by
    have le := second.kernel
    rwa [Loader.advance_kernel] at le
  have order := first.order
  have orderNext := second.order
  constructor
  · rw [objects, first.objects, List.append_assoc]
  · intro object member
    exact (List.mem_append.mp member).elim (first.library object) (second.library object)
  · rw [List.map_append, List.map_append, first.bases, second.bases]
  · exact second.cursor
  · exact kernel.trans first.kernel
  · omega
  · intro turn member
    rcases List.mem_append.mp member with early | late
    · exact first.lower turn early
    · have lower := second.lower turn late
      omega
  · intro object member
    rcases List.mem_append.mp member with early | late
    · exact first.fresh object early
    · intro settled
      exact second.fresh object late
        (Settled.advance.mpr (settled.mono first.objects first.kernel))
  · intro object member lib entry
    rcases List.mem_append.mp member with early | late
    · exact (first.tried object early lib entry).mono objects kernel
    · exact second.tried object late lib entry
  · have disjoint : turns.Disjoint further := by
      intro turn early late
      have below := upper turn early
      have above := second.lower turn late
      omega
    have boundary : ∀ x ∈ (new.map Object.tag).getLast?, ∀ y ∈ (more.map Object.tag).head?,
        Apart files x y := by
      intro x last y head _ _ entry
      rw [List.getLast?_map] at last
      rw [List.head?_map] at head
      obtain ⟨before, isLast, rfl⟩ := Option.map_eq_some_iff.mp last
      obtain ⟨after, isHead, rfl⟩ := Option.map_eq_some_iff.mp head
      have settled := first.tried before (List.mem_of_mem_getLast? isLast) _ entry
      exact second.fresh after (List.mem_of_mem_head? isHead) (Settled.advance.mpr settled)
    rw [List.map_append, List.isChain_append, List.nodup_append', first.clash, second.clash]
    exact ⟨fun both => ⟨both.1, both.2.1, boundary⟩, fun all => ⟨all.1, all.2.1, disjoint⟩⟩

/-- `ld_load_object` with the cursor as its bias: nothing is added, or the object itself is
first, at the turn of the call. -/
structure Called (files : α → Option (SharedObject α)) (st st' : Loader α) (path : α) (n n' : Nat)
    (new : List (Object α)) (turns : List Nat) : Prop where
  growth : Growth files st st' n n' new turns
  upper : ∀ turn ∈ turns, turn ≤ n'
  steps : n' ≤ n + 2 ^ 20 * new.length
  settled : Settled files st' path
  first : new = [] ∧ turns = [] ∨
    (∃ object ∈ new.head?, object.name = path) ∧ turns.head? = some n

/-- The loop of `ld_load_needed`: every call has its own turns, so the first turn is taken
exactly when the first entry adds its object. -/
structure Looped (files : α → Option (SharedObject α)) (st st' : Loader α) (needed : List α)
    (n n' : Nat) (new : List (Object α)) (turns : List Nat) : Prop where
  growth : Growth files st st' n n' new turns
  upper : ∀ turn ∈ turns, turn < n'
  steps : n' ≤ n + needed.length + 2 ^ 20 * new.length
  settled : ∀ lib ∈ needed, Settled files st' lib
  first : ∀ object ∈ new.head?, n ∈ turns ↔ some object.name = needed.head?
  empty : new = [] → turns = []

theorem Called.skip (objects : st'.objects = st.objects) (cursor : st'.nextBias = biasAt n)
    (kernel : st'.kernel.Le st.kernel) {path : α} (settled : Settled files st' path) :
    Called files st st' path n n [] [] :=
  ⟨.none objects cursor kernel, nofun, by omega, settled, .inl ⟨rfl, rfl⟩⟩

theorem Looped.nil (cursor : st.nextBias = biasAt n) : Looped files st st [] n n [] [] :=
  ⟨.none rfl cursor (.refl _), nofun, by simp, nofun, nofun, fun _ => rfl⟩

theorem Looped.cons {lib : α} {rest : List α} (call : Called files st mid lib n m new turns)
    (loop : Looped files mid.advance st' rest (m + 1) n' more further) :
    Looped files st st' (lib :: rest) n n' (new ++ more) (turns ++ further) := by
  have order := loop.growth.order
  have above : n ∉ further := by
    intro member
    have lower := loop.growth.lower n member
    have later := call.growth.order
    omega
  constructor
  · exact call.growth.append call.upper loop.growth
  · intro turn member
    rcases List.mem_append.mp member with early | late
    · have upper := call.upper turn early
      omega
    · exact loop.upper turn late
  · have steps := call.steps
    have later := loop.steps
    rw [List.length_append, List.length_cons]
    omega
  · intro entry member
    rcases List.mem_cons.mp member with rfl | later
    · exact (Settled.advance.mpr call.settled).mono loop.growth.objects loop.growth.kernel
    · exact loop.settled entry later
  · intro object head
    rcases call.first with ⟨none, noTurns⟩ | ⟨⟨own, ownHead, name⟩, turn⟩
    · subst none noTurns
      -- the entry was settled by its call, so what comes later is another object
      have other : object.name ≠ lib := by
        intro same
        exact loop.growth.fresh object (List.mem_of_mem_head? head)
          (Settled.advance.mpr (same ▸ call.settled))
      constructor
      · exact fun member => absurd member above
      · intro same
        exact absurd (Option.some.inj same) other
    · have same : object = own := by
        have both : (new ++ more).head? = some own := by
          rw [List.head?_append, ownHead]
          rfl
        exact Option.some.inj (head.symm.trans both)
      subst same
      constructor
      · exact fun _ => congrArg some name
      · exact fun _ => List.mem_append_left _ (List.mem_of_mem_head? turn)
  · intro none
    obtain ⟨noNew, noMore⟩ := List.append_eq_nil_iff.mp none
    rw [loop.empty noMore, List.append_nil]
    rcases call.first with ⟨-, noTurns⟩ | ⟨⟨own, ownHead, -⟩, -⟩
    · exact noTurns
    · rw [noNew] at ownHead
      cases ownHead

/-- A new object comes before what its entries load, and shares its turn with the first of them
if that is new. -/
theorem Called.enter {path : α} {needed : List α} {kernel : Kernel}
    (absent : path ∉ st.names) (space : st.objects.length < maxObjects)
    (mapped : mapObject files st.kernel path = (some needed, kernel))
    (cursor : st.nextBias = biasAt n)
    (loop : Looped files ((st.withKernel kernel).push
      { name := path, base := biasAt n, library := true }) st' needed n n' new turns) :
    Called files st st' path n n'
      ({ name := path, base := biasAt n, library := true } :: new) (n :: turns) := by
  obtain ⟨object, found, rfl, -⟩ := mapObject_some mapped
  have growth := loop.growth
  have order := growth.order
  have less : kernel.Le st.kernel := by
    have le := mapObject_le files st.kernel path
    rwa [mapped] at le
  have entry : firstNeeded files path = object.needed.head? := by
    simp [firstNeeded, found]
  have objects : st'.objects = st.objects ++
      ({ name := path, base := biasAt n, library := true } :: new) := by
    rw [growth.objects]
    simp
  have chained : n ∉ turns ↔ ∀ y ∈ (new.map Object.tag).head?, Apart files (path, true) y := by
    cases new with
    | nil => simp [loop.empty rfl]
    | cons next rest =>
      have turn := loop.first next rfl
      have library := growth.library next List.mem_cons_self
      rw [turn, ← entry]
      constructor
      · rintro other y head - - same
        cases Option.some.inj head
        exact other same.symm
      · intro apart same
        exact apart next.tag rfl rfl library same.symm
  constructor
  · constructor
    · exact objects
    · intro other member
      rcases List.mem_cons.mp member with rfl | later
      · rfl
      · exact growth.library other later
    · rw [List.map_cons, List.map_cons, growth.bases]
    · exact growth.cursor
    · exact growth.kernel.trans less
    · exact order
    · intro turn member
      rcases List.mem_cons.mp member with rfl | later
      · exact Nat.le_refl _
      · exact growth.lower turn later
    · intro other member settled
      rcases List.mem_cons.mp member with rfl | later
      · cases settled with
        | present present => exact absent present
        | full full => omega
        | refused failed => rw [mapped] at failed; cases failed
      · exact growth.fresh other later (settled.mono rfl less)
    · intro other member lib first
      rcases List.mem_cons.mp member with rfl | later
      · rw [entry] at first
        exact loop.settled lib (List.mem_of_mem_head? first)
      · exact growth.tried other later lib first
    · rw [List.nodup_cons, List.map_cons, List.isChain_cons, growth.clash, chained]
      rfl
  · intro turn member
    rcases List.mem_cons.mp member with rfl | later
    · exact order
    · exact Nat.le_of_lt (loop.upper turn later)
  · have steps := loop.steps
    have fits := object.fits
    unfold libLoadStride at fits
    rw [List.length_cons]
    omega
  · apply Settled.present
    unfold Loader.names
    rw [objects]
    simp
  · exact .inr ⟨⟨_, rfl, rfl⟩, rfl⟩

end Turns

section Tables

variable {α : Type} (files : α → Option (SharedObject α))

theorem bias_rules : Rules files
    (fun st path bias st' => ∀ n, st.nextBias = biasAt n → bias = biasAt n →
      ∃ n' new turns, Called files st st' path n n' new turns)
    (fun st needed st' => ∀ n, st.nextBias = biasAt n →
      ∃ n' new turns, Looped files st st' needed n n' new turns) where
  found st path bias present n cursor _ :=
    ⟨n, [], [], .skip rfl cursor (.refl _) (.present present)⟩
  full st path bias full n cursor _ := ⟨n, [], [], .skip rfl cursor (.refl _) (.full full)⟩
  refused st path bias kernel _ _ failed n cursor _ := by
    have less : kernel.Le st.kernel := by
      have le := mapObject_le files st.kernel path
      rwa [failed] at le
    have still : (mapObject files kernel path).1 = none :=
      mapObject_none_of_le (by rw [failed]) less
    have skipped : Called files st (st.withKernel kernel) path n n [] [] :=
      .skip (Loader.withKernel_objects st kernel) cursor less (.refused still)
    exact ⟨n, [], [], skipped⟩
  entered st path bias needed kernel st' absent space mapped loop n cursor same := by
    subst same
    obtain ⟨n', new, turns, looped⟩ := loop n cursor
    exact ⟨n', _, _, .enter absent space mapped cursor looped⟩
  nil st n cursor := ⟨n, [], [], .nil cursor⟩
  cons st lib rest mid st' call loop n cursor := by
    obtain ⟨m, new, turns, called⟩ := call n cursor cursor
    have next : mid.advance.nextBias = biasAt (m + 1) := by
      rw [Loader.advance_nextBias, called.growth.cursor, biasAt_succ]
    obtain ⟨n', more, further, looped⟩ := loop (m + 1) next
    exact ⟨n', _, _, .cons called looped⟩

theorem capacity_rules : Rules files
    (fun st _ _ st' => st.objects.length ≤ maxObjects → st'.objects.length ≤ maxObjects)
    (fun st _ st' => st.objects.length ≤ maxObjects → st'.objects.length ≤ maxObjects) where
  found _ _ _ _ bounded := bounded
  full _ _ _ _ bounded := bounded
  refused _ _ _ _ _ _ _ bounded := bounded
  entered st _ _ _ _ _ _ space _ loop _ := loop (by
    rw [Loader.push_objects, List.length_append]
    exact space)
  nil _ bounded := bounded
  cons st lib rest mid st' call loop bounded := loop (by
    rw [Loader.advance_objects]
    exact call bounded)

/-- The libraries of a table with the turns their biases were taken at. -/
structure Placed (st : Loader α) (n : Nat) (turns : List Nat) : Prop where
  bases : (st.objects.filter Object.library).map Object.base = turns.map biasAt
  cursor : st.nextBias = biasAt n
  upper : ∀ turn ∈ turns, turn < n
  clash : turns.Nodup ↔ st.search.order.IsChain (Apart files)
  capacity : st.objects.length ≤ maxObjects

theorem placed_empty (kernel : Kernel) :
    Placed files { objects := [], nextBias := libLoadBase, kernel := kernel } 0 [] where
  bases := rfl
  cursor := show libLoadBase = biasAt 0 by decide
  upper := nofun
  clash := by simp [Loader.search]
  capacity := Nat.zero_le _

variable {files}
variable {st : Loader α} {turns : List Nat}

theorem Placed.injective {n : Nat} (placed : Placed files st n turns) (small : n < 2 ^ 39) :
    ∀ x ∈ turns, ∀ y ∈ turns, biasAt x = biasAt y → x = y := by
  intro x memberX y memberY same
  have upper := placed.upper x memberX
  have upper' := placed.upper y memberY
  rw [biasAt_of_lt (by omega), biasAt_of_lt (by omega)] at same
  unfold libLoadStride at same
  omega

variable [DecidableEq α]

/-- An object that `ld_load_needed` did not ask for, with the libraries its entries bring. -/
theorem Placed.push {st' : Loader α} {n : Nat} (placed : Placed files st n turns) {name : α}
    {base : Nat} {kernel : Kernel} {needed : List α} (space : st.objects.length < maxObjects)
    (loaded : st' = loadNeeded files (maxObjects - 1)
      ((st.withKernel kernel).push { name := name, base := base, library := false }) needed) :
    ∃ n' turns', Placed files st' n' turns' ∧ n' ≤ n + needed.length + 2 ^ 20 * maxObjects := by
  subst loaded
  have depth : maxObjects ≤ maxObjects - 1 + ((st.withKernel kernel).push
      { name := name, base := base, library := false }).objects.length := by
    rw [Loader.push_objects, List.length_append, List.length_singleton]
    omega
  have bounded : ((st.withKernel kernel).push
      { name := name, base := base, library := false }).objects.length ≤ maxObjects := by
    rw [Loader.push_objects, List.length_append]
    exact space
  have capacity := (capacity_rules files).loadNeeded _ needed _ depth bounded
  obtain ⟨n', new, further, looped⟩ := (bias_rules files).loadNeeded _ needed _ depth n placed.cursor
  have growth := looped.growth
  generalize loadNeeded files (maxObjects - 1) _ needed = st' at capacity growth looped
  have objects : st'.objects =
      st.objects ++ { name := name, base := base, library := false } :: new := by
    rw [growth.objects]
    simp
  have libraries : new.filter Object.library = new := List.filter_eq_self.mpr growth.library
  refine ⟨n', turns ++ further, ⟨?_, growth.cursor, ?_, ?_, capacity⟩, ?_⟩
  · rw [objects, List.filter_append, List.filter_cons_of_neg (by simp), libraries, List.map_append,
      List.map_append, placed.bases, growth.bases]
  · intro turn member
    have order := growth.order
    rcases List.mem_append.mp member with early | late
    · have upper := placed.upper turn early
      omega
    · exact looped.upper turn late
  · have disjoint : turns.Disjoint further := by
      intro turn early late
      have below := placed.upper turn early
      have above := growth.lower turn late
      omega
    have order : st'.search.order = st.search.order ++ (name, false) :: new.map Object.tag := by
      unfold Loader.search
      rw [objects]
      simp [Object.tag]
    rw [List.nodup_append', placed.clash, growth.clash, order, List.isChain_append,
      List.isChain_cons]
    constructor
    · intro both
      refine ⟨both.1, ⟨fun y _ flag => absurd flag Bool.false_ne_true, both.2.1⟩, ?_⟩
      intro x _ y head _ flag
      cases Option.some.inj head
      cases flag
    · exact fun all => ⟨all.1, all.2.1.2, disjoint⟩
  · have steps := looped.steps
    have length : new.length ≤ maxObjects := by
      rw [objects, List.length_append, List.length_cons] at capacity
      omega
    omega

theorem Placed.initObject {n : Nat} (placed : Placed files st n turns) (root : Root α) :
    ∃ n' turns', Placed files (initObject files st root) n' turns' ∧ n' ≤ n + 2 ^ 25 := by
  unfold Linker.initObject
  split
  · exact ⟨n, turns, placed, Nat.le_add_right _ _⟩
  rename_i space
  obtain ⟨n', turns', placed', steps⟩ := placed.push (Nat.lt_of_not_le space) rfl
  have fits := root.fits
  unfold libLoadStride at fits
  unfold maxObjects at steps
  exact ⟨n', turns', placed', by omega⟩

/-- The whole table: never more than sixteen objects, so the cursor never wraps. -/
theorem ldMain_placed (files : α → Option (SharedObject α)) (kernel : Kernel) (start : Start α) :
    ∃ n turns, Placed files (ldMain files kernel start) n turns ∧ n < 2 ^ 39 := by
  have empty := placed_empty files kernel
  cases start with
  | interpreter app ld =>
    obtain ⟨n, turns, placed, steps⟩ := empty.initObject app
    obtain ⟨n', turns', placed', steps'⟩ := placed.initObject ld
    exact ⟨n', turns', placed', by omega⟩
  | standalone path =>
    show ∃ n turns, Placed files (loadObject files (15 + 1) false _ path mainLoadBase) n turns ∧ _
    rw [loadObject_succ, if_neg (by simp [Loader.names]), if_neg (by simp [maxObjects])]
    split
    · exact ⟨0, [], ⟨empty.bases, empty.cursor, empty.upper, empty.clash, empty.capacity⟩,
        Nat.two_pow_pos 39⟩
    · rename_i needed less mapped
      obtain ⟨object, -, rfl, -⟩ := mapObject_some mapped
      obtain ⟨n, turns, placed, steps⟩ := empty.push (Nat.zero_lt_succ 15) rfl
      have fits := object.fits
      unfold libLoadStride at fits
      unfold maxObjects at steps
      exact ⟨n, turns, placed, by omega⟩

theorem ldMain_bases_nodup (files : α → Option (SharedObject α)) (kernel : Kernel)
    (start : Start α) :
    (((ldMain files kernel start).objects.filter Object.library).map Object.base).Nodup ↔
      (discoverMain files kernel start).order.IsChain (Apart files) := by
  obtain ⟨n, turns, placed, small⟩ := ldMain_placed files kernel start
  rw [placed.bases, ← ldMain_search, ← placed.clash]
  exact ⟨List.Nodup.of_map _, fun nodup => nodup.map_on (placed.injective small)⟩

/-- Every bias is a multiple of the stride above the base: no addition wraps. -/
theorem ldMain_base {files : α → Option (SharedObject α)} {kernel : Kernel} {start : Start α}
    {object : Object α} (member : object ∈ (ldMain files kernel start).objects.filter Object.library) :
    ∃ turn, object.base = libLoadBase + libLoadStride * turn := by
  obtain ⟨n, turns, placed, small⟩ := ldMain_placed files kernel start
  have base := List.mem_map_of_mem (f := Object.base) member
  rw [placed.bases] at base
  obtain ⟨turn, taken, same⟩ := List.mem_map.mp base
  have upper := placed.upper turn taken
  exact ⟨turn, by rw [← same, biasAt_of_lt (by omega)]⟩

/-- The load biases of the libraries are distinct exactly when, in the order in which a
depth-first search discovers the objects, no library is directly followed by its own first
`DT_NEEDED` entry; and distinct biases give disjoint images. -/
theorem ldMain_distinct (files : α → Option (SharedObject α)) (kernel : Kernel) (start : Start α) :
    ((((ldMain files kernel start).objects.filter Object.library).map Object.base).Nodup ↔
      (discoverMain files kernel start).order.IsChain (Apart files)) ∧
    ((((ldMain files kernel start).objects.filter Object.library).map Object.base).Nodup →
      ((ldMain files kernel start).objects.filter Object.library).Pairwise fun a b =>
        ∀ x ∈ files a.name, ∀ y ∈ files b.name,
          a.base + x.span ≤ b.base ∨ b.base + y.span ≤ a.base) := by
  refine ⟨ldMain_bases_nodup files kernel start, fun nodup => ?_⟩
  apply (List.pairwise_map.mp nodup).imp_of_mem
  intro a b memberA memberB different x foundX y foundY
  obtain ⟨i, baseA⟩ := ldMain_base memberA
  obtain ⟨j, baseB⟩ := ldMain_base memberB
  have fitsX := x.fits.2
  have fitsY := y.fits.2
  unfold libLoadStride at *
  omega

/-- A file with two segments and the given entries. -/
def smallObject (needed : List Nat) (few : 16 * needed.length ≤ 0x4000) : SharedObject Nat :=
  { valid := true, segments := 2, needed := needed, span := 0x4000, fits := ⟨few, by decide⟩ }

/-- The main program 0 needs 1 and 2. -/
def flat : Nat → Option (SharedObject Nat)
  | 0 => some (smallObject [1, 2] (by decide))
  | 1 => some (smallObject [] (by decide))
  | 2 => some (smallObject [] (by decide))
  | _ => none

theorem ldMain_distinct_flat :
    ((ldMain flat { descriptors := 13, regions := 12 } (.standalone 0)).objects.filter
      Object.library).Pairwise fun a b => ∀ x ∈ flat a.name, ∀ y ∈ flat b.name,
        a.base + x.span ≤ b.base ∨ b.base + y.span ≤ a.base :=
  (ldMain_distinct flat _ _).2 (by decide +kernel)

/-- The main program 0 needs 1, which needs 2. -/
def nested : Nat → Option (SharedObject Nat)
  | 0 => some (smallObject [1] (by decide))
  | 1 => some (smallObject [2] (by decide))
  | 2 => some (smallObject [] (by decide))
  | _ => none

/-- A library and the library it needs are both put at `LD_LIB_LOAD_BASE`. -/
theorem ldMain_distinct_nested :
    (ldMain nested { descriptors := 13, regions := 12 } (.standalone 0)).objects =
      [{ name := 0, base := 0x4000000, library := false },
       { name := 1, base := 0x5000000, library := true },
       { name := 2, base := 0x5000000, library := true }] ∧
    ¬ (((ldMain nested { descriptors := 13, regions := 12 } (.standalone 0)).objects.filter
      Object.library).map Object.base).Nodup := by
  decide +kernel

end Tables

end OsArmv8a.Linker
