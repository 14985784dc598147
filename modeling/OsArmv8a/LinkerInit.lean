import OsArmv8a.LinkerBias

/-! The order of constructors. `ld_main` calls `ld_call_init` over the table from its end to its
start, and the table holds the objects in the order in which they were loaded. -/

set_option autoImplicit false

namespace OsArmv8a.Linker

variable {α : Type} [DecidableEq α]

/-- The first object names the second in a `DT_NEEDED` entry. -/
def Needs (needs : α → List α) (a b : α) : Prop := b ∈ needs a

/-- What `ld_main` has when it starts on `DT_NEEDED`: what the kernel has left, and the objects
that are mapped already. Run on its own it loads the main program itself first. -/
def Start.prepare (files : α → Option (SharedObject α)) (kernel : Kernel) :
    Start α → Option (Kernel × List (Root α))
  | .interpreter app ld => some (kernel, [app, ld])
  | .standalone path =>
    (files path).bind fun object =>
      match mapObject files kernel path with
      | (none, _) => none
      | (some _, rest) =>
        some (rest, [{ name := path, base := mainLoadBase, needed := object.needed,
                       fits := Nat.lt_of_le_of_lt object.fits.1 object.fits.2 }])

theorem ldMain_roots {files : α → Option (SharedObject α)} {kernel rest : Kernel} {start : Start α}
    {roots : List (Root α)} (prepared : start.prepare files kernel = some (rest, roots)) :
    ldMain files kernel start = roots.foldl (initObject files)
      { objects := [], nextBias := libLoadBase, kernel := rest } := by
  cases start with
  | interpreter app ld =>
    cases Option.some.inj prepared
    rfl
  | standalone path =>
    obtain ⟨object, found, mapped⟩ := Option.bind_eq_some_iff.mp prepared
    split at mapped
    · cases mapped
    rename_i needed less loaded
    obtain ⟨same, foundAgain, rfl, -⟩ := mapObject_some loaded
    cases Option.some.inj (found.symm.trans foundAgain)
    cases Option.some.inj mapped
    show loadObject files (15 + 1) false _ path mainLoadBase = _
    rw [loadObject_succ, if_neg (by simp [Loader.names]), if_neg (by simp [maxObjects]), loaded]
    rfl

/-- The objects `all` that the roots need, directly or through others. Nothing needs itself, and
there are no more than the table can hold. -/
structure Graph (roots : List (Root α)) (needs : α → List α) (all : List α) : Prop where
  root : ∀ root ∈ roots, root.name ∈ all ∧ root.needed = needs root.name
  closed : ∀ x ∈ all, ∀ y ∈ needs x, y ∈ all
  reached : ∀ x ∈ all, ∃ root ∈ roots, Relation.ReflTransGen (Needs needs) root.name x
  acyclic : ∀ x, ¬ Relation.TransGen (Needs needs) x x
  nodup : all.Nodup
  size : all.length ≤ maxObjects

theorem Graph.mem_of_reached {α : Type} {roots : List (Root α)} {needs : α → List α} {all : List α}
    (graph : Graph roots needs all) {root : Root α} (member : root ∈ roots) {x : α}
    (path : Relation.ReflTransGen (Needs needs) root.name x) : x ∈ all := by
  induction path with
  | refl => exact (graph.root root member).1
  | tail _ needed ih => exact graph.closed _ ih _ needed

/-- Every object is initialised once, after everything it needs. -/
structure InitOrder (needs : α → List α) (all calls : List α) : Prop where
  once : ∀ x ∈ all, calls.count x = 1
  order : ∀ a ∈ all, ∀ b, Relation.TransGen (Needs needs) a b → calls.idxOf b < calls.idxOf a

/-- When an object is discovered, neither it nor anything it needs has been discovered before. -/
def Forward {α : Type} (needs : α → List α) (all order : List α) : Prop :=
  order.Pairwise fun earlier later => later ∈ all → earlier ∉ later :: needs later

instance (needs : α → List α) (all order : List α) : Decidable (Forward needs all order) :=
  inferInstanceAs (Decidable (List.Pairwise _ _))

section Order

variable {α : Type} {roots : List (Root α)} {needs : α → List α} {all names : List α}

theorem Forward.not_mem {before after : List α} {a b : α}
    (forward : Forward needs all (before ++ a :: after)) (member : a ∈ all)
    (needed : b ∈ a :: needs a) : b ∉ before := by
  intro early
  exact (List.pairwise_append.mp forward).2.2 b early a List.mem_cons_self member needed

theorem forward_of_split (apart : ∀ before a after, names = before ++ a :: after → a ∈ all →
    ∀ b ∈ a :: needs a, b ∉ before) : Forward needs all names := by
  induction names using List.reverseRecOn with
  | nil => exact List.Pairwise.nil
  | append_singleton names last ih =>
    refine List.pairwise_append.mpr ⟨ih ?_, List.pairwise_singleton _ _, ?_⟩
    · intro before a after split
      exact apart before a (after ++ [last]) (by rw [split]; simp)
    · intro b early a isLast member needed
      cases List.mem_singleton.mp isLast
      exact apart names last [] rfl member b needed early

variable [DecidableEq α]

theorem idxOf_reverse_lt {before after : List α} {a : α} (b : α) (last : a ∉ after) :
    (before ++ a :: after).reverse.idxOf b < (before ++ a :: after).reverse.idxOf a ↔
      b ∈ after := by
  have reversed : (before ++ a :: after).reverse = after.reverse ++ a :: before.reverse := by simp
  have place : (after.reverse ++ a :: before.reverse).idxOf a = after.length := by
    rw [List.idxOf_append_of_notMem (by simpa using last), List.idxOf_cons_self,
      List.length_reverse, Nat.add_zero]
  rw [reversed, place]
  by_cases member : b ∈ after
  · have later : b ∈ after.reverse := List.mem_reverse.mpr member
    have bound := List.idxOf_lt_length_of_mem later
    rw [List.length_reverse] at bound
    rw [List.idxOf_append_of_mem later]
    exact ⟨fun _ => member, fun _ => bound⟩
  · rw [List.idxOf_append_of_notMem (by simpa using member), List.length_reverse]
    exact ⟨fun bound => by omega, fun later => absurd later member⟩

theorem Forward.count (forward : Forward needs all names) {x : α} (member : x ∈ all)
    (present : x ∈ names) : names.count x = 1 := by
  obtain ⟨before, after, rfl⟩ := List.append_of_mem present
  have first := forward.not_mem member List.mem_cons_self
  have last : x ∉ after := by
    intro again
    obtain ⟨between, rest, rfl⟩ := List.append_of_mem again
    have split : before ++ x :: (between ++ x :: rest) = (before ++ x :: between) ++ x :: rest := by
      simp
    rw [split] at forward
    exact forward.not_mem member List.mem_cons_self (by simp)
  rw [List.count_append, List.count_cons_self, List.count_eq_zero_of_not_mem first,
    List.count_eq_zero_of_not_mem last]

/-- The reversed table is a good order exactly when the search finds everything and never meets an
object before one that needs it. -/
theorem initOrder_reverse (graph : Graph roots needs all) :
    InitOrder needs all names.reverse ↔ (∀ x ∈ all, x ∈ names) ∧ Forward needs all names := by
  constructor
  · intro good
    have once : ∀ x ∈ all, names.count x = 1 := by
      intro x member
      rw [← List.count_reverse]
      exact good.once x member
    refine ⟨fun x member => List.count_pos_iff.mp (by rw [once x member]; exact Nat.one_pos), ?_⟩
    refine forward_of_split ?_
    rintro before a after rfl member b needed early
    have count := once a member
    rw [List.count_append, List.count_cons_self] at count
    have last : a ∉ after := List.count_eq_zero.mp (by omega)
    rcases List.mem_cons.mp needed with rfl | needed
    · exact List.count_eq_zero.mp (by omega) early
    have later := (idxOf_reverse_lt b last).mp (good.order a member b (.single needed))
    have twice := once b (graph.closed a member b needed)
    have first := List.count_pos_iff.mpr early
    have second := List.count_pos_iff.mpr (List.mem_cons_of_mem a later)
    rw [List.count_append] at twice
    omega
  · rintro ⟨complete, forward⟩
    have edge : ∀ a ∈ all, ∀ b ∈ needs a, names.reverse.idxOf b < names.reverse.idxOf a := by
      intro a member b needed
      have count := forward.count member (complete a member)
      have present := complete b (graph.closed a member b needed)
      obtain ⟨before, after, rfl⟩ := List.append_of_mem (complete a member)
      rw [List.count_append, List.count_cons_self] at count
      refine (idxOf_reverse_lt b (List.count_eq_zero.mp (by omega))).mpr ?_
      have notEarly := forward.not_mem member (List.mem_cons_of_mem a needed)
      have other : b ≠ a := by
        rintro rfl
        exact graph.acyclic b (.single needed)
      simpa [notEarly, other] using present
    constructor
    · intro x member
      rw [List.count_reverse]
      exact forward.count member (complete x member)
    · intro a member b path
      have both : b ∈ all ∧ names.reverse.idxOf b < names.reverse.idxOf a := by
        induction path with
        | single needed => exact ⟨graph.closed a member _ needed, edge a member _ needed⟩
        | tail _ needed ih =>
          exact ⟨graph.closed _ ih.1 _ needed, Nat.lt_trans (edge _ ih.1 _ needed) ih.2⟩
      exact both.2

end Order

section Complete

variable {α : Type} {files : α → Option (SharedObject α)} {roots : List (Root α)} {needs : α → List α}
  {all : List α} {kernel : Kernel}

/-- The objects that are loaded through an entry. -/
def libraries [DecidableEq α] (roots : List (Root α)) (all : List α) : List α :=
  all.filter fun x => decide (x ∉ roots.map Root.name)

def segments (files : α → Option (SharedObject α)) (x : α) : Nat :=
  (files x).elim 0 SharedObject.segments

/-- The kernel has a descriptor for every library and a region for every segment of one, and what
is mapped already is not loaded a second time. -/
structure Affordable [DecidableEq α] (files : α → Option (SharedObject α)) (roots : List (Root α))
    (needs : α → List α) (all : List α) (kernel : Kernel) : Prop where
  apart : ∀ x ∈ all, ∀ y ∈ needs x, y ∉ roots.map Root.name
  distinct : (roots.map Root.name).Nodup
  descriptors : (libraries roots all).length ≤ kernel.descriptors
  regions : ((libraries roots all).map (segments files)).sum ≤ kernel.regions

/-- A table on the way: it holds objects of the graph, each once, and the kernel has paid for the
libraries in it. The roots in it are the `done` ones. -/
structure Sound (files : α → Option (SharedObject α)) (roots : List (Root α)) (all : List α)
    (kernel : Kernel) (done : List α) (st : Loader α) : Prop where
  members : ∀ x ∈ st.names, x ∈ all
  nodup : st.names.Nodup
  origin : ∀ object ∈ st.objects,
    if object.library then object.name ∉ roots.map Root.name else object.name ∈ done
  descriptors : st.kernel.descriptors + (st.objects.filter Object.library).length =
    kernel.descriptors
  regions : st.kernel.regions +
    ((st.objects.filter Object.library).map fun object => segments files object.name).sum =
      kernel.regions

/-- Everything added since `st` has what it needs in the table. -/
structure Closing (needs : α → List α) (st st' : Loader α) : Prop where
  keeps : ∀ x ∈ st.names, x ∈ st'.names
  closed : ∀ x ∈ st'.names, x ∉ st.names → ∀ y ∈ needs x, y ∈ st'.names

/-- An object of the graph that is not in the table finds room in it. -/
theorem Sound.room {done : List α} {st : Loader α} (graph : Graph roots needs all)
    (sound : Sound files roots all kernel done st) {path : α} (member : path ∈ all)
    (absent : path ∉ st.names) : st.objects.length < maxObjects := by
  have bound : (path :: st.names).length ≤ all.length := by
    refine ((List.nodup_cons.mpr ⟨absent, sound.nodup⟩).subperm ?_).length_le
    intro x present
    rcases List.mem_cons.mp present with rfl | present
    · exact member
    · exact sound.members x present
  have size := graph.size
  have length : st.names.length = st.objects.length := List.length_map _
  rw [List.length_cons] at bound
  omega

/-- An entry of the graph: its file can be loaded and is read as it is. -/
structure Entry (files : α → Option (SharedObject α)) (roots : List (Root α)) (needs : α → List α)
    (all : List α) (path : α) : Prop where
  member : path ∈ all
  library : path ∉ roots.map Root.name
  file : ∃ object, files path = some object ∧ object.valid = true ∧ object.needed = needs path

variable {done : List α} {st : Loader α} {path : α}

theorem Sound.advance (sound : Sound files roots all kernel done st) :
    Sound files roots all kernel done st.advance := by
  constructor
  · rw [Loader.advance_names]
    exact sound.members
  · rw [Loader.advance_names]
    exact sound.nodup
  · rw [Loader.advance_objects]
    exact sound.origin
  · rw [Loader.advance_objects, Loader.advance_kernel]
    exact sound.descriptors
  · rw [Loader.advance_objects, Loader.advance_kernel]
    exact sound.regions

theorem Closing.refl (needs : α → List α) (st : Loader α) : Closing needs st st :=
  ⟨fun _ present => present, fun _ present absent => absurd present absent⟩

theorem Closing.trans {a b c : Loader α} (first : Closing needs a b) (second : Closing needs b c) :
    Closing needs a c := by
  refine ⟨fun x present => second.keeps x (first.keeps x present), fun x present absent y needed => ?_⟩
  by_cases early : x ∈ b.names
  · exact second.keeps y (first.closed x early absent y needed)
  · exact second.closed x present early y needed

variable [DecidableEq α]

/-- The libraries in the table with one more are still libraries of the graph, each once. -/
theorem Sound.subperm (sound : Sound files roots all kernel done st)
    (entry : Entry files roots needs all path) (absent : path ∉ st.names) :
    (path :: (st.objects.filter Object.library).map Object.name).Subperm (libraries roots all) := by
  have sublist : ((st.objects.filter Object.library).map Object.name).Sublist st.names :=
    (List.filter_sublist).map _
  refine (List.nodup_cons.mpr ⟨fun member => absent (sublist.subset member),
    sound.nodup.sublist sublist⟩).subperm ?_
  intro x member
  unfold libraries
  rw [List.mem_filter, decide_eq_true_eq]
  rcases List.mem_cons.mp member with rfl | member
  · exact ⟨entry.member, entry.library⟩
  · refine ⟨sound.members x (sublist.subset member), ?_⟩
    obtain ⟨object, listed, rfl⟩ := List.mem_map.mp member
    obtain ⟨present, library⟩ := List.mem_filter.mp listed
    have origin := sound.origin object present
    rwa [if_pos library] at origin

/-- A library that is not in the table is mapped and entered. -/
theorem Sound.enter (afford : Affordable files roots needs all kernel)
    (sound : Sound files roots all kernel done st) (entry : Entry files roots needs all path)
    (absent : path ∉ st.names) :
    ∃ rest, mapObject files st.kernel path = (some (needs path), rest) ∧ ∀ base,
      Sound files roots all kernel done
        ((st.withKernel rest).push { name := path, base := base, library := true }) := by
  obtain ⟨object, found, valid, own⟩ := entry.file
  have subperm := sound.subperm entry absent
  have count := Nat.le_trans subperm.length_le afford.descriptors
  have weigh : (((path :: (st.objects.filter Object.library).map Object.name)).map
      (segments files)).sum ≤ kernel.regions := by
    obtain ⟨listed, same, sub⟩ := subperm
    rw [← (same.map (segments files)).sum_eq]
    exact Nat.le_trans ((sub.map _).sum_le_sum fun _ _ => Nat.zero_le _) afford.regions
  have weight : segments files path = object.segments := by simp [segments, found]
  have descriptors := sound.descriptors
  have regions := sound.regions
  rw [List.length_cons, List.length_map] at count
  rw [List.map_cons, List.sum_cons, List.map_map, weight] at weigh
  simp only [Function.comp_def] at weigh
  have positive : 0 < st.kernel.descriptors := by omega
  have fits : object.segments ≤ st.kernel.regions := by omega
  have mapped := mapObject_enough found valid positive fits
  rw [own] at mapped
  refine ⟨_, mapped, fun base => ?_⟩
  constructor
  · intro x present
    rw [Loader.push_names, Loader.withKernel_names] at present
    rcases List.mem_append.mp present with present | new
    · exact sound.members x present
    · exact List.mem_singleton.mp new ▸ entry.member
  · rw [Loader.push_names, Loader.withKernel_names]
    exact List.nodup_append'.mpr ⟨sound.nodup, List.nodup_singleton path, by simpa using absent⟩
  · intro other present
    rcases List.mem_append.mp present with present | new
    · exact sound.origin other present
    · cases List.mem_singleton.mp new
      exact entry.library
  · rw [Loader.push_objects, List.filter_append]
    simp only [Loader.withKernel_objects, Loader.push_kernel, Loader.withKernel_kernel,
      List.filter_singleton, List.length_append, cond_true, List.length_singleton]
    omega
  · rw [Loader.push_objects, List.filter_append]
    simp only [Loader.withKernel_objects, Loader.push_kernel, Loader.withKernel_kernel,
      List.filter_singleton, cond_true, List.map_append, List.sum_append, List.map_cons,
      List.map_nil, List.sum_cons, List.sum_nil, weight]
    omega

section

variable (graph : Graph roots needs all) (afford : Affordable files roots needs all kernel)
  (entries : ∀ x ∈ all, ∀ y ∈ needs x, Entry files roots needs all y)

include graph afford entries

/-- Loading never fails, and leaves nothing behind that was needed. -/
theorem complete_rules (done : List α) :
    Rules files
      (fun st path _ st' => Sound files roots all kernel done st →
        Entry files roots needs all path →
        Sound files roots all kernel done st' ∧ path ∈ st'.names ∧ Closing needs st st')
      (fun st needed st' => Sound files roots all kernel done st →
        (∀ lib ∈ needed, Entry files roots needs all lib) →
        Sound files roots all kernel done st' ∧ (∀ lib ∈ needed, lib ∈ st'.names) ∧
          Closing needs st st') where
  found st path bias present sound _ := ⟨sound, present, .refl needs st⟩
  full st path bias full sound entry := by
    have present : path ∈ st.names := by
      by_contra absent
      exact Nat.not_lt.mpr full (sound.room graph entry.member absent)
    exact ⟨sound, present, .refl needs st⟩
  refused st path bias rest absent _ failed sound entry := by
    obtain ⟨_, mapped, -⟩ := sound.enter afford entry absent
    rw [mapped] at failed
    cases failed
  entered st path bias needed rest st' absent _ mapped loop sound entry := by
    obtain ⟨less, mapped', entered⟩ := sound.enter afford entry absent
    cases mapped.symm.trans mapped'
    obtain ⟨sound', loaded, closing⟩ := loop (entered bias) (entries path entry.member)
    have names := Loader.push_names (st.withKernel rest)
      { name := path, base := bias, library := true }
    refine ⟨sound', closing.keeps path (by rw [names]; simp), ?_, ?_⟩
    · intro x present
      exact closing.keeps x (by rw [names]; exact List.mem_append_left _ present)
    · intro x present old y needed
      by_cases same : x = path
      · exact loaded y (same ▸ needed)
      · refine closing.closed x present ?_ y needed
        rw [names, List.mem_append, List.mem_singleton]
        exact fun either => either.elim old same
  nil st sound _ := ⟨sound, nofun, .refl needs st⟩
  cons st lib rest mid st' call loop sound entry := by
    obtain ⟨sound', present, first⟩ := call sound (entry lib List.mem_cons_self)
    obtain ⟨sound'', loaded, second⟩ := loop sound'.advance
      fun other member => entry other (List.mem_cons_of_mem lib member)
    have later : Closing needs mid st' := by
      constructor
      · intro x member
        exact second.keeps x (by rwa [Loader.advance_names])
      · intro x member absent
        exact second.closed x member (by rwa [Loader.advance_names])
    refine ⟨sound'', fun other member => ?_, first.trans later⟩
    rcases List.mem_cons.mp member with rfl | member
    · exact later.keeps other present
    · exact loaded other member

/-- An object that is mapped already is entered with everything it needs. -/
theorem Sound.initObject {root : Root α} (member : root ∈ roots) (fresh : root.name ∉ done)
    (sound : Sound files roots all kernel done st) :
    Sound files roots all kernel (root.name :: done) (initObject files st root) ∧
      root.name ∈ (initObject files st root).names ∧
      Closing needs st (initObject files st root) := by
  obtain ⟨listed, own⟩ := graph.root root member
  have absent : root.name ∉ st.names := by
    intro present
    obtain ⟨object, present, same⟩ := List.mem_map.mp present
    have origin := sound.origin object present
    rw [same] at origin
    split at origin
    · exact origin (List.mem_map_of_mem member)
    · exact fresh origin
  have room := sound.room graph listed absent
  have names := Loader.push_names st { name := root.name, base := root.base, library := false }
  have pushed : Sound files roots all kernel (root.name :: done)
      (st.push { name := root.name, base := root.base, library := false }) := by
    constructor
    · intro x present
      rw [names] at present
      rcases List.mem_append.mp present with present | new
      · exact sound.members x present
      · exact List.mem_singleton.mp new ▸ listed
    · rw [names]
      exact List.nodup_append'.mpr
        ⟨sound.nodup, List.nodup_singleton root.name, by simpa using absent⟩
    · intro object present
      rcases List.mem_append.mp present with present | new
      · have origin := sound.origin object present
        split at origin
        · rw [if_pos ‹_›]
          exact origin
        · rw [if_neg ‹_›]
          exact List.mem_cons_of_mem root.name origin
      · cases List.mem_singleton.mp new
        exact List.mem_cons_self
    · simpa using sound.descriptors
    · simpa using sound.regions
  unfold Linker.initObject
  rw [if_neg (Nat.not_le.mpr room)]
  have depth : maxObjects ≤ maxObjects - 1 +
      (st.push { name := root.name, base := root.base, library := false }).objects.length := by
    rw [Loader.push_objects, List.length_append, List.length_singleton]
    omega
  obtain ⟨sound', loaded, closing⟩ := (complete_rules graph afford entries _).loadNeeded _
    root.needed _ depth pushed fun lib needed => entries root.name listed lib (own ▸ needed)
  refine ⟨sound', closing.keeps _ (by rw [names]; simp), ?_, ?_⟩
  · intro x present
    exact closing.keeps x (by rw [names]; exact List.mem_append_left _ present)
  · intro x present old y needed
    by_cases same : x = root.name
    · exact loaded y (by rw [own]; exact same ▸ needed)
    · refine closing.closed x present ?_ y needed
      rw [names, List.mem_append, List.mem_singleton]
      exact fun either => either.elim old same

theorem Sound.foldl (rest : List (Root α)) :
    ∀ (done : List α) (st : Loader α), (∀ root ∈ rest, root ∈ roots ∧ root.name ∉ done) →
      (rest.map Root.name).Nodup → Sound files roots all kernel done st →
      (∀ root ∈ rest, root.name ∈ (rest.foldl (Linker.initObject files) st).names) ∧
        Closing needs st (rest.foldl (Linker.initObject files) st) := by
  induction rest with
  | nil => intro done st _ _ _; exact ⟨nofun, .refl needs st⟩
  | cons root rest ih =>
    intro done st fresh distinct sound
    obtain ⟨member, new⟩ := fresh root List.mem_cons_self
    obtain ⟨notLater, distinct⟩ := List.nodup_cons.mp distinct
    obtain ⟨sound', present, first⟩ := sound.initObject graph afford entries member new
    have later : ∀ other ∈ rest, other ∈ roots ∧ other.name ∉ root.name :: done := by
      intro other listed
      obtain ⟨isRoot, notDone⟩ := fresh other (List.mem_cons_of_mem root listed)
      refine ⟨isRoot, fun either => ?_⟩
      rcases List.mem_cons.mp either with same | old
      · exact notLater (same ▸ List.mem_map_of_mem listed)
      · exact notDone old
    obtain ⟨loaded, second⟩ := ih (root.name :: done) _ later distinct sound'
    refine ⟨fun other listed => ?_, first.trans second⟩
    rcases List.mem_cons.mp listed with rfl | listed
    · exact second.keeps _ present
    · exact loaded other listed

/-- With enough descriptors and regions the table ends up with every object of the graph. -/
theorem foldl_complete :
    ∀ x ∈ all, x ∈ (roots.foldl (initObject files)
      { objects := [], nextBias := libLoadBase, kernel := kernel }).names := by
  have empty : Sound files roots all kernel []
      { objects := [], nextBias := libLoadBase, kernel := kernel } :=
    ⟨nofun, List.nodup_nil, nofun, rfl, rfl⟩
  obtain ⟨loaded, closing⟩ := Sound.foldl graph afford entries roots [] _
    (fun root member => ⟨member, nofun⟩) afford.distinct empty
  intro x member
  obtain ⟨root, isRoot, path⟩ := graph.reached x member
  induction path with
  | refl => exact loaded root isRoot
  | tail before needed ih =>
    exact closing.closed _ (ih (Graph.mem_of_reached graph isRoot before)) nofun _ needed

end

end Complete

/-- The entries of a file. -/
def entriesOf (files : Nat → Option (SharedObject Nat)) (name : Nat) : List Nat :=
  (files name).elim [] SharedObject.needed

theorem acyclic_of_rank {needs : Nat → List Nat} (rank : Nat → Nat)
    (falls : ∀ x, ∀ y ∈ needs x, rank y < rank x) (x : Nat) :
    ¬ Relation.TransGen (Needs needs) x x := by
  have lower : ∀ {y}, Relation.TransGen (Needs needs) x y → rank y < rank x := by
    intro y path
    induction path with
    | single needed => exact falls _ _ needed
    | tail _ needed ih => exact Nat.lt_trans (falls _ _ needed) ih
  exact fun cycle => Nat.lt_irrefl _ (lower cycle)

def flatRoot : Root Nat :=
  { name := 0, base := mainLoadBase, needed := [1, 2], fits := by decide }

theorem flatRank_falls : ∀ x, ∀ y ∈ entriesOf flat x,
    (if y = 0 then 1 else 0) < if x = 0 then 1 else 0
  | 0 => by decide
  | 1 => by decide
  | 2 => by decide
  | _ + 3 => nofun

theorem graph_flat : Graph [flatRoot] (entriesOf flat) [0, 1, 2] where
  root := by decide
  closed := by decide
  reached x member := by
    refine ⟨flatRoot, List.mem_singleton.mpr rfl, ?_⟩
    rcases member with _ | ⟨_, member⟩
    · exact .refl
    · exact .single (show x ∈ [1, 2] from member)
  acyclic := acyclic_of_rank _ flatRank_falls
  nodup := by decide
  size := by decide

/-- The main program 0 needs 1 and 2, and 2 needs 1. -/
def shared : Nat → Option (SharedObject Nat)
  | 0 => some (smallObject [1, 2] (show 32 ≤ 16384 by decide))
  | 1 => some (smallObject [] (Nat.zero_le _))
  | 2 => some (smallObject [1] (show 16 ≤ 16384 by decide))
  | _ => none

def sharedRank (x : Nat) : Nat := if x = 0 then 2 else if x = 2 then 1 else 0

theorem sharedRank_falls : ∀ x, ∀ y ∈ entriesOf shared x, sharedRank y < sharedRank x
  | 0 => by decide
  | 1 => by decide
  | 2 => by decide
  | _ + 3 => nofun

end OsArmv8a.Linker
