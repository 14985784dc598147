import OsArmv8a.Lib.Word64

/-! The object table of the dynamic linker (`user/linker/ld_main.c`): `ld_load_object`,
`ld_load_needed`, `ld_init_object_from_phdr` and the start-up paths of `ld_main`. -/

set_option autoImplicit false

namespace OsArmv8a.Linker

/-- `MAX_OBJECTS`. -/
def maxObjects : Nat := 16

/-- `LD_MAIN_LOAD_BASE`, `LD_LIB_LOAD_BASE` and `LD_LIB_LOAD_STRIDE`. -/
def mainLoadBase : Nat := 0x4000000
def libLoadBase : Nat := 0x5000000
def libLoadStride : Nat := 0x1000000

/-- A file that `ld_open_object` finds. `valid` says that its headers can be read and pass
`ld_validate_ehdr`, and `segments` is the number of its `PT_LOAD` headers. `needed` are the
`DT_NEEDED` entries that `ld_load_needed` reads once the file is mapped, in order: its own, unless
its image lies over another one. The image takes `span` bytes from the load bias on, among them
16 for each entry. -/
structure SharedObject (α : Type) where
  valid : Bool
  segments : Nat
  needed : List α
  span : Nat
  fits : 16 * needed.length ≤ span ∧ span < libLoadStride

/-- What the kernel has left for the task: file descriptors, which the linker never closes,
and entries of `regions[PROCESS_VM_REGIONS_MAX]`. -/
structure Kernel where
  descriptors : Nat
  regions : Nat
  deriving DecidableEq, Repr

/-- `struct ld_object`; `library` says that `ld_load_needed` asked for it. -/
structure Object (α : Type) where
  name : α
  base : Nat
  library : Bool
  deriving DecidableEq, Repr

/-- `g_objects[0 .. g_object_count)`, the static `next_bias` and the kernel's side. -/
structure Loader (α : Type) where
  objects : List (Object α)
  nextBias : Nat
  kernel : Kernel
  deriving DecidableEq, Repr

namespace Loader

variable {α : Type}

def names (st : Loader α) : List α := st.objects.map Object.name

def push (st : Loader α) (object : Object α) : Loader α :=
  { st with objects := st.objects ++ [object] }

def withKernel (st : Loader α) (kernel : Kernel) : Loader α := { st with kernel := kernel }

/-- `next_bias += LD_LIB_LOAD_STRIDE`. -/
@[irreducible] def advance (st : Loader α) : Loader α :=
  { st with nextBias := Word64.add st.nextBias libLoadStride }

section

variable (st : Loader α)

include st

@[simp] theorem push_objects (object : Object α) :
    (st.push object).objects = st.objects ++ [object] := rfl

@[simp] theorem push_nextBias (object : Object α) : (st.push object).nextBias = st.nextBias := rfl

@[simp] theorem push_kernel (object : Object α) : (st.push object).kernel = st.kernel := rfl

@[simp] theorem withKernel_objects (kernel : Kernel) :
    (st.withKernel kernel).objects = st.objects := rfl

@[simp] theorem withKernel_nextBias (kernel : Kernel) :
    (st.withKernel kernel).nextBias = st.nextBias := rfl

@[simp] theorem withKernel_kernel (kernel : Kernel) : (st.withKernel kernel).kernel = kernel := rfl

@[simp] theorem advance_objects : st.advance.objects = st.objects := by
  cases st
  rw [advance]

@[simp] theorem advance_kernel : st.advance.kernel = st.kernel := by
  cases st
  rw [advance]

@[simp] theorem advance_nextBias : st.advance.nextBias = Word64.add st.nextBias libLoadStride := by
  cases st
  rw [advance]

theorem push_names (object : Object α) : (st.push object).names = st.names ++ [object.name] := by
  simp [names]

theorem withKernel_names (kernel : Kernel) : (st.withKernel kernel).names = st.names := rfl

theorem advance_names : st.advance.names = st.names := by
  simp [names]

end

end Loader

/-- An object the kernel has mapped already, as the auxiliary vector describes it. -/
structure Root (α : Type) where
  name : α
  base : Nat
  needed : List α
  fits : 16 * needed.length < libLoadStride

/-- How `ld_main` is entered: as the interpreter of an application, or on its own with the
path of a file to load. -/
inductive Start (α : Type) where
  | interpreter (app ld : Root α)
  | standalone (path : α)

section Load

variable {α : Type} [DecidableEq α] (files : α → Option (SharedObject α))

/-- Opening, checking and mapping a file. A `mmap` that fails leaves the regions of the
segments before it in place. -/
def mapObject (kernel : Kernel) (path : α) : Option (List α) × Kernel :=
  match files path with
  | none => (none, kernel)
  | some object =>
    if kernel.descriptors = 0 then (none, kernel)
    else if object.valid = false then
      (none, { kernel with descriptors := kernel.descriptors - 1 })
    else if object.segments ≤ kernel.regions then
      (some object.needed, { descriptors := kernel.descriptors - 1,
                             regions := kernel.regions - object.segments })
    else (none, { descriptors := kernel.descriptors - 1, regions := 0 })

/-- `ld_load_object`, with the loop of `ld_load_needed` for the new object. The depth of the
recursion is bounded by the room in the table: every level has added an object. -/
def loadObject : Nat → Bool → Loader α → α → Nat → Loader α
  | 0, _, st, _, _ => st
  | depth + 1, library, st, path, bias =>
    if path ∈ st.names then st
    else if maxObjects ≤ st.objects.length then st
    else
      match mapObject files st.kernel path with
      | (none, kernel) => st.withKernel kernel
      | (some needed, kernel) =>
        needed.foldl (fun st lib => (loadObject depth true st lib st.nextBias).advance)
          ((st.withKernel kernel).push { name := path, base := bias, library := library })

/-- `ld_load_needed`. The cursor is read before the call and advanced after it. -/
def loadNeeded (depth : Nat) (st : Loader α) (needed : List α) : Loader α :=
  needed.foldl (fun st lib => (loadObject files depth true st lib st.nextBias).advance) st

/-- `ld_init_object_from_phdr`. It does not look for the name in the table. -/
def initObject (st : Loader α) (root : Root α) : Loader α :=
  if maxObjects ≤ st.objects.length then st
  else loadNeeded files (maxObjects - 1)
    (st.push { name := root.name, base := root.base, library := false }) root.needed

/-- The table that `ld_main` builds. -/
def ldMain (kernel : Kernel) : Start α → Loader α
  | .interpreter app ld =>
    [app, ld].foldl (initObject files) { objects := [], nextBias := libLoadBase, kernel := kernel }
  | .standalone path =>
    loadObject files maxObjects false { objects := [], nextBias := libLoadBase, kernel := kernel }
      path mainLoadBase

/-- The names `ld_call_init` is called for, in the order of the calls. -/
def initCalls (st : Loader α) : List α := st.names.reverse

variable {files}

theorem loadNeeded_nil (depth : Nat) (st : Loader α) : loadNeeded files depth st [] = st := rfl

theorem loadNeeded_cons (depth : Nat) (st : Loader α) (lib : α) (rest : List α) :
    loadNeeded files depth st (lib :: rest) =
      loadNeeded files depth (loadObject files depth true st lib st.nextBias).advance rest := rfl

theorem loadObject_succ (depth : Nat) (library : Bool) (st : Loader α) (path : α) (bias : Nat) :
    loadObject files (depth + 1) library st path bias =
      if path ∈ st.names then st
      else if maxObjects ≤ st.objects.length then st
      else
        match mapObject files st.kernel path with
        | (none, kernel) => st.withKernel kernel
        | (some needed, kernel) =>
          loadNeeded files depth
            ((st.withKernel kernel).push { name := path, base := bias, library := library })
            needed := rfl

end Load

section Rule

variable {α : Type} [DecidableEq α] {files : α → Option (SharedObject α)}
  {call : Loader α → α → Nat → Loader α → Prop} {loop : Loader α → List α → Loader α → Prop}

/-- What has to be shown of `ld_load_object` and of the loop of `ld_load_needed`, one clause for
each way through them. -/
structure Rules (files : α → Option (SharedObject α))
    (call : Loader α → α → Nat → Loader α → Prop) (loop : Loader α → List α → Loader α → Prop) :
    Prop where
  found : ∀ st path bias, path ∈ st.names → call st path bias st
  full : ∀ st path bias, maxObjects ≤ st.objects.length → call st path bias st
  refused : ∀ st path bias kernel, path ∉ st.names → st.objects.length < maxObjects →
    mapObject files st.kernel path = (none, kernel) → call st path bias (st.withKernel kernel)
  entered : ∀ st path bias needed kernel st', path ∉ st.names → st.objects.length < maxObjects →
    mapObject files st.kernel path = (some needed, kernel) →
    loop ((st.withKernel kernel).push { name := path, base := bias, library := true }) needed st' →
    call st path bias st'
  nil : ∀ st, loop st [] st
  cons : ∀ st lib rest st' st'', call st lib st.nextBias st' → loop st'.advance rest st'' →
    loop st (lib :: rest) st''

/-- The table only grows. -/
theorem loadObject_length (files : α → Option (SharedObject α)) (depth : Nat) :
    ∀ (library : Bool) (st : Loader α) (path : α) (bias : Nat),
    st.objects.length ≤ (loadObject files depth library st path bias).objects.length := by
  induction depth with
  | zero => intro library st path bias; exact Nat.le_refl _
  | succ depth ih =>
    have fold : ∀ (needed : List α) (st : Loader α),
        st.objects.length ≤ (loadNeeded files depth st needed).objects.length := by
      intro needed
      induction needed with
      | nil => intro st; exact Nat.le_refl _
      | cons lib rest rec =>
        intro st
        have first := ih true st lib st.nextBias
        have later := rec (loadObject files depth true st lib st.nextBias).advance
        rw [Loader.advance_objects] at later
        exact Nat.le_trans first later
    intro library st path bias
    rw [loadObject_succ]
    split
    · exact Nat.le_refl _
    split
    · exact Nat.le_refl _
    split
    · exact Nat.le_refl _
    · refine Nat.le_trans ?_ (fold _ _)
      rw [Loader.push_objects, Loader.withKernel_objects, List.length_append]
      exact Nat.le_add_right _ _

/-- With depth for the room left in the table the recursion never stops early, and what holds of
every way through the code holds of the whole of it. -/
theorem Rules.loadObject (rules : Rules files call loop) (depth : Nat) :
    ∀ (st : Loader α) (path : α) (bias : Nat), maxObjects ≤ depth + st.objects.length →
      call st path bias (loadObject files depth true st path bias) := by
  induction depth with
  | zero =>
    intro st path bias room
    exact rules.full st path bias (by rwa [Nat.zero_add] at room)
  | succ depth ih =>
    have fold : ∀ (needed : List α) (st : Loader α), maxObjects ≤ depth + st.objects.length →
        loop st needed (loadNeeded files depth st needed) := by
      intro needed
      induction needed with
      | nil => intro st _; exact rules.nil st
      | cons lib rest rec =>
        intro st room
        have grows := loadObject_length files depth true st lib st.nextBias
        refine rules.cons st lib rest _ _ (ih st lib st.nextBias room) (rec _ ?_)
        rw [Loader.advance_objects]
        omega
    intro st path bias room
    rw [loadObject_succ]
    split
    · rename_i present
      exact rules.found st path bias present
    rename_i absent
    split
    · rename_i full
      exact rules.full st path bias full
    split
    · rename_i kernel failed
      exact rules.refused st path bias kernel absent (by omega) failed
    · rename_i needed kernel mapped
      refine rules.entered st path bias needed kernel _ absent (by omega) mapped (fold _ _ ?_)
      rw [Loader.push_objects, Loader.withKernel_objects, List.length_append,
        List.length_singleton]
      omega

theorem Rules.loadNeeded (rules : Rules files call loop) (depth : Nat) (needed : List α) :
    ∀ st : Loader α, maxObjects ≤ depth + st.objects.length →
      loop st needed (loadNeeded files depth st needed) := by
  induction needed with
  | nil => intro st _; exact rules.nil st
  | cons lib rest ih =>
    intro st room
    have grows := loadObject_length files depth true st lib st.nextBias
    refine rules.cons st lib rest _ _ (rules.loadObject depth st lib st.nextBias room) (ih _ ?_)
    rw [Loader.advance_objects]
    omega

end Rule

section Discovery

variable {α : Type}

/-- A depth-first search over `DT_NEEDED`: the objects in the order it discovers them, each with
whether it was reached through an entry, and what the kernel has left. -/
structure Search (α : Type) where
  order : List (α × Bool)
  kernel : Kernel

def Search.enter (search : Search α) (name : α) (library : Bool) (kernel : Kernel) : Search α :=
  { order := search.order ++ [(name, library)], kernel := kernel }

/-- The table without its load biases. -/
def Loader.search (st : Loader α) : Search α :=
  { order := st.objects.map fun object => (object.name, object.library), kernel := st.kernel }

@[simp] theorem search_advance (st : Loader α) : st.advance.search = st.search := by
  simp [Loader.search]

theorem search_names (st : Loader α) : st.search.order.map Prod.fst = st.names := by
  simp [Loader.search, Loader.names]

theorem search_length (st : Loader α) : st.search.order.length = st.objects.length := by
  simp [Loader.search]

theorem search_push (st : Loader α) (kernel : Kernel) (name : α) (base : Nat) (library : Bool) :
    ((st.withKernel kernel).push { name := name, base := base, library := library }).search =
      st.search.enter name library kernel := by
  simp [Loader.search, Search.enter]

variable [DecidableEq α]

/-- An object that is not there yet and can be mapped is discovered, then what it needs. -/
def discover (files : α → Option (SharedObject α)) : Nat → Bool → Search α → α → Search α
  | 0, _, search, _ => search
  | depth + 1, library, search, path =>
    if path ∈ search.order.map Prod.fst then search
    else if maxObjects ≤ search.order.length then search
    else
      match mapObject files search.kernel path with
      | (none, kernel) => { search with kernel := kernel }
      | (some needed, kernel) =>
        needed.foldl (discover files depth true) (search.enter path library kernel)

def discoverRoot (files : α → Option (SharedObject α)) (search : Search α) (root : Root α) :
    Search α :=
  if maxObjects ≤ search.order.length then search
  else root.needed.foldl (discover files (maxObjects - 1) true)
    (search.enter root.name false search.kernel)

/-- The search behind `ldMain`. -/
def discoverMain (files : α → Option (SharedObject α)) (kernel : Kernel) : Start α → Search α
  | .interpreter app ld => [app, ld].foldl (discoverRoot files) { order := [], kernel := kernel }
  | .standalone path => discover files maxObjects false { order := [], kernel := kernel } path

theorem loadNeeded_search {files : α → Option (SharedObject α)} {depth : Nat}
    (call : ∀ (st : Loader α) (path : α) (bias : Nat),
      (loadObject files depth true st path bias).search = discover files depth true st.search path)
    (needed : List α) : ∀ st : Loader α, (loadNeeded files depth st needed).search =
      needed.foldl (discover files depth true) st.search := by
  induction needed with
  | nil => intro st; rfl
  | cons lib rest ih =>
    intro st
    rw [loadNeeded_cons, ih, search_advance, call, List.foldl_cons]

theorem loadObject_search (files : α → Option (SharedObject α)) (depth : Nat) :
    ∀ (library : Bool) (st : Loader α) (path : α) (bias : Nat),
      (loadObject files depth library st path bias).search =
        discover files depth library st.search path := by
  induction depth with
  | zero => intro library st path bias; rfl
  | succ depth ih =>
    intro library st path bias
    rw [loadObject_succ, discover, search_names, search_length]
    split
    · rfl
    split
    · rfl
    show _ = match mapObject files st.kernel path with
      | (none, kernel) => _
      | (some needed, kernel) => _
    split
    · rfl
    · rw [loadNeeded_search (ih true), search_push]

theorem initObject_search (files : α → Option (SharedObject α)) (st : Loader α) (root : Root α) :
    (initObject files st root).search = discoverRoot files st.search root := by
  unfold initObject discoverRoot
  rw [search_length]
  split
  · rfl
  · have pushed : (st.push { name := root.name, base := root.base, library := false }).search =
        st.search.enter root.name false st.kernel :=
      search_push st st.kernel root.name root.base false
    rw [loadNeeded_search (loadObject_search files _ true), pushed]
    rfl

/-- The linker fills its table in the order of the search. -/
theorem ldMain_search (files : α → Option (SharedObject α)) (kernel : Kernel) (start : Start α) :
    (ldMain files kernel start).search = discoverMain files kernel start := by
  cases start with
  | interpreter app ld =>
    show (initObject files (initObject files _ app) ld).search = discoverRoot files _ ld
    rw [initObject_search, initObject_search]
    rfl
  | standalone path => exact loadObject_search files maxObjects false _ path mainLoadBase

end Discovery

end OsArmv8a.Linker
