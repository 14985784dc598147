import OsArmv8a.RamfsMap

/-! Open files and mapped files of `ramfs.c`, with `fs_open`, `fs_read` and the file mappings of
`sys_mmap`. -/

set_option autoImplicit false

namespace OsArmv8a.Ramfs

/-- A `struct file` on a ramfs vnode. The node is a pointer into the table; `path` is the name that the
file was opened by. -/
structure File where
  node : Fin 32
  path : Path
  offset : Nat
  size : Nat
  deriving DecidableEq

/-- What `sys_mmap` gives to `process_add_region`: the buffer, the offset and the number of bytes behind
it that page faults copy. `path` is that of the mapped file. -/
structure Region where
  path : Path
  data : Nat
  offset : Nat
  fileSize : Nat
  deriving DecidableEq

structure Opened where
  fs : State
  files : List File
  regions : List Region

namespace Opened

/-- `vfs_lookup` and `ramfs_open`. -/
def openFile (s : Opened) (path : Path) : Option Opened :=
  (s.fs.findNode path).map fun i =>
    { s with files := s.files ++ [{ node := i, path := path, offset := 0, size := (s.fs.nodes i).size }] }

/-- How many bytes `ramfs_read` copies. -/
def readCount (s : Opened) (file : File) (len : Nat) : Nat :=
  let node := s.fs.nodes file.node
  if node.size ≤ file.offset then 0 else min len (node.size - file.offset)

/-- The bytes that `ramfs_read` copies. -/
def readBytes (s : Opened) (file : File) (len : Nat) : List UInt8 :=
  ((s.fs.contents (s.fs.nodes file.node).data).drop file.offset).take (s.readCount file len)

def readFile (s : Opened) (f : Nat) (file : File) (len : Nat) : Opened :=
  { s with files := s.files.set f { file with offset := file.offset + s.readCount file len } }

/-- `sys_mmap` of a file; the file size of the region is computed modulo `2^64`. -/
def mapFile (s : Opened) (file : File) (offset : Nat) : Opened :=
  { s with regions := s.regions ++
      [{ path := file.path, data := (s.fs.nodes file.node).data, offset := offset,
         fileSize := if offset ≤ file.size then file.size - offset else file.size + 2 ^ 64 - offset }] }

end Opened

/-- The effect of an operation on the table. -/
def State.apply (s : State) : Label → State
  | .builtin path bytes => (s.addBuiltin path bytes).2
  | .register path bytes memory => (s.registerFile path bytes memory).2
  | .unregister path => (s.unregisterFile path).2

inductive FileLabel where
  | table (label : Label)
  | open (path : Path)
  | close (f : Nat)
  | read (f len : Nat)
  | mmap (f offset : Nat)
  | munmap (r : Nat)
  deriving DecidableEq

def fileStep (s : Opened) : FileLabel → Option Opened
  | .table label => some { s with fs := s.fs.apply label }
  | .open path => s.openFile path
  | .close f => some { s with files := s.files.eraseIdx f }
  | .read f len => s.files[f]?.map fun file => s.readFile f file len
  | .mmap f offset => s.files[f]?.map fun file => s.mapFile file offset
  | .munmap r => some { s with regions := s.regions.eraseIdx r }

def opened : Opened := { fs := empty, files := [], regions := [] }

/-- The byte of the buffer is one of the file that has this path, and the buffer has not been freed. -/
def State.Serves (s : State) (path : Path) (b k : Nat) : Prop :=
  s.freed b = 0 ∧ k < (s.contents b).length ∧
    ∃ i, (s.nodes i).inUse = true ∧ (s.nodes i).path = path ∧ (s.nodes i).data = b

/-- Nobody has the node open, and no region maps its buffer. -/
def Opened.Unshared (s : Opened) (i : Fin 32) : Prop :=
  (∀ file ∈ s.files, file.node ≠ i) ∧ ∀ region ∈ s.regions, region.data ≠ (s.fs.nodes i).data

instance (s : Opened) (i : Fin 32) : Decidable (s.Unshared i) := inferInstanceAs (Decidable (_ ∧ _))

/-- Files are replaced and unregistered only while nobody has them open or mapped, paths fit into a
node, and mappings start inside the file. -/
def Careful (s : Opened) : FileLabel → Prop
  | .table (.builtin path _) => path.length ≤ 63 ∧ s.fs.findNode path = none
  | .table (.register path _ _) => path.length ≤ 63 ∧ ∀ i ∈ s.fs.findNode path, s.Unshared i
  | .table (.unregister path) => ∀ i ∈ s.fs.findNode path, s.Unshared i
  | .mmap f offset => ∀ file ∈ s.files[f]?, offset ≤ file.size
  | _ => True

instance (s : Opened) (label : FileLabel) : Decidable (Careful s label) := by
  unfold Careful
  split <;> infer_instance

/-- Open files and regions refer to nodes in use that still have their path. -/
structure Stable (s : Opened) : Prop where
  sound : Sound s.fs
  files : ∀ file ∈ s.files, (s.fs.nodes file.node).inUse = true ∧
    (s.fs.nodes file.node).path = file.path ∧ (s.fs.nodes file.node).size = file.size
  regions : ∀ region ∈ s.regions, ∃ i, (s.fs.nodes i).inUse = true ∧
    (s.fs.nodes i).path = region.path ∧ (s.fs.nodes i).data = region.data ∧
      region.offset + region.fileSize = (s.fs.nodes i).size

section Stable

variable {s r : Opened}

/-- A change of the table that leaves alone the nodes which files or regions refer to. -/
theorem Stable.table (inv : Stable s) {fs : State} (sound : Sound fs)
    (same : ∀ j, (s.fs.nodes j).inUse = true → ¬ s.Unshared j → fs.nodes j = s.fs.nodes j) :
    Stable { s with fs := fs } := by
  refine ⟨sound, fun file mem => ?_, fun region mem => ?_⟩
  · have before := inv.files file mem
    have node := same file.node before.1 fun unshared => unshared.1 file mem rfl
    rw [node]
    exact before
  · obtain ⟨i, used, path, data, size⟩ := inv.regions region mem
    have node := same i used fun unshared => unshared.2 region mem data.symm
    exact ⟨i, by rw [node]; exact ⟨used, path, data, size⟩⟩

theorem Stable.place (inv : Stable s) {i : Fin 32} {path : Path} {bytes : List UInt8} {owns : Bool}
    (fits : SlotTable.Fits s.fs.table path i)
    (unshared : (s.fs.nodes i).inUse = true → s.Unshared i) :
    Stable { s with fs := s.fs.place i path bytes owns } := by
  refine inv.table (inv.sound.place fits) fun j used shared => ?_
  rw [place_nodes, if_neg]
  rintro rfl
  exact shared (unshared used)

theorem Stable.apply (inv : Stable s) {label : Label} (careful : Careful s (.table label)) :
    Stable { s with fs := s.fs.apply label } := by
  cases label with
  | builtin path bytes =>
    rcases addBuiltin_cases bytes careful.1 careful.2 with failed | ⟨i, fits, free, done⟩
    · rw [State.apply, failed]
      exact inv
    · rw [State.apply, done]
      refine inv.place fits fun used => ?_
      have unused : (s.fs.nodes i).inUse = false := by simpa using List.find?_some free
      rw [unused] at used
      cases used
  | register path bytes memory =>
    rcases registerFile_cases bytes memory careful.1 with failed | ⟨i, fits, chosen, done⟩
    · rw [State.apply, failed]
      exact inv
    · rw [State.apply, done]
      refine inv.place fits fun used => ?_
      rcases fits with found | ⟨_, empty⟩
      · exact careful.2 i (State.findNode_eq.trans found)
      · rw [State.table_none.mp empty] at used
        cases used
  | unregister path =>
    rcases unregisterFile_cases s.fs path with ⟨failed, _⟩ | ⟨i, found, done⟩
    · rw [State.apply, failed]
      exact inv
    · rw [State.apply, done]
      refine inv.table (inv.sound.drop (findNode_inUse found).1) fun j used shared => ?_
      rw [drop_nodes, if_neg]
      rintro rfl
      exact shared (careful j found)

theorem Stable.step {label : FileLabel} (inv : Stable s) (careful : Careful s label)
    (taken : fileStep s label = some r) : Stable r := by
  cases label with
  | table label =>
    cases taken
    exact inv.apply careful
  | «open» path =>
    obtain ⟨i, found, rfl⟩ := Option.map_eq_some_iff.mp taken
    refine ⟨inv.sound, fun file mem => ?_, inv.regions⟩
    rcases List.mem_append.mp mem with old | new
    · exact inv.files file old
    · obtain rfl := List.mem_singleton.mp new
      obtain ⟨used, same⟩ := findNode_inUse found
      exact ⟨used, same, rfl⟩
  | close f =>
    cases taken
    exact ⟨inv.sound, fun file mem => inv.files file (List.mem_of_mem_eraseIdx mem), inv.regions⟩
  | read f len =>
    obtain ⟨file, here, rfl⟩ := Option.map_eq_some_iff.mp taken
    refine ⟨inv.sound, fun other mem => ?_, inv.regions⟩
    rcases List.mem_or_eq_of_mem_set mem with old | rfl
    · exact inv.files other old
    · exact inv.files file (List.mem_of_getElem? here)
  | mmap f offset =>
    obtain ⟨file, here, rfl⟩ := Option.map_eq_some_iff.mp taken
    have inside : offset ≤ file.size := careful file here
    obtain ⟨used, path, size⟩ := inv.files file (List.mem_of_getElem? here)
    refine ⟨inv.sound, inv.files, fun region mem => ?_⟩
    rcases List.mem_append.mp mem with old | new
    · exact inv.regions region old
    · obtain rfl := List.mem_singleton.mp new
      refine ⟨file.node, used, path, rfl, ?_⟩
      show offset + (if offset ≤ file.size then _ else _) = (s.fs.nodes file.node).size
      rw [if_pos inside, size]
      omega
  | munmap r =>
    cases taken
    exact ⟨inv.sound, inv.files, fun region mem => inv.regions region (List.mem_of_mem_eraseIdx mem)⟩

theorem opened_stable : Stable opened := by
  refine ⟨init_faithful.sound, ?_, ?_⟩ <;> intro _ mem <;> cases mem

/-- A node in use serves the bytes of its file. -/
theorem Sound.serves {fs : State} (inv : Sound fs) {i : Fin 32} (used : (fs.nodes i).inUse = true) {k : Nat}
    (small : k < (fs.nodes i).size) : fs.Serves (fs.nodes i).path (fs.nodes i).data k := by
  obtain ⟨_, _, size⟩ := inv.data i used
  exact ⟨inv.live i used, by omega, i, used, rfl, rfl⟩

theorem Sound.lookup_node {fs : State} (inv : Sound fs) {i : Fin 32} (used : (fs.nodes i).inUse = true) :
    fs.lookup (fs.nodes i).path = some (fs.contents (fs.nodes i).data) := by
  have got : SlotTable.get fs.table (fs.nodes i).path = some (fs.nodes i) :=
    (SlotTable.get_eq_some inv.distinct).mpr ⟨i, State.table_some.mpr ⟨used, rfl, rfl⟩⟩
  rw [State.lookup_eq, got, Option.map_some, State.bytes, (inv.data i used).2.2, List.take_length]

end Stable

/-- A file is opened, mapped and read while another one comes and goes. -/
def sharing : List FileLabel :=
  [.table (.register (letters 1) [1, 2, 3] true), .open (letters 1), .mmap 0 1,
    .table (.register (letters 2) [9] true), .read 0 2, .table (.unregister (letters 2))]

end OsArmv8a.Ramfs
