import OsArmv8a.Lib.SlotTable
import OsArmv8a.Lib.Transition

/-! The files of `ramfs.c`: a table of 32 nodes that is searched by path. -/

set_option autoImplicit false

namespace OsArmv8a.Ramfs

/-- A byte of a path in front of its terminating NUL. -/
abbrev PathByte := { byte : UInt8 // byte ≠ 0 }

abbrev Path := List PathByte

/-- `struct ramfs_node`; `data` is the name of a buffer. -/
structure Node where
  inUse : Bool
  ownsData : Bool
  path : Path
  data : Nat
  size : Nat

/-- Buffers are named by their allocation: `contents` are their bytes, `owned` says that `kmalloc` gave
the buffer, and `freed` counts the calls of `kfree`. -/
structure State where
  nodes : Fin 32 → Node
  contents : Nat → List UInt8
  owned : Nat → Bool
  next : Nat
  freed : Nat → Nat

/-- `ramfs_path_equals`. -/
def pathEquals : Path → Path → Bool
  | a :: lhs, b :: rhs => if a ≠ b then false else pathEquals lhs rhs
  | lhs, rhs => lhs.isEmpty && rhs.isEmpty

/-- The copy of a path into a node: 63 bytes at most. -/
def storedPath (path : Path) : Path := path.take 63

namespace State

/-- `ramfs_find_node`. -/
def findNode (s : State) (path : Path) : Option (Fin 32) :=
  (List.finRange 32).find? fun i => (s.nodes i).inUse && pathEquals (s.nodes i).path path

def freeNode (s : State) : Option (Fin 32) :=
  (List.finRange 32).find? fun i => !(s.nodes i).inUse

def setNode (s : State) (i : Fin 32) (node : Node) : State :=
  { s with nodes := fun j => if j = i then node else s.nodes j }

def buffer (s : State) (bytes : List UInt8) (owned : Bool) : State :=
  { s with
    contents := fun b => if b = s.next then bytes else s.contents b
    owned := fun b => if b = s.next then owned else s.owned b
    next := s.next + 1 }

def kfree (s : State) (b : Nat) : State :=
  { s with freed := fun c => if c = b then s.freed c + 1 else s.freed c }

/-- The bytes of a file that is looked up and read from its start. -/
def lookup (s : State) (path : Path) : Option (List UInt8) :=
  (s.findNode path).map fun i => (s.contents (s.nodes i).data).take (s.nodes i).size

/-- `ramfs_add_builtin`; the result says whether there was a free node. -/
def addBuiltin (s : State) (path : Path) (bytes : List UInt8) : Bool × State :=
  match s.freeNode with
  | none => (false, s)
  | some i =>
    (true, (s.buffer bytes false).setNode i
      { inUse := true, ownsData := false, path := storedPath path, data := s.next,
        size := bytes.length })

/-- The last part of `ramfs_register_file`, with the new copy of the bytes. -/
def fillNode (s : State) (i : Fin 32) (path : Path) (bytes : List UInt8) : State :=
  let node := s.nodes i
  let copied := s.buffer bytes true
  let freed := if node.inUse = true ∧ node.ownsData = true then copied.kfree node.data else copied
  freed.setNode i
    { inUse := true, ownsData := true, path := storedPath path, data := s.next, size := bytes.length }

/-- `ramfs_register_file`; `memory` says that `kmalloc` finds room for the copy. -/
def registerFile (s : State) (path : Path) (bytes : List UInt8) (memory : Bool) : Bool × State :=
  match (s.findNode path).or s.freeNode with
  | none => (false, s)
  | some i => if memory = true then (true, s.fillNode i path bytes) else (false, s)

/-- `ramfs_unregister_file`. -/
def unregisterFile (s : State) (path : Path) : Bool × State :=
  match s.findNode path with
  | none => (false, s)
  | some i =>
    let node := s.nodes i
    let freed := if node.ownsData = true then s.kfree node.data else s
    (true, freed.setNode i { node with inUse := false })

end State

/-- What has been done to the files, with success. -/
inductive Event where
  | registered (path : Path) (bytes : List UInt8)
  | unregistered (path : Path)

/-- The contents that a path has after these events, the last one first. -/
def expected : List Event → Path → Option (List UInt8)
  | [], _ => none
  | .registered other bytes :: log, path => if path = other then some bytes else expected log path
  | .unregistered other :: log, path => if path = other then none else expected log path

inductive Label where
  | builtin (path : Path) (bytes : List UInt8)
  | register (path : Path) (bytes : List UInt8) (memory : Bool)
  | unregister (path : Path)
  deriving DecidableEq

/-- A run of the table, with the events so far. -/
structure Run where
  fs : State
  log : List Event

namespace Run

def record (result : Bool × State) (log : List Event) (event : Event) : Run :=
  { fs := result.2, log := if result.1 = true then event :: log else log }

end Run

def step (s : Run) : Label → Option Run
  | .builtin path bytes =>
    some (Run.record (s.fs.addBuiltin path bytes) s.log (.registered path bytes))
  | .register path bytes memory =>
    if bytes = [] then none
    else some (Run.record (s.fs.registerFile path bytes memory) s.log (.registered path bytes))
  | .unregister path => some (Run.record (s.fs.unregisterFile path) s.log (.unregistered path))

def empty : State :=
  { nodes := fun _ => { inUse := false, ownsData := false, path := [], data := 0, size := 0 }
    contents := fun _ => []
    owned := fun _ => false
    next := 0
    freed := fun _ => 0 }

def init : Run := { fs := empty, log := [] }

end OsArmv8a.Ramfs
