import OsArmv8a.Elf
import OsArmv8a.Lib.Bytes

/-! The initial user stack: `process_populate_arg_stack` of `process.c` writes it downwards, and `ld_main`
of the dynamic linker reads it upwards from the stack pointer. -/

set_option autoImplicit false

namespace OsArmv8a.ArgStack

open Elf (LoadState userStackTop)

/-- The bytes of a C string in front of its NUL. -/
abbrev Text := List { byte : BitVec 8 // byte ≠ 0 }

def Text.terminated (text : Text) : List (BitVec 8) := text.map Subtype.val ++ [0]

/-- `LD_DEBUG=1`. -/
def envText : Text :=
  [⟨76, by decide⟩, ⟨68, by decide⟩, ⟨95, by decide⟩, ⟨68, by decide⟩, ⟨69, by decide⟩, ⟨66, by decide⟩,
    ⟨85, by decide⟩, ⟨71, by decide⟩, ⟨61, by decide⟩, ⟨49, by decide⟩]

/-- The staging buffer `kstack` with its cursor; cells that are `none` have not been written. -/
structure Staging where
  cells : Nat → Option (BitVec 8)
  ksp : Nat

namespace Staging

def text (s : Staging) (text : Text) : Staging :=
  { cells := Bytes.write s.cells (s.ksp - text.terminated.length) text.terminated
    ksp := s.ksp - text.terminated.length }

/-- `ksp &= ~15UL`. -/
def align (s : Staging) : Staging := { s with ksp := s.ksp / 16 * 16 }

@[simp] theorem align_cells (s : Staging) : s.align.cells = s.cells := rfl

def push (s : Staging) (word : Nat) : Staging :=
  { cells := Bytes.write s.cells (s.ksp - 8) (Bytes.wordBytes word), ksp := s.ksp - 8 }

/-- An entry of the auxiliary vector. -/
def pushAux (s : Staging) (type value : Nat) : Staging :=
  { cells := Bytes.write (Bytes.write s.cells (s.ksp - 16) (Bytes.wordBytes type)) (s.ksp - 16 + 8)
      (Bytes.wordBytes value)
    ksp := s.ksp - 16 }

/-- The user address of the cursor. -/
def va (s : Staging) : Nat := userStackTop - (1024 - s.ksp)

end Staging

def emptyStaging : Staging := { cells := fun _ => none, ksp := 1024 }

/-- The strings, up to the alignment for the pointers. A null `path` is written as an empty one. -/
def withPath (path : Text) : Staging := emptyStaging.text path

def withStrings (path : Text) : Staging := (withPath path).text envText

def pathVa (path : Text) : Nat := (withPath path).va

def envVa (path : Text) : Nat := (withStrings path).va

/-- The auxiliary vector, `envp`, `argv` and `argc`. -/
def withPointers (path : Text) (load : LoadState) : Staging :=
  let s := (withStrings path).align
  let s := s.pushAux 0 0
  let s := s.pushAux 6 4096
  let s := s.pushAux 31 (pathVa path)
  let s := s.pushAux 3 load.mainPhdrVa
  let s := s.pushAux 5 load.mainPhnum
  let s := s.pushAux 4 load.mainPhent
  let s := s.pushAux 7 load.interpLoadBias
  let s := s.pushAux 9 load.mainEntry
  let s := (s.push 0).push (envVa path)
  let s := (s.push 0).push (pathVa path)
  s.push 1

/-- `process_populate_arg_stack`. -/
def populateArgStack (path : Text) (load : LoadState) : Staging := (withPointers path load).align

/-- User memory after `mmu_copy_to_user`; cells that the kernel did not write hold what its stack
held. -/
def userMemory (s : Staging) (garbage old : Nat → BitVec 8) (va : Nat) : BitVec 8 :=
  if s.va ≤ va ∧ va < userStackTop then
    (s.cells (va - (userStackTop - 1024))).getD (garbage (va - (userStackTop - 1024)))
  else old va

/-- What `ld_main` finds. -/
structure Start where
  argc : Nat
  argv0 : Nat
  argv1 : Nat
  envp : List Nat
  auxv : List (Nat × Nat)
  deriving DecidableEq

/-- The loop over the environment, with the address where it stops. -/
def envLoop (mem : Nat → BitVec 8) : Nat → Nat → Option (List Nat × Nat)
  | 0, _ => none
  | fuel + 1, p =>
    if p = 0 ∨ Bytes.wordAt mem p = 0 then some ([], p)
    else (envLoop mem fuel (p + 8)).map fun rest => (Bytes.wordAt mem p :: rest.1, rest.2)

/-- The loop over the auxiliary vector, `AT_NULL` included. -/
def auxLoop (mem : Nat → BitVec 8) : Nat → Nat → Option (List (Nat × Nat))
  | 0, _ => none
  | fuel + 1, a =>
    let entry := (Bytes.wordAt mem a, Bytes.wordAt mem (a + 8))
    if entry.1 = 0 then some [entry] else (auxLoop mem fuel (a + 16)).map (entry :: ·)

/-- The start of `ld_main`. -/
def ldStart (mem : Nat → BitVec 8) (fuel stack : Nat) : Option Start :=
  let argc := Bytes.wordAt mem stack
  let argv := stack + 8
  (envLoop mem fuel ((argv + 8 * (argc + 1)) % 2 ^ 64)).bind fun env =>
    (auxLoop mem fuel (env.2 + 8)).map fun auxv =>
      { argc := argc, argv0 := Bytes.wordAt mem argv, argv1 := Bytes.wordAt mem (argv + 8),
        envp := env.1, auxv := auxv }

/-- What the kernel means `ld_main` to find. -/
def intended (path : Text) (load : LoadState) : Start :=
  { argc := 1, argv0 := pathVa path, argv1 := 0, envp := [envVa path],
    auxv := [(9, load.mainEntry), (7, load.interpLoadBias), (4, load.mainPhent), (5, load.mainPhnum),
      (3, load.mainPhdrVa), (31, pathVa path), (6, 4096), (0, 0)] }

def StringAt (mem : Nat → BitVec 8) (va : Nat) (text : Text) : Prop :=
  ∀ i, i < text.terminated.length → some (mem (va + i)) = text.terminated[i]?

/-- Reading from `sp` on as `ld_main` does finds what was meant. -/
structure Handshake (mem : Nat → BitVec 8) (sp : Nat) (path : Text) (load : LoadState) : Prop where
  parse : ∃ fuel, ldStart mem fuel sp = some (intended path load)
  name : StringAt mem (pathVa path) path
  environment : StringAt mem (envVa path) envText

section Pointers

variable {base s : Staging} {words : List Nat}

/-- The words pushed on top of `base`, the last one first; above it nothing has changed, and below it
exactly their cells have been written. -/
structure Pushed (base s : Staging) (words : List Nat) : Prop where
  depth : s.ksp + 8 * words.length = base.ksp
  holds : ∀ i word, words[i]? = some word → ∀ j, j < 8 →
    s.cells (s.ksp + 8 * i + j) = some (Bytes.wordByte word j)
  kept : ∀ k, base.ksp ≤ k → s.cells k = base.cells k
  filled : ∀ k, k < base.ksp → ((s.cells k).isSome = true ↔ s.ksp ≤ k)

theorem Pushed.push (inv : Pushed base s words) (room : 8 ≤ s.ksp) (word : Nat) :
    Pushed base (s.push word) (word :: words) := by
  have depth := inv.depth
  have below : (s.push word).ksp + 8 = s.ksp := by
    show s.ksp - 8 + 8 = s.ksp
    omega
  have outside : ∀ k, s.ksp ≤ k → (s.push word).cells k = s.cells k := fun k above =>
    Bytes.write_outside (Or.inr (by rw [Bytes.length_wordBytes]; omega))
  refine ⟨?_, ?_, ?_, ?_⟩
  · simp only [List.length_cons]
    omega
  · intro i other here j small
    cases i with
    | zero =>
      cases here
      rw [Nat.mul_zero, Nat.add_zero]
      exact (Bytes.write_inside (by rw [Bytes.length_wordBytes]; exact small)).trans
        (Bytes.getElem?_wordBytes word small)
    | succ i =>
      have place : (s.push word).ksp + 8 * (i + 1) + j = s.ksp + 8 * i + j := by omega
      rw [place, outside _ (by omega)]
      exact inv.holds i other here j small
  · intro k above
    rw [outside k (by omega)]
    exact inv.kept k above
  · intro k small
    have cell : ((s.push word).cells k).isSome = true ↔
        s.ksp - 8 ≤ k ∧ k < s.ksp - 8 + (Bytes.wordBytes word).length ∨ (s.cells k).isSome = true :=
      Bytes.write_isSome
    rw [cell, inv.filled k small, Bytes.length_wordBytes]
    omega

/-- The two words of an entry do not overlap. -/
theorem pushAux_eq (room : 16 ≤ s.ksp) (type value : Nat) :
    s.pushAux type value = (s.push value).push type := by
  have upper : s.ksp - 16 + 8 = s.ksp - 8 := by omega
  have lower : s.ksp - 8 - 8 = s.ksp - 16 := by omega
  simp only [Staging.pushAux, Staging.push, upper, lower, Staging.mk.injEq, and_true]
  exact Bytes.write_comm (by rw [Bytes.length_wordBytes]; omega)

theorem Pushed.pushAux (inv : Pushed base s words) (room : 16 ≤ s.ksp) (type value : Nat) :
    Pushed base (s.pushAux type value) (type :: value :: words) := by
  have first := inv.push (by omega) value
  have depth : (s.push value).ksp = s.ksp - 8 := rfl
  rw [pushAux_eq room]
  exact first.push (by omega) type

end Pointers

/-- The words of the pointer area from `argc` on. -/
def pointers (path : Text) (load : LoadState) : List Nat :=
  [1, pathVa path, 0, envVa path, 0, 9, load.mainEntry, 7, load.interpLoadBias, 4, load.mainPhent,
    5, load.mainPhnum, 3, load.mainPhdrVa, 31, pathVa path, 6, 4096, 0, 0]

section Layout

variable (path : Text) (load : LoadState)

theorem length_terminated (text : Text) : text.terminated.length = text.length + 1 := by
  simp [Text.terminated]

theorem withStrings_ksp : (withStrings path).ksp = 1012 - path.length := by
  show 1024 - path.terminated.length - envText.terminated.length = _
  rw [length_terminated, length_terminated]
  show 1024 - (path.length + 1) - 11 = _
  omega

/-- The strings leave the cells below the cursor unwritten. -/
theorem withStrings_cells (k : Nat) (room : path.length ≤ 1012) :
    ((withStrings path).cells k).isSome = true ↔ 1012 - path.length ≤ k ∧ k < 1024 := by
  have first : (withPath path).ksp = 1023 - path.length := by
    show 1024 - path.terminated.length = _
    rw [length_terminated]
    omega
  have env : envText.terminated.length = 11 := rfl
  show (Bytes.write (withPath path).cells ((withPath path).ksp - envText.terminated.length)
    envText.terminated k).isSome = true ↔ _
  rw [Bytes.write_isSome, first, env]
  show _ ∨ (Bytes.write emptyStaging.cells (1024 - path.terminated.length) path.terminated k).isSome =
    true ↔ _
  rw [Bytes.write_isSome, length_terminated]
  simp only [emptyStaging, Option.isSome_none, Bool.false_eq_true, or_false]
  omega

theorem withPointers_pushed (room : path.length ≤ 836) :
    Pushed (withStrings path).align (withPointers path load) (pointers path load) := by
  have ksp := withStrings_ksp path
  have start : Pushed (withStrings path).align (withStrings path).align [] := by
    refine ⟨rfl, nofun, fun _ _ => rfl, fun k small => ?_⟩
    have below : k < (1012 - path.length) / 16 * 16 := by
      rw [← ksp]
      exact small
    show ((withStrings path).cells k).isSome = true ↔ (withStrings path).ksp / 16 * 16 ≤ k
    rw [withStrings_cells path k (by omega), ksp]
    omega
  have deep : 176 ≤ (withStrings path).align.ksp := by
    show 176 ≤ (withStrings path).ksp / 16 * 16
    omega
  have ksp16 : ∀ s : Staging, ∀ a b, (s.pushAux a b).ksp = s.ksp - 16 := fun _ _ _ => rfl
  have ksp8 : ∀ s : Staging, ∀ a, (s.push a).ksp = s.ksp - 8 := fun _ _ => rfl
  have null := start.pushAux (by omega) 0 0
  have pageSize := null.pushAux (by simp only [ksp16]; omega) 6 4096
  have execFn := pageSize.pushAux (by simp only [ksp16]; omega) 31 (pathVa path)
  have phdr := execFn.pushAux (by simp only [ksp16]; omega) 3 load.mainPhdrVa
  have phnum := phdr.pushAux (by simp only [ksp16]; omega) 5 load.mainPhnum
  have phent := phnum.pushAux (by simp only [ksp16]; omega) 4 load.mainPhent
  have bias := phent.pushAux (by simp only [ksp16]; omega) 7 load.interpLoadBias
  have entry := bias.pushAux (by simp only [ksp16]; omega) 9 load.mainEntry
  have envEnd := entry.push (by simp only [ksp16]; omega) 0
  have env := envEnd.push (by simp only [ksp8, ksp16]; omega) (envVa path)
  have argvEnd := env.push (by simp only [ksp8, ksp16]; omega) 0
  have argv := argvEnd.push (by simp only [ksp8, ksp16]; omega) (pathVa path)
  exact argv.push (by simp only [ksp8, ksp16]; omega) 1

/-- The words end 8 bytes above a multiple of 16, so the last alignment moves the cursor below `argc`. -/
theorem populateArgStack_ksp (room : path.length ≤ 836) :
    (populateArgStack path load).ksp + 176 = (1012 - path.length) / 16 * 16 ∧
      (withPointers path load).ksp = (populateArgStack path load).ksp + 8 := by
  have depth := (withPointers_pushed path load room).depth
  have aligned : (withStrings path).align.ksp = (1012 - path.length) / 16 * 16 := by
    show (withStrings path).ksp / 16 * 16 = _
    rw [withStrings_ksp]
  have words : (pointers path load).length = 21 := rfl
  have final : (populateArgStack path load).ksp = (withPointers path load).ksp / 16 * 16 := rfl
  omega

end Layout

section Memory

variable {path : Text} {load : LoadState} {garbage old : Nat → BitVec 8}

/-- A cell of the staging buffer, seen from the user. -/
theorem userMemory_cell {s : Staging} {k : Nat} (above : s.ksp ≤ k) (below : k < 1024) :
    userMemory s garbage old (userStackTop - 1024 + k) = (s.cells k).getD (garbage k) := by
  have top : userStackTop = 0x80000000 := rfl
  have place : userStackTop - 1024 + k - (userStackTop - 1024) = k := by omega
  unfold userMemory Staging.va
  rw [if_pos (by omega), place]

theorem va_eq {s : Staging} (small : s.ksp ≤ 1024) : s.va = userStackTop - 1024 + s.ksp := by
  have top : userStackTop = 0x80000000 := rfl
  unfold Staging.va
  omega

/-- The words of the pointer area, in user memory from 8 bytes above the stack pointer on. -/
theorem wordAt_pointers (room : path.length ≤ 836) {i word : Nat}
    (here : (pointers path load)[i]? = some word) (small : word < 2 ^ 64) :
    Bytes.wordAt (userMemory (populateArgStack path load) garbage old)
      ((populateArgStack path load).va + 8 + 8 * i) = word := by
  obtain ⟨deep, final⟩ := populateArgStack_ksp path load room
  have inside : i < 21 := (List.getElem?_eq_some_iff.mp here).1
  refine Bytes.wordAt_eq small fun j low => ?_
  have cell := (withPointers_pushed path load room).holds i word here j low
  have place : (populateArgStack path load).va + 8 + 8 * i + j =
      userStackTop - 1024 + ((withPointers path load).ksp + 8 * i + j) := by
    rw [va_eq (by omega)]
    omega
  rw [place, userMemory_cell (by omega) (by omega)]
  rw [populateArgStack, Staging.align_cells, cell, Option.getD_some]

/-- Above the pointers user memory has the strings. -/
theorem userMemory_strings (room : path.length ≤ 836) {k : Nat} {byte : BitVec 8}
    (above : 1012 - path.length ≤ k) (below : k < 1024) (here : (withStrings path).cells k = some byte) :
    userMemory (populateArgStack path load) garbage old (userStackTop - 1024 + k) = byte := by
  obtain ⟨deep, _⟩ := populateArgStack_ksp path load room
  have aligned : (withStrings path).align.ksp = (1012 - path.length) / 16 * 16 := by
    show (withStrings path).ksp / 16 * 16 = _
    rw [withStrings_ksp]
  have kept := (withPointers_pushed path load room).kept k (by omega)
  rw [userMemory_cell (by omega) below, populateArgStack, Staging.align_cells, kept,
    Staging.align_cells, here, Option.getD_some]

theorem withPath_ksp (path : Text) : (withPath path).ksp = 1023 - path.length := by
  show 1024 - path.terminated.length = _
  rw [length_terminated]
  omega

theorem stringAt_path (room : path.length ≤ 836) :
    StringAt (userMemory (populateArgStack path load) garbage old) (pathVa path) path := by
  intro i small
  have ksp := withPath_ksp path
  have length := length_terminated path
  have env : envText.terminated.length = 11 := rfl
  have place : pathVa path + i = userStackTop - 1024 + ((withPath path).ksp + i) := by
    rw [pathVa, va_eq (by omega)]
    omega
  have cell : (withStrings path).cells ((withPath path).ksp + i) = path.terminated[i]? := by
    refine (Bytes.write_outside (Or.inr (by omega))).trans ?_
    exact Bytes.write_inside small
  rw [List.getElem?_eq_getElem small] at cell ⊢
  rw [place, userMemory_strings room (by omega) (by omega) cell]

theorem stringAt_env (room : path.length ≤ 836) :
    StringAt (userMemory (populateArgStack path load) garbage old) (envVa path) envText := by
  intro i small
  have ksp := withStrings_ksp path
  have env : envText.terminated.length = 11 := rfl
  have place : envVa path + i = userStackTop - 1024 + ((withStrings path).ksp + i) := by
    rw [envVa, va_eq (by omega)]
    omega
  have cell : (withStrings path).cells ((withStrings path).ksp + i) = envText.terminated[i]? :=
    Bytes.write_inside small
  rw [List.getElem?_eq_getElem small] at cell ⊢
  rw [place, userMemory_strings room (by omega) (by omega) cell]

end Memory

variable {mem : Nat → BitVec 8}

/-- The loop over the auxiliary vector collects the entries up to the first of type 0. -/
theorem auxLoop_entries (entries : List (Nat × Nat)) (last : Nat) :
    ∀ {fuel a : Nat}, entries.length < fuel →
      (∀ i entry, (entries ++ [(0, last)])[i]? = some entry →
        (Bytes.wordAt mem (a + 16 * i), Bytes.wordAt mem (a + 16 * i + 8)) = entry) →
      (∀ entry ∈ entries, entry.1 ≠ 0) → auxLoop mem fuel a = some (entries ++ [(0, last)]) := by
  induction entries with
  | nil =>
    intro fuel a enough words _
    obtain ⟨fuel, rfl⟩ := Nat.exists_eq_succ_of_ne_zero (Nat.ne_of_gt enough)
    obtain ⟨type, value⟩ := Prod.mk.inj (words 0 (0, last) rfl)
    simp only [Nat.mul_zero, Nat.add_zero] at type value
    simp only [auxLoop, type, value, if_true, List.nil_append]
  | cons entry entries ih =>
    intro fuel a enough words types
    obtain ⟨fuel, rfl⟩ := Nat.exists_eq_succ_of_ne_zero (Nat.ne_of_gt (Nat.zero_lt_of_lt enough))
    obtain ⟨type, value⟩ := Prod.mk.inj (words 0 entry rfl)
    simp only [Nat.mul_zero, Nat.add_zero] at type value
    have rest : auxLoop mem fuel (a + 16) = some (entries ++ [(0, last)]) := by
      refine ih (Nat.lt_of_succ_lt_succ enough) (fun i other found => ?_)
        fun other mem => types other (List.mem_cons_of_mem _ mem)
      have there := words (i + 1) other found
      rwa [show a + 16 * (i + 1) = a + 16 + 16 * i by omega] at there
    simp only [auxLoop, type, value, rest, if_neg (types entry List.mem_cons_self), Option.map_some,
      List.cons_append]

variable {path : Text} {load : LoadState}

/-- Reading on from an address where the pointer area starts. -/
theorem ldStart_pointers {stack : Nat}
    (words : ∀ i word, (pointers path load)[i]? = some word → Bytes.wordAt mem (stack + 8 * i) = word)
    (high : stack + 24 < 2 ^ 64) (env : envVa path ≠ 0) :
    ldStart mem 9 stack = some (intended path load) := by
  have argc : Bytes.wordAt mem stack = 1 := words 0 1 rfl
  have envp : (stack + 8 + 8 * (1 + 1)) % 2 ^ 64 = stack + 24 := Nat.mod_eq_of_lt (by omega)
  have first : Bytes.wordAt mem (stack + 24) = envVa path := words 3 _ rfl
  have second : Bytes.wordAt mem (stack + 24 + 8) = 0 := words 4 _ rfl
  have environment : envLoop mem 9 (stack + 24) = some ([envVa path], stack + 24 + 8) := by
    simp [envLoop, first, env, second]
  have auxv : auxLoop mem 9 (stack + 24 + 8 + 8) = some (intended path load).auxv := by
    refine auxLoop_entries [(9, load.mainEntry), (7, load.interpLoadBias), (4, load.mainPhent),
      (5, load.mainPhnum), (3, load.mainPhdrVa), (31, pathVa path), (6, 4096)] 0 (by simp) ?_ (by simp)
    intro i entry here
    have small : i < 8 := (List.getElem?_eq_some_iff.mp here).1
    have type : (pointers path load)[5 + 2 * i]? = some entry.1 := by
      interval_cases i <;> exact congrArg (Option.map Prod.fst) here
    have value : (pointers path load)[6 + 2 * i]? = some entry.2 := by
      interval_cases i <;> exact congrArg (Option.map Prod.snd) here
    have left := words _ _ type
    have right := words _ _ value
    rw [show stack + 8 * (5 + 2 * i) = stack + 24 + 8 + 8 + 16 * i by omega] at left
    rw [show stack + 8 * (6 + 2 * i) = stack + 24 + 8 + 8 + 16 * i + 8 by omega] at right
    rw [left, right]
  unfold ldStart
  simp only [argc, envp, environment, Option.bind_some, auxv, Option.map_some, Option.some.injEq]
  have name : Bytes.wordAt mem (stack + 8) = pathVa path := words 1 _ rfl
  have ended : Bytes.wordAt mem (stack + 8 + 8) = 0 := words 2 _ rfl
  rw [name, ended]
  rfl

/-- The values of the auxiliary vector are of type `unsigned long`. -/
structure Representable (load : LoadState) : Prop where
  mainPhdrVa : load.mainPhdrVa < 2 ^ 64
  mainPhent : load.mainPhent < 2 ^ 64
  mainPhnum : load.mainPhnum < 2 ^ 64
  mainEntry : load.mainEntry < 2 ^ 64
  interpLoadBias : load.interpLoadBias < 2 ^ 64

theorem pointers_small (fits : Representable load) :
    ∀ word ∈ pointers path load, word < 2 ^ 64 := by
  obtain ⟨phdr, phent, phnum, entry, bias⟩ := fits
  have top : userStackTop = 0x80000000 := rfl
  have path32 : pathVa path < 2 ^ 64 := by
    unfold pathVa Staging.va
    omega
  have env32 : envVa path < 2 ^ 64 := by
    unfold envVa Staging.va
    omega
  simp only [pointers, List.forall_mem_cons, List.not_mem_nil, false_implies, implies_true, and_true]
  omega

/-- A stack that does not hold the path at `argv[0]`. -/
theorem not_handshake {sp : Nat} (other : Bytes.wordAt mem (sp + 8) ≠ pathVa path) :
    ¬ Handshake mem sp path load := by
  rintro ⟨⟨fuel, parsed⟩, _, _⟩
  unfold ldStart at parsed
  obtain ⟨env, _, parsed⟩ := Option.bind_eq_some_iff.mp parsed
  obtain ⟨auxv, _, same⟩ := Option.map_eq_some_iff.mp parsed
  exact other (congrArg Start.argv0 same)

/-- The alignment after `argc` has been pushed leaves 8 unwritten bytes below it, so `ld_main`, which reads
`argc` at the stack pointer, never finds what was meant; all of it is there from 8 bytes above the stack
pointer on. The other unwritten bytes are those between the auxiliary vector and the strings. -/
theorem populateArgStack_handshake (path : Text) (load : LoadState) (garbage old : Nat → BitVec 8)
    (fits : Representable load) (room : path.length ≤ 836) :
    (populateArgStack path load).va % 16 = 0 ∧
      ¬ Handshake (userMemory (populateArgStack path load) garbage old) (populateArgStack path load).va
        path load ∧
      Handshake (userMemory (populateArgStack path load) garbage old)
        ((populateArgStack path load).va + 8) path load ∧
      ∀ k, (populateArgStack path load).ksp ≤ k → k < 1024 →
        (((populateArgStack path load).cells k).isSome = true ↔
          (populateArgStack path load).ksp + 8 ≤ k ∧
            (k < (populateArgStack path load).ksp + 176 ∨ 1012 - path.length ≤ k)) := by
  have top : userStackTop = 0x80000000 := rfl
  obtain ⟨deep, final⟩ := populateArgStack_ksp path load room
  have va := va_eq (s := populateArgStack path load) (by omega)
  have words : ∀ i word, (pointers path load)[i]? = some word →
      Bytes.wordAt (userMemory (populateArgStack path load) garbage old)
        ((populateArgStack path load).va + 8 + 8 * i) = word := fun i word here =>
    wordAt_pointers room here (pointers_small fits word (List.mem_of_getElem? here))
  have name : pathVa path = userStackTop - 1024 + (1023 - path.length) := by
    rw [pathVa, va_eq (by rw [withPath_ksp]; omega), withPath_ksp]
  have environment : envVa path = userStackTop - 1024 + (1012 - path.length) := by
    rw [envVa, va_eq (by rw [withStrings_ksp]; omega), withStrings_ksp]
  refine ⟨by omega, ?_, ?_, ?_⟩
  · -- `argv[0]` is read from the cell of `argc`.
    have argv0 : Bytes.wordAt (userMemory (populateArgStack path load) garbage old)
        ((populateArgStack path load).va + 8) = 1 := words 0 1 rfl
    exact not_handshake (by omega)
  · refine ⟨⟨9, ldStart_pointers words ?_ ?_⟩, stringAt_path room, stringAt_env room⟩ <;> omega
  · intro k above below
    have pushed := withPointers_pushed path load room
    have aligned : (withStrings path).align.ksp = (1012 - path.length) / 16 * 16 := by
      show (withStrings path).ksp / 16 * 16 = _
      rw [withStrings_ksp]
    rw [populateArgStack, Staging.align_cells, ← populateArgStack]
    by_cases low : k < (withStrings path).align.ksp
    · rw [pushed.filled k low]
      omega
    · rw [pushed.kept k (by omega), Staging.align_cells, withStrings_cells path k (by omega)]
      omega

theorem populateArgStack_handshake_root :
    Handshake (userMemory (populateArgStack [⟨47, by decide⟩] Elf.emptyLoad) (fun _ => 0) fun _ => 0)
      ((populateArgStack [⟨47, by decide⟩] Elf.emptyLoad).va + 8) [⟨47, by decide⟩] Elf.emptyLoad :=
  (populateArgStack_handshake [⟨47, by decide⟩] Elf.emptyLoad (fun _ => 0) (fun _ => 0)
    ⟨by decide, by decide, by decide, by decide, by decide⟩ (by decide)).2.2.1

/-- With sevens on the kernel's stack, `ld_main` reads them as `argc`, and 1 as the pointer `argv[0]`. -/
theorem populateArgStack_misaligned :
    let s := populateArgStack [⟨47, by decide⟩, ⟨97, by decide⟩] Elf.emptyLoad
    let mem := userMemory s (fun _ => 7) fun _ => 0
    Bytes.wordAt mem s.va = 0x0707070707070707 ∧ Bytes.wordAt mem (s.va + 8) = 1 ∧
      s.cells s.ksp = none ∧ ¬ Handshake mem s.va [⟨47, by decide⟩, ⟨97, by decide⟩] Elf.emptyLoad := by
  have argv0 : Bytes.wordAt (userMemory
      (populateArgStack [⟨47, by decide⟩, ⟨97, by decide⟩] Elf.emptyLoad) (fun _ => 7) fun _ => 0)
      ((populateArgStack [⟨47, by decide⟩, ⟨97, by decide⟩] Elf.emptyLoad).va + 8) = 1 := by
    decide +kernel
  refine ⟨by decide +kernel, argv0, by decide +kernel, not_handshake ?_⟩
  decide +kernel

end OsArmv8a.ArgStack
