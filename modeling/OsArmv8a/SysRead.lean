import OsArmv8a.RamfsOpen
import OsArmv8a.UserCopy

/-! The system call `sys_read`. The file is read in pieces of 128 bytes into a kernel buffer, and each
piece is then copied to user memory; the offset of the file moves with the first of these steps. -/

set_option autoImplicit false

namespace OsArmv8a.SysRead

open Mmu

section Copied

variable {foreign : Nat → Prop} {layout : VmLayout} {id : Nat} {w t : World} {va : Nat}
  {bytes : List (BitVec 8)}

/-- The bytes can be copied to user memory in pieces of 128, one after the other. -/
inductive Copied (layout : VmLayout) (id : Nat) : World → Nat → List (BitVec 8) → World → Prop where
  | nil (w : World) (va : Nat) : Copied layout id w va [] w
  | piece {w u t : World} {va : Nat} {bytes : List (BitVec 8)} (nonempty : bytes ≠ [])
      (first : copyToUser layout true id 384 w va (bytes.take 128) = some (true, u))
      (rest : Copied layout id u (va + 128) (bytes.drop 128) t) : Copied layout id w va bytes t

theorem copied_nil : Copied layout id w va [] t ↔ t = w := by
  constructor
  · intro copied
    cases copied with
    | nil => rfl
    | piece nonempty => exact absurd rfl nonempty
  · rintro rfl
    exact .nil t va

theorem copied_piece (nonempty : bytes ≠ []) : Copied layout id w va bytes t ↔
    ∃ u, copyToUser layout true id 384 w va (bytes.take 128) = some (true, u) ∧
      Copied layout id u (va + 128) (bytes.drop 128) t := by
  constructor
  · intro copied
    cases copied with
    | nil => exact absurd rfl nonempty
    | piece _ first rest => exact ⟨_, first, rest⟩
  · rintro ⟨u, first, rest⟩
    exact .piece nonempty first rest

/-- What has been copied is found there, and the bytes in front of it are what they were. -/
theorem Copied.delivered (copied : Copied layout id w va bytes t) (atRest : AtRest foreign w id)
    (bound : va + bytes.length ≤ 2 ^ 48) :
    (∀ i < bytes.length, readUser t.pages.mem (t.contexts id) (va + i) = bytes[i]?) ∧
      ∀ x < va, ∀ byte, readUser w.pages.mem (w.contexts id) x = some byte →
        readUser t.pages.mem (t.contexts id) x = some byte := by
  induction copied with
  | nil => exact ⟨fun i impossible => absurd impossible (Nat.not_lt_zero _), fun _ _ _ read => read⟩
  | @piece w u t va bytes _ first rest ih =>
    have size : (bytes.take 128).length = min 128 bytes.length := List.length_take
    obtain ⟨kept, n, stopped, delivered⟩ := copyToUser_delivered atRest (by omega) first
    rw [stopped.2.1 rfl, List.take_length] at delivered
    have moved : ∀ i < bytes.length, i < 128 →
        readUser u.pages.mem (u.contexts id) (va + i) = bytes[i]? := by
      intro i inside low
      rw [delivered.moved i (by omega), List.getElem?_take_of_lt low]
    have front : ∀ x < va, ∀ byte, readUser w.pages.mem (w.contexts id) x = some byte →
        readUser u.pages.mem (u.contexts id) x = some byte :=
      fun x below byte => delivered.others x byte (by omega) (Or.inl below)
    by_cases short : bytes.length ≤ 128
    · rw [List.drop_eq_nil_of_le short, copied_nil] at rest
      subst rest
      exact ⟨fun i inside => moved i inside (by omega), front⟩
    · have length : (bytes.drop 128).length = bytes.length - 128 := List.length_drop
      obtain ⟨later, before⟩ := ih kept (by omega)
      refine ⟨fun i inside => ?_, fun x below byte read =>
        before x (by omega) byte (front x below byte read)⟩
      by_cases low : i < 128
      · have held := moved i inside low
        rw [List.getElem?_eq_getElem inside] at held ⊢
        exact before _ (by omega) _ held
      · have held := later (i - 128) (by omega)
        rw [List.getElem?_drop] at held
        rwa [show va + 128 + (i - 128) = va + i by omega,
          show 128 + (i - 128) = i by omega] at held

end Copied

open Ramfs (Opened File)

/-- A kernel buffer of file bytes. -/
def kernelBytes (bytes : List UInt8) : List (BitVec 8) := bytes.map UInt8.toBitVec

/-- The loop of `sys_read` on an open file, for at most `fuel` rounds; `none` when that was not
enough. The result is the return value with the file and the memory as they are then. -/
def sysReadLoop (layout : VmLayout) (fs : Opened) (id buf : Nat) :
    Nat → File → World → Nat → Nat → Option (Nat × File × World)
  | 0, _, _, _, _ => none
  | fuel + 1, file, w, remaining, totalRead =>
    if remaining = 0 then some (totalRead, file, w)
    else
      let chunk := if remaining < 128 then remaining else 128
      let nread := fs.readCount file chunk
      let kbuf := kernelBytes (fs.readBytes file chunk)
      let file := { file with offset := file.offset + nread }
      if nread = 0 then some (totalRead, file, w)
      else
        match copyToUser layout true id 384 w (Word64.add buf totalRead) kbuf with
        | none => none
        | some (false, w) => some (if totalRead ≠ 0 then totalRead else 2 ^ 64 - 1, file, w)
        | some (true, w) =>
          if nread < chunk then some (totalRead + nread, file, w)
          else sysReadLoop layout fs id buf fuel file w (remaining - nread) (totalRead + nread)

/-- `sys_read` of the task that runs in address space `id`; `files` is its table. -/
def sysRead (layout : VmLayout) (fs : Opened) (id : Nat) (files : List (Option File)) (w : World)
    (fd buf len : Nat) : Option (Nat × List (Option File) × World) :=
  match files[fd]? with
  | some (some file) =>
    (sysReadLoop layout fs id buf (len + 1) file w len 0).map fun (n, file, w) =>
      (n, files.set fd (some file), w)
  | _ => some (2 ^ 64 - 1, files, w)

section File

variable {fs : Opened} {file : File} {len : Nat}

/-- The contents of an open file. -/
def contents (fs : Opened) (file : File) : List UInt8 := fs.fs.bytes (fs.fs.nodes file.node)

/-- No node claims more bytes than its buffer has. -/
def Backed (fs : Ramfs.State) : Prop := ∀ i, (fs.nodes i).size ≤ (fs.contents (fs.nodes i).data).length

theorem readBytes_eq (fs : Opened) (file : File) (len : Nat) :
    fs.readBytes file len = ((contents fs file).drop file.offset).take len := by
  unfold Opened.readBytes Opened.readCount contents Ramfs.State.bytes
  dsimp only
  rw [List.drop_take, List.take_take]
  split
  · rename_i past
    rw [Nat.sub_eq_zero_of_le past, Nat.min_zero]
  · rfl

theorem readCount_eq (backed : Backed fs.fs) (file : File) (len : Nat) :
    fs.readCount file len = (fs.readBytes file len).length := by
  have room := backed file.node
  rw [readBytes_eq]
  unfold Opened.readCount contents Ramfs.State.bytes
  dsimp only
  rw [List.length_take, List.length_drop, List.length_take]
  split <;> omega

/-- What a read of `len` bytes is to deliver. -/
def pending (fs : Opened) (file : File) (len : Nat) : List UInt8 :=
  ((contents fs file).drop file.offset).take len

/-- The file with its offset moved on. -/
def advance (file : File) (n : Nat) : File := { file with offset := file.offset + n }

/-- The first piece, and what is left for the next rounds. -/
theorem pending_split (fs : Opened) (file : File) {chunk remaining : Nat} (within : chunk ≤ remaining) :
    pending fs file remaining = pending fs file chunk ++
      pending fs (advance file (pending fs file chunk).length)
        (remaining - (pending fs file chunk).length) := by
  have same : contents fs (advance file (pending fs file chunk).length) = contents fs file := rfl
  unfold pending at same ⊢
  rw [same]
  simp only [advance]
  rw [← List.drop_drop]
  generalize (contents fs file).drop file.offset = rest
  by_cases short : rest.length ≤ chunk
  · rw [List.take_of_length_le short, List.take_of_length_le (by omega), List.drop_length]
    simp
  · have length : (rest.take chunk).length = chunk := by
      rw [List.length_take]
      omega
    rw [length, ← List.take_add, Nat.add_sub_cancel' within]

theorem pending_short (fs : Opened) (file : File) {chunk more : Nat}
    (short : (pending fs file chunk).length < chunk) :
    pending fs (advance file (pending fs file chunk).length) more = [] := by
  unfold pending at short ⊢
  change (List.drop (file.offset + _) (contents fs file)).take more = []
  rw [← List.drop_drop]
  generalize (contents fs file).drop file.offset = rest at short ⊢
  rw [List.length_take] at short
  have whole : rest.take chunk = rest := List.take_of_length_le (by omega)
  rw [whole, List.drop_length, List.take_nil]

/-- A round's piece begins what is pending, and ends it when it is short. -/
theorem pending_piece {remaining : Nat} {piece : List UInt8}
    (read : piece = pending fs file (min remaining 128)) :
    pending fs file remaining = piece ++ pending fs (advance file piece.length)
        (remaining - piece.length) ∧
      (piece.length < min remaining 128 →
        pending fs (advance file piece.length) (remaining - piece.length) = []) := by
  subst read
  exact ⟨pending_split fs file (Nat.min_le_left remaining 128), pending_short fs file⟩

end File

section Loop

variable {foreign : Nat → Prop} {layout : VmLayout} {fs : Opened} {id buf : Nat} {w t : World}

theorem sysReadLoop_succ (backed : Backed fs.fs) (fuel : Nat) (file : File) (w : World)
    {remaining : Nat} (totalRead : Nat) {chunk : Nat} {piece : List UInt8}
    (more : remaining ≠ 0) (size : chunk = min remaining 128) (read : piece = pending fs file chunk) :
    sysReadLoop layout fs id buf (fuel + 1) file w remaining totalRead =
      if piece = [] then some (totalRead, file, w)
      else
        match copyToUser layout true id 384 w (Word64.add buf totalRead) (kernelBytes piece) with
        | none => none
        | some (false, w) =>
          some (if totalRead ≠ 0 then totalRead else 2 ^ 64 - 1, advance file piece.length, w)
        | some (true, w) =>
          if piece.length < chunk then
            some (totalRead + piece.length, advance file piece.length, w)
          else sysReadLoop layout fs id buf fuel (advance file piece.length) w
            (remaining - piece.length) (totalRead + piece.length) := by
  have chunkEq : (if remaining < 128 then remaining else 128) = chunk := by
    split <;> omega
  have bytes : fs.readBytes file chunk = piece := by rw [readBytes_eq, read]; rfl
  have count : fs.readCount file chunk = piece.length := by rw [readCount_eq backed, bytes]
  rw [sysReadLoop, if_neg more]
  dsimp only
  rw [chunkEq, count, bytes]
  by_cases empty : piece = []
  · subst empty
    rfl
  · rw [if_neg (fun none => empty (List.length_eq_zero_iff.mp none)), if_neg empty]
    rfl

/-- Either everything there is has been delivered and counted, or a piece has failed, and the offset is
ahead of the bytes that are reported. -/
theorem sysReadLoop_cases (backed : Backed fs.fs) (fuel : Nat) : ∀ {file file' : File} {w : World}
    {remaining totalRead n : Nat},
    sysReadLoop layout fs id buf fuel file w remaining totalRead = some (n, file', t) →
    n = totalRead + (pending fs file remaining).length ∧
        file' = advance file (pending fs file remaining).length ∨
      ∃ m, n = (if m ≠ 0 then m else 2 ^ 64 - 1) ∧ totalRead ≤ m ∧
        file.offset + (m - totalRead) < file'.offset := by
  induction fuel with
  | zero => intro file file' w remaining totalRead n result; cases result
  | succ fuel ih =>
    intro file file' w remaining totalRead n result
    by_cases done : remaining = 0
    · subst done
      cases result
      exact Or.inl ⟨rfl, rfl⟩
    obtain ⟨piece, read⟩ : ∃ piece, piece = pending fs file (min remaining 128) := ⟨_, rfl⟩
    rw [sysReadLoop_succ backed fuel file w totalRead done rfl read] at result
    obtain ⟨whole, rest⟩ := pending_piece read
    split at result
    · rename_i empty
      cases result
      rw [whole, rest (by rw [empty, List.length_nil]; omega), empty]
      exact Or.inl ⟨rfl, rfl⟩
    rename_i nonempty
    have positive := List.length_pos_of_ne_nil nonempty
    split at result
    · cases result
    · cases result
      refine Or.inr ⟨totalRead, rfl, Nat.le_refl _, ?_⟩
      change file.offset + (totalRead - totalRead) < file.offset + piece.length
      omega
    · split at result
      · rename_i short
        cases result
        rw [whole, rest short, List.append_nil]
        exact Or.inl ⟨rfl, rfl⟩
      · rcases ih result with ⟨count, moved⟩ | ⟨m, count, above, ahead⟩
        · refine Or.inl ⟨?_, ?_⟩
          · rw [count, whole, List.length_append, Nat.add_assoc]
          · rw [moved, whole, List.length_append]
            unfold advance
            rw [Nat.add_assoc]
        · refine Or.inr ⟨m, count, by omega, ?_⟩
          change file.offset + piece.length + (m - (totalRead + piece.length)) < _ at ahead
          omega

theorem length_kernelBytes (bytes : List UInt8) : (kernelBytes bytes).length = bytes.length :=
  List.length_map _

theorem result_iff {n : Nat} {file : File} : some (n, file, w) = some (n, file, t) ↔ t = w := by
  simp [eq_comm]

theorem copied_cut {va : Nat} {piece back : List UInt8} (small : piece.length ≤ 128)
    (last : piece.length ≠ 128 → back = []) (nonempty : piece ≠ []) :
    Copied layout id w va (kernelBytes (piece ++ back)) t ↔
      ∃ u, copyToUser layout true id 384 w va (kernelBytes piece) = some (true, u) ∧
        Copied layout id u (va + piece.length) (kernelBytes back) t := by
  have length := length_kernelBytes piece
  rw [copied_piece (by simp [kernelBytes, nonempty]), kernelBytes, List.map_append]
  change (∃ u, copyToUser layout true id 384 w va ((kernelBytes piece ++ kernelBytes back).take 128) =
    some (true, u) ∧ Copied layout id u (va + 128) ((kernelBytes piece ++ kernelBytes back).drop 128) t) ↔ _
  by_cases full : piece.length = 128
  · rw [List.take_left' (by omega), List.drop_left' (by omega), full]
  · have none : kernelBytes back = [] := by rw [last full]; rfl
    rw [none, List.append_nil, List.take_of_length_le (by omega), List.drop_eq_nil_of_le (by omega)]
    simp only [copied_nil]

/-- At the end of the file the buffer is not looked at. -/
theorem sysReadLoop_nothing (backed : Backed fs.fs) (fuel : Nat) (file : File) (w : World)
    {remaining : Nat} (totalRead : Nat) (nothing : pending fs file remaining = []) :
    sysReadLoop layout fs id buf (fuel + 1) file w remaining totalRead =
      some (totalRead, file, w) := by
  by_cases done : remaining = 0
  · rw [sysReadLoop, if_pos done]
  · have empty : pending fs file (min remaining 128) = [] := by
      have split := pending_split fs file (Nat.min_le_left remaining 128)
      rw [nothing] at split
      exact (List.append_eq_nil_iff.mp split.symm).1
    rw [sysReadLoop_succ backed fuel file w totalRead done rfl rfl, if_pos empty]

/-- The loop delivers everything exactly if no copy fails. -/
theorem sysReadLoop_copied (backed : Backed fs.fs) (fuel : Nat) : ∀ {file : File} {w : World}
    {remaining totalRead : Nat}, AtRest foreign w id →
    buf + totalRead + (pending fs file remaining).length ≤ 2 ^ 48 → remaining < fuel →
    (sysReadLoop layout fs id buf fuel file w remaining totalRead =
        some (totalRead + (pending fs file remaining).length,
          advance file (pending fs file remaining).length, t) ↔
      Copied layout id w (buf + totalRead) (kernelBytes (pending fs file remaining)) t) := by
  induction fuel with
  | zero => intro file w remaining totalRead _ _ enough; exact absurd enough (Nat.not_lt_zero _)
  | succ fuel ih =>
    intro file w remaining totalRead atRest bound enough
    by_cases nothing : pending fs file remaining = []
    · rw [sysReadLoop_nothing backed fuel file w totalRead nothing, nothing]
      change _ ↔ Copied layout id w (buf + totalRead) [] t
      rw [copied_nil]
      exact result_iff
    have more : remaining ≠ 0 := by
      rintro rfl
      exact nothing List.take_zero
    obtain ⟨piece, read⟩ : ∃ piece, piece = pending fs file (min remaining 128) := ⟨_, rfl⟩
    obtain ⟨whole, rest⟩ := pending_piece read
    have small : piece.length ≤ min remaining 128 := by
      rw [read, pending, List.length_take]
      omega
    rw [sysReadLoop_succ backed fuel file w totalRead more rfl read]
    rw [whole] at bound nothing ⊢
    generalize tail : pending fs (advance file piece.length) (remaining - piece.length) = back at *
    have nonempty : piece ≠ [] := by
      rintro rfl
      exact nothing (rest (by rw [List.length_nil]; omega))
    have positive := List.length_pos_of_ne_nil nonempty
    rw [List.length_append] at bound ⊢
    -- only the last piece has fewer than 128 bytes
    have last : piece.length ≠ 128 → back = [] := by
      intro short
      by_cases ends : piece.length < min remaining 128
      · exact rest ends
      · rw [← tail, show remaining - piece.length = 0 by omega]
        exact List.take_zero
    rw [if_neg nonempty, copied_cut (by omega) last nonempty, Word64.add_of_lt (by omega)]
    obtain ⟨ok, u, copied⟩ : ∃ ok u, copyToUser layout true id 384 w (buf + totalRead)
        (kernelBytes piece) = some (ok, u) :=
      copyToUser_ends atRest (by rw [length_kernelBytes]; omega) (by rw [length_kernelBytes]; omega)
    rw [copied]
    cases ok with
    | false =>
      refine iff_of_false (fun same => ?_) (by rintro ⟨v, impossible, -⟩; cases impossible)
      have value := (Prod.mk.inj (Option.some.inj same)).1
      split at value <;> omega
    | true =>
      simp only [Option.some.injEq, Prod.mk.injEq, true_and, exists_eq_left']
      obtain ⟨kept, -⟩ := copyToUser_delivered atRest (by rw [length_kernelBytes]; omega) copied
      split
      · rename_i short
        rw [rest short]
        change _ ↔ Copied layout id u _ [] t
        rw [copied_nil]
        exact result_iff
      · have moved : advance file (piece.length + back.length) =
            advance (advance file piece.length) back.length := by
          unfold advance
          rw [Nat.add_assoc]
        rw [moved, ← Nat.add_assoc totalRead, Nat.add_assoc buf, ← tail]
        exact ih kept (by rw [tail]; omega) (by omega)

end Loop

section Table

variable {fs : Ramfs.State}

/-- A node with bytes has a buffer that has been allocated and holds them. -/
def Allocated (fs : Ramfs.State) : Prop :=
  ∀ i, (fs.nodes i).size ≤ (fs.contents (fs.nodes i).data).length ∧
    ((fs.nodes i).size = 0 ∨ (fs.nodes i).data < fs.next)

/-- A node is filled with a new buffer. -/
theorem Allocated.fill (inv : Allocated fs) {after : Ramfs.State} {i : Fin 32} {bytes : List UInt8}
    {node : Ramfs.Node} (nodes : after.nodes = fun j => if j = i then node else fs.nodes j)
    (data : node.data = fs.next) (size : node.size = bytes.length)
    (held : after.contents = fun b => if b = fs.next then bytes else fs.contents b)
    (next : after.next = fs.next + 1) : Allocated after := by
  intro j
  rw [nodes, held, next]
  dsimp only
  by_cases here : j = i
  · rw [if_pos here, data, size, if_pos rfl]
    exact ⟨Nat.le_refl _, Or.inr (Nat.lt_succ_self _)⟩
  · rw [if_neg here]
    obtain ⟨room, place⟩ := inv j
    rcases place with none | older
    · exact ⟨by omega, Or.inl none⟩
    · rw [if_neg (by omega)]
      exact ⟨room, Or.inr (by omega)⟩

/-- A node keeps its buffer and its size. -/
theorem Allocated.keep (inv : Allocated fs) {after : Ramfs.State}
    (data : ∀ i, (after.nodes i).data = (fs.nodes i).data)
    (size : ∀ i, (after.nodes i).size = (fs.nodes i).size) (held : after.contents = fs.contents)
    (next : after.next = fs.next) : Allocated after := by
  intro i
  rw [data, size, held, next]
  exact inv i

theorem Allocated.apply (inv : Allocated fs) (label : Ramfs.Label) : Allocated (fs.apply label) := by
  cases label with
  | builtin path bytes =>
    change Allocated (fs.addBuiltin path bytes).2
    unfold Ramfs.State.addBuiltin
    split
    · exact inv
    · exact inv.fill rfl rfl rfl rfl rfl
  | register path bytes memory =>
    change Allocated (fs.registerFile path bytes memory).2
    unfold Ramfs.State.registerFile
    split
    · exact inv
    · split
      · dsimp only [Ramfs.State.fillNode]
        split
        · exact inv.fill rfl rfl rfl rfl rfl
        · exact inv.fill rfl rfl rfl rfl rfl
      · exact inv
  | unregister path =>
    change Allocated (fs.unregisterFile path).2
    unfold Ramfs.State.unregisterFile
    split
    · exact inv
    · dsimp only
      split
      · refine inv.keep (fun j => ?_) (fun j => ?_) rfl rfl <;>
          (simp only [Ramfs.State.setNode, Ramfs.State.kfree]; split <;> simp_all)
      · refine inv.keep (fun j => ?_) (fun j => ?_) rfl rfl <;>
          (simp only [Ramfs.State.setNode]; split <;> simp_all)

theorem Allocated.fileStep {s t : Opened} {label : Ramfs.FileLabel} (inv : Allocated s.fs)
    (moved : Ramfs.fileStep s label = some t) : Allocated t.fs := by
  cases label with
  | table label =>
    cases moved
    exact inv.apply label
  | «open» path =>
    obtain ⟨i, -, rfl⟩ := Option.map_eq_some_iff.mp moved
    exact inv
  | close f =>
    cases moved
    exact inv
  | read f len =>
    obtain ⟨file, -, rfl⟩ := Option.map_eq_some_iff.mp moved
    exact inv
  | mmap f offset =>
    obtain ⟨file, -, rfl⟩ := Option.map_eq_some_iff.mp moved
    exact inv
  | munmap r =>
    cases moved
    exact inv

theorem reachable_backed {fs : Opened}
    (reached : Transition.Reachable (· = Ramfs.opened) Ramfs.fileStep Transition.always fs) :
    Backed fs.fs := by
  have allocated : Allocated fs.fs := by
    induction reached with
    | start initial =>
      subst initial
      exact fun i => ⟨Nat.le_refl _, Or.inl rfl⟩
    | next _ _ moved ih => exact ih.fileStep moved
  exact fun i => (allocated i).1

end Table

section Exact

variable {layout : VmLayout} {fs : Opened} {s : System} {id fd buf len : Nat}
  {files : List (Option File)} {file : File}

/-- The call returns. A result other than -1 is the number of bytes that the offset has moved by and
that user mode finds in the buffer; after -1 the offset is what it was. -/
def Exact (layout : VmLayout) (fs : Opened) (id : Nat) (files : List (Option File)) (w : World)
    (fd buf len : Nat) (file : File) : Prop :=
  ∃ n files' t file', sysRead layout fs id files w fd buf len = some (n, files', t) ∧
    files'[fd]? = some (some file') ∧
    (n ≠ 2 ^ 64 - 1 → file'.offset = file.offset + n ∧
      ∀ i < n, buf + i < 2 ^ 48 ∧ ∃ byte, (contents fs file)[file.offset + i]? = some byte ∧
        readUser t.pages.mem (t.contexts id) (buf + i) = some byte.toBitVec) ∧
    (n = 2 ^ 64 - 1 → file'.offset = file.offset)

/-- The bytes that are left of the file, up to `len`, can be copied to the buffer. -/
def Deliverable (layout : VmLayout) (fs : Opened) (id : Nat) (w : World) (buf len : Nat)
    (file : File) : Prop :=
  (∀ i < (pending fs file len).length, buf + i < 2 ^ 48) ∧
    ∃ t, Copied layout id w buf (kernelBytes (pending fs file len)) t

theorem pending_getElem {i : Nat} (inside : i < (pending fs file len).length) :
    ∃ byte, (contents fs file)[file.offset + i]? = some byte ∧
      (kernelBytes (pending fs file len))[i]? = some byte.toBitVec := by
  refine ⟨(pending fs file len)[i], ?_, ?_⟩
  · have short : i < len := by
      rw [pending, List.length_take] at inside
      omega
    rw [← List.getElem?_eq_getElem inside, pending, List.getElem?_take_of_lt short,
      List.getElem?_drop]
  · rw [kernelBytes, List.getElem?_map, List.getElem?_eq_getElem inside]
    rfl

theorem sysRead_open (w : World) (opened : files[fd]? = some (some file)) :
    sysRead layout fs id files w fd buf len =
      (sysReadLoop layout fs id buf (len + 1) file w len 0).map fun (n, file, w) =>
        (n, files.set fd (some file), w) := by
  unfold sysRead
  rw [opened]

theorem pending_fits (bounds : ∀ i < (pending fs file len).length, buf + i < 2 ^ 48)
    (some : pending fs file len ≠ []) : buf + 0 + (pending fs file len).length ≤ 2 ^ 48 := by
  have nonempty := List.length_pos_of_ne_nil some
  have last := bounds ((pending fs file len).length - 1) (by omega)
  omega

theorem Exact.deliverable {foreign : Nat → Prop} {w : World} (backed : Backed fs.fs)
    (rest : AtRest foreign w id) (opened : files[fd]? = some (some file))
    (exact : Exact layout fs id files w fd buf len file) :
    Deliverable layout fs id w buf len file := by
  obtain ⟨n, files', t, file', result, found, whole, failed⟩ := exact
  rw [sysRead_open w opened] at result
  obtain ⟨⟨m, after, u⟩, loop, same⟩ := Option.map_eq_some_iff.mp result
  cases same
  rw [List.getElem?_set_self (List.getElem?_eq_some_iff.mp opened).1] at found
  cases found
  rcases sysReadLoop_cases backed _ loop with ⟨count, moved⟩ | ⟨m, count, -, ahead⟩
  · rw [Nat.zero_add] at count
    subst count moved
    change _ → file.offset + _ = _ at failed
    have bounds : ∀ i < (pending fs file len).length, buf + i < 2 ^ 48 := by
      intro i inside
      refine ((whole ?_).2 i inside).1
      intro minus
      have stayed := failed minus
      omega
    refine ⟨bounds, ?_⟩
    by_cases nothing : pending fs file len = []
    · rw [nothing]
      exact ⟨w, copied_nil.mpr rfl⟩
    · refine ⟨t, (sysReadLoop_copied backed (len + 1) rest (pending_fits bounds nothing)
        (Nat.lt_succ_self _)).mp ?_⟩
      rw [Nat.zero_add]
      exact loop
  · -- the offset is ahead of what is reported, and has moved in the case of -1
    rw [Nat.sub_zero] at ahead
    by_cases minus : n = 2 ^ 64 - 1
    · omega
    · by_cases zero : m = 0
      · rw [if_neg (fun positive => positive zero)] at count
        exact absurd count minus
      · rw [if_pos zero] at count
        omega

theorem Deliverable.exact {foreign : Nat → Prop} {w : World} (backed : Backed fs.fs)
    (rest : AtRest foreign w id) (opened : files[fd]? = some (some file))
    (deliverable : Deliverable layout fs id w buf len file) :
    Exact layout fs id files w fd buf len file := by
  obtain ⟨bounds, t, copied⟩ := deliverable
  have slot : fd < files.length := (List.getElem?_eq_some_iff.mp opened).1
  unfold Exact
  rw [sysRead_open w opened]
  by_cases nothing : pending fs file len = []
  · rw [sysReadLoop_nothing backed len file w 0 nothing]
    refine ⟨0, files.set fd (some file), w, file, rfl, List.getElem?_set_self slot,
      fun _ => ⟨rfl, ?_⟩, fun minus => absurd minus (by decide)⟩
    exact fun i impossible => absurd impossible (Nat.not_lt_zero _)
  · have fits := pending_fits bounds nothing
    have loop := (sysReadLoop_copied backed (len + 1) rest fits (Nat.lt_succ_self _)).mpr copied
    rw [Nat.zero_add] at loop
    rw [loop]
    have delivered := (copied.delivered rest (by rw [length_kernelBytes]; omega)).1
    refine ⟨_, _, t, _, rfl, List.getElem?_set_self slot, fun _ => ⟨rfl, ?_⟩, ?_⟩
    · intro i inside
      obtain ⟨byte, held, sent⟩ := pending_getElem inside
      refine ⟨bounds i inside, byte, held, ?_⟩
      rw [← sent]
      exact delivered i (by rw [length_kernelBytes]; exact inside)
    · intro minus
      omega

/-- Reading an open file in any reachable state is exact if and only if everything that the call is to
deliver can be copied to the buffer. -/
theorem sysRead_exact (reached : Transition.Reachable Boot step Transition.always s)
    (live : id ∈ s.live)
    (table : Transition.Reachable (· = Ramfs.opened) Ramfs.fileStep Transition.always fs)
    (opened : files[fd]? = some (some file)) :
    Exact layout fs id files s.world fd buf len file ↔
      Deliverable layout fs id s.world buf len file := by
  have rest := (reachable_sound reached).atRest live
  have backed := reachable_backed table
  exact ⟨fun exact => exact.deliverable backed rest opened,
    fun deliverable => deliverable.exact backed rest opened⟩

/-- A file of three bytes under a path of one byte. -/
def smallFile : Opened :=
  { Ramfs.opened with fs := Ramfs.empty.apply (.register [⟨47, by decide⟩] [7, 8, 9] true) }

/-- The same file, just opened. -/
def smallOpen : File := ⟨0, [⟨47, by decide⟩], 0, 3⟩

theorem smallFile_reached :
    Transition.Reachable (· = Ramfs.opened) Ramfs.fileStep Transition.always smallFile :=
  .next (.start rfl) trivial
    (show Ramfs.fileStep Ramfs.opened (.table (.register [⟨47, by decide⟩] [7, 8, 9] true)) = _ from rfl)

/-- Three bytes across a page boundary; the second page is faulted in on the way. -/
theorem sysRead_exact_boundary :
    ∃ s, Transition.run step (booted (PageAlloc.init sixteenPages (fun _ => 0) true))
        [.create (some 1), .fault sampleLayout 1 0x400000 0x04] = some s ∧
      Deliverable sampleLayout smallFile 1 s.world 0x400ffe 64 smallOpen ∧
      Exact sampleLayout smallFile 1 [some smallOpen] s.world 0 0x400ffe 64
        smallOpen := by
  refine Transition.ends_imp (Q := fun s => 1 ∈ s.live ∧ ∃ result, copyToUser sampleLayout true 1
    384 s.world 0x400ffe (kernelBytes (pending smallFile smallOpen 64)) = some result ∧
      result.1 = true) (by decide +kernel) ?_
  rintro s first ⟨live, ⟨_, t⟩, copied, rfl⟩
  have deliverable : Deliverable sampleLayout smallFile 1 s.world 0x400ffe 64
      smallOpen := ⟨by decide, t, .piece (by decide) copied (.nil t _)⟩
  exact ⟨deliverable, (sysRead_exact (.of_ran (booted_boot _ _ _) first) live smallFile_reached
    rfl).mpr deliverable⟩

/-- A read into an unmapped buffer fails, but the file is then at its end: the next read returns 0. -/
theorem sysRead_unmapped :
    ∃ s, Transition.run step (booted (PageAlloc.init sixteenPages (fun _ => 0) true))
        [.create (some 1), .fault sampleLayout 1 0x400000 0x04] = some s ∧
      ¬ Exact sampleLayout smallFile 1 [some smallOpen] s.world 0 0 64
        smallOpen ∧
      ∃ files t u, sysRead sampleLayout smallFile 1 [some smallOpen] s.world 0 0 64 =
          some (2 ^ 64 - 1, files, t) ∧
        sysRead sampleLayout smallFile 1 files t 0 0x400000 64 = some (0, files, u) := by
  refine Transition.ends_imp (Q := fun s => ∃ result,
    sysRead sampleLayout smallFile 1 [some smallOpen] s.world 0 0 64 = some result ∧
      result.1 = 2 ^ 64 - 1 ∧ result.2.1 = [some (advance smallOpen 3)] ∧
      ∃ again, sysRead sampleLayout smallFile 1 result.2.1 result.2.2 0 0x400000 64 = some again ∧
        again.1 = 0 ∧ again.2.1 = [some (advance smallOpen 3)]) (by decide +kernel) ?_
  rintro s - ⟨⟨_, _, t⟩, failed, rfl, rfl, ⟨_, _, u⟩, second, rfl, rfl⟩
  refine ⟨?_, _, t, u, failed, second⟩
  rintro ⟨n, files', t', file', result, found, -, stayed⟩
  rw [failed] at result
  cases result
  cases found
  exact absurd (stayed rfl) (by decide)

end Exact

end OsArmv8a.SysRead
