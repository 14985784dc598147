import OsArmv8a.Ramfs

/-! `ramfs.c` as a map from paths to contents. -/

set_option autoImplicit false

namespace OsArmv8a.Ramfs

theorem pathEquals_iff (lhs rhs : Path) : pathEquals lhs rhs = true ↔ lhs = rhs := by
  induction lhs generalizing rhs with
  | nil => cases rhs <;> simp [pathEquals]
  | cons a lhs ih =>
    cases rhs with
    | nil => simp [pathEquals]
    | cons b rhs =>
      simp only [pathEquals, List.cons.injEq]
      by_cases same : a = b
      · simp [same, ih]
      · simp [same]

theorem storedPath_short {path : Path} (short : path.length ≤ 63) : storedPath path = path :=
  List.take_of_length_le short

namespace State

/-- The nodes in use, by path. -/
def table (s : State) (i : Fin 32) : Option (Path × Node) :=
  if (s.nodes i).inUse = true then some ((s.nodes i).path, s.nodes i) else none

/-- The bytes of a node. -/
def bytes (s : State) (node : Node) : List UInt8 := (s.contents node.data).take node.size

section Table

variable {s : State} {i : Fin 32} {path : Path} {node : Node}

theorem table_some : s.table i = some (path, node) ↔
    (s.nodes i).inUse = true ∧ (s.nodes i).path = path ∧ s.nodes i = node := by
  unfold table
  split
  · rename_i used
    simp [used]
  · rename_i unused
    simp [unused]

theorem table_none : s.table i = none ↔ (s.nodes i).inUse = false := by
  unfold table
  split <;> simp_all

theorem findNode_eq : s.findNode path = SlotTable.find s.table path := by
  unfold findNode SlotTable.find
  congr 1
  funext i
  unfold table
  cases used : (s.nodes i).inUse with
  | false => simp
  | true =>
    rw [Bool.eq_iff_iff]
    simp [pathEquals_iff]

theorem lookup_eq : s.lookup path = (SlotTable.get s.table path).map s.bytes := by
  unfold lookup SlotTable.get
  rw [findNode_eq]
  cases found : SlotTable.find s.table path with
  | none => rfl
  | some i =>
    obtain ⟨node, here⟩ := SlotTable.find_some found
    obtain ⟨_, _, same⟩ := table_some.mp here
    simp [here, bytes, same]

/-- The node that `ramfs_register_file` writes to. -/
theorem fits (chosen : (s.findNode path).or s.freeNode = some i) : SlotTable.Fits s.table path i := by
  cases found : s.findNode path with
  | some j =>
    rw [found] at chosen
    cases chosen
    exact Or.inl (findNode_eq.symm.trans found)
  | none =>
    rw [found] at chosen
    have free := List.find?_some (show s.freeNode = some i from chosen)
    exact Or.inr ⟨findNode_eq.symm.trans found, table_none.mpr (by simpa using free)⟩

end Table

end State

/-- Nodes in use have different paths and different buffers, and a copy is freed when it leaves the
table, once. -/
structure Sound (s : State) : Prop where
  distinct : SlotTable.Distinct s.table
  data : ∀ i, (s.nodes i).inUse = true → (s.nodes i).data < s.next ∧
    (s.nodes i).ownsData = s.owned (s.nodes i).data ∧
    (s.nodes i).size = (s.contents (s.nodes i).data).length
  apart : ∀ i j, (s.nodes i).inUse = true → (s.nodes j).inUse = true →
    (s.nodes i).data = (s.nodes j).data → i = j
  live : ∀ i, (s.nodes i).inUse = true → s.freed (s.nodes i).data = 0
  gone : ∀ b, b < s.next → s.owned b = true → (∀ i, (s.nodes i).inUse = true → (s.nodes i).data ≠ b) →
    s.freed b = 1
  kept : ∀ b, b < s.next → s.owned b = false → s.freed b = 0
  unborn : ∀ b, s.next ≤ b → s.freed b = 0

/-- A node is written with a new buffer, and the buffer it owned is freed. -/
def State.place (s : State) (i : Fin 32) (path : Path) (bytes : List UInt8) (owns : Bool) : State :=
  let node := s.nodes i
  let copied := s.buffer bytes owns
  let freed := if node.inUse = true ∧ node.ownsData = true then copied.kfree node.data else copied
  freed.setNode i
    { inUse := true, ownsData := owns, path := path, data := s.next, size := bytes.length }

section Place

variable {s : State} {i : Fin 32} {path : Path} {bytes : List UInt8} {owns : Bool}

theorem place_nodes (j : Fin 32) : (s.place i path bytes owns).nodes j =
    if j = i then ⟨true, owns, path, s.next, bytes.length⟩ else s.nodes j := by
  unfold State.place
  dsimp only
  split <;> rfl

theorem place_contents (b : Nat) : (s.place i path bytes owns).contents b =
    if b = s.next then bytes else s.contents b := by
  unfold State.place
  dsimp only
  split <;> rfl

theorem place_owned (b : Nat) : (s.place i path bytes owns).owned b =
    if b = s.next then owns else s.owned b := by
  unfold State.place
  dsimp only
  split <;> rfl

theorem place_next : (s.place i path bytes owns).next = s.next + 1 := by
  unfold State.place
  dsimp only
  split <;> rfl

theorem place_freed (b : Nat) : (s.place i path bytes owns).freed b = s.freed b +
    if (s.nodes i).inUse = true ∧ (s.nodes i).ownsData = true ∧ b = (s.nodes i).data then 1 else 0 := by
  unfold State.place
  dsimp only
  split
  · rename_i owner
    show (if b = (s.nodes i).data then s.freed b + 1 else s.freed b) = _
    by_cases same : b = (s.nodes i).data <;> simp [same, owner]
  · rename_i other
    rw [if_neg fun all => other ⟨all.1, all.2.1⟩]
    rfl

theorem place_table : (s.place i path bytes owns).table =
    SlotTable.set s.table i (some (path, ⟨true, owns, path, s.next, bytes.length⟩)) := by
  funext j
  unfold State.table SlotTable.set
  rw [place_nodes]
  by_cases same : j = i <;> simp [same]

theorem Sound.place (inv : Sound s) (fits : SlotTable.Fits s.table path i) :
    Sound (s.place i path bytes owns) := by
  have older : ∀ j, (s.nodes j).inUse = true → (s.nodes j).data ≠ s.next := fun j used =>
    (inv.data j used).1.ne
  -- A node in use is the new one, or an old one at another place.
  have cases : ∀ j, ((s.place i path bytes owns).nodes j).inUse = true →
      j = i ∧ (s.place i path bytes owns).nodes j = ⟨true, owns, path, s.next, bytes.length⟩ ∨
        j ≠ i ∧ (s.place i path bytes owns).nodes j = s.nodes j ∧ (s.nodes j).inUse = true := by
    intro j used
    rw [place_nodes] at used ⊢
    split
    · exact Or.inl ⟨‹_›, rfl⟩
    · rename_i other
      rw [if_neg other] at used
      exact Or.inr ⟨other, rfl, used⟩
  have untouched : ∀ j, j ≠ i → (s.nodes j).inUse = true →
      (s.place i path bytes owns).freed (s.nodes j).data = s.freed (s.nodes j).data := by
    intro j other used
    rw [place_freed, if_neg, Nat.add_zero]
    rintro ⟨holds, _, same⟩
    exact other (inv.apart j i used holds same)
  refine ⟨?_, ?_, ?_, ?_, ?_, ?_, ?_⟩
  · rw [place_table]
    exact inv.distinct.put fits _
  · intro j used
    rw [place_next, place_owned, place_contents]
    rcases cases j used with ⟨_, node⟩ | ⟨_, node, before⟩
    · simp [node]
    · rw [node, if_neg (older j before), if_neg (older j before)]
      obtain ⟨small, owner, size⟩ := inv.data j before
      exact ⟨by omega, owner, size⟩
  · intro j k usedJ usedK same
    rcases cases j usedJ with ⟨hereJ, nodeJ⟩ | ⟨_, nodeJ, beforeJ⟩ <;>
      rcases cases k usedK with ⟨hereK, nodeK⟩ | ⟨_, nodeK, beforeK⟩ <;>
      rw [nodeJ, nodeK] at same
    · rw [hereJ, hereK]
    · exact absurd same.symm (older k beforeK)
    · exact absurd same (older j beforeJ)
    · exact inv.apart j k beforeJ beforeK same
  · intro j used
    rcases cases j used with ⟨_, node⟩ | ⟨other, node, before⟩
    · rw [node, place_freed, inv.unborn s.next (le_refl _), if_neg]
      rintro ⟨holds, _, same⟩
      exact older i holds same.symm
    · rw [node, untouched j other before]
      exact inv.live j before
  · intro b small owner free
    rw [place_next] at small
    rw [place_owned] at owner
    have fresh : b ≠ s.next := by
      rintro rfl
      have used := free i (by rw [place_nodes, if_pos rfl])
      rw [place_nodes, if_pos rfl] at used
      exact used rfl
    rw [if_neg fresh] at owner
    rw [place_freed]
    by_cases replaced : (s.nodes i).inUse = true ∧ (s.nodes i).data = b
    · obtain ⟨used, rfl⟩ := replaced
      rw [inv.live i used, if_pos ⟨used, (inv.data i used).2.1.trans owner, rfl⟩]
    · rw [if_neg fun all => replaced ⟨all.1, all.2.2.symm⟩]
      refine inv.gone b (by omega) owner fun j used same => ?_
      by_cases here : j = i
      · subst here
        exact replaced ⟨used, same⟩
      · refine free j ?_ ?_ <;> rw [place_nodes, if_neg here]
        · exact used
        · exact same
  · intro b small owner
    rw [place_next] at small
    rw [place_owned] at owner
    rw [place_freed]
    by_cases fresh : b = s.next
    · rw [fresh, inv.unborn s.next (le_refl _), if_neg]
      rintro ⟨holds, _, same⟩
      exact older i holds same.symm
    · rw [if_neg fresh] at owner
      rw [inv.kept b (by omega) owner, if_neg]
      rintro ⟨holds, owns, rfl⟩
      rw [(inv.data i holds).2.1, owner] at owns
      cases owns
  · intro b large
    rw [place_next] at large
    rw [place_freed, inv.unborn b (by omega), if_neg]
    rintro ⟨holds, _, rfl⟩
    have small := (inv.data i holds).1
    omega

/-- The bytes of the nodes that were in use before. -/
theorem Sound.bytes_place (inv : Sound s) {j : Fin 32} (used : (s.nodes j).inUse = true) :
    (s.place i path bytes owns).bytes (s.nodes j) = s.bytes (s.nodes j) := by
  unfold State.bytes
  rw [place_contents, if_neg (inv.data j used).1.ne]

theorem Sound.lookup_place (inv : Sound s) (fits : SlotTable.Fits s.table path i) (other : Path) :
    (s.place i path bytes owns).lookup other =
      if other = path then some bytes else s.lookup other := by
  rw [State.lookup_eq, State.lookup_eq, place_table, SlotTable.get_put inv.distinct fits]
  split
  · show some (State.bytes _ _) = some bytes
    unfold State.bytes
    rw [place_contents, if_pos rfl, List.take_length]
  · cases got : SlotTable.get s.table other with
    | none => rfl
    | some node =>
      obtain ⟨j, there⟩ := (SlotTable.get_eq_some inv.distinct).mp got
      obtain ⟨used, _, rfl⟩ := State.table_some.mp there
      exact congrArg some (inv.bytes_place used)

end Place

/-- A node leaves the table. -/
def State.drop (s : State) (i : Fin 32) : State :=
  let node := s.nodes i
  let freed := if node.ownsData = true then s.kfree node.data else s
  freed.setNode i { node with inUse := false }

section Drop

variable {s : State} {i : Fin 32} {path : Path}

theorem drop_nodes (j : Fin 32) : (s.drop i).nodes j =
    if j = i then { s.nodes i with inUse := false } else s.nodes j := by
  unfold State.drop
  dsimp only
  split <;> rfl

theorem drop_freed (b : Nat) : (s.drop i).freed b = s.freed b +
    if (s.nodes i).ownsData = true ∧ b = (s.nodes i).data then 1 else 0 := by
  unfold State.drop
  dsimp only
  split
  · rename_i owner
    show (if b = (s.nodes i).data then s.freed b + 1 else s.freed b) = _
    by_cases same : b = (s.nodes i).data <;> simp [same, owner]
  · rename_i other
    rw [if_neg fun all => other all.1]
    rfl

theorem drop_rest : (s.drop i).contents = s.contents ∧ (s.drop i).owned = s.owned ∧
    (s.drop i).next = s.next := by
  unfold State.drop
  dsimp only
  split <;> exact ⟨rfl, rfl, rfl⟩

theorem drop_table : (s.drop i).table = SlotTable.set s.table i none := by
  funext j
  unfold State.table SlotTable.set
  rw [drop_nodes]
  by_cases same : j = i <;> simp [same]

theorem Sound.drop (inv : Sound s) (used : (s.nodes i).inUse = true) : Sound (s.drop i) := by
  obtain ⟨contents, owned, next⟩ := drop_rest (s := s) (i := i)
  have others : ∀ j, ((s.drop i).nodes j).inUse = true →
      j ≠ i ∧ (s.drop i).nodes j = s.nodes j ∧ (s.nodes j).inUse = true := by
    intro j now
    rw [drop_nodes] at now ⊢
    split at now
    · cases now
    · rename_i other
      rw [if_neg other]
      exact ⟨other, rfl, now⟩
  refine ⟨drop_table ▸ inv.distinct.remove i, ?_, ?_, ?_, ?_, ?_, ?_⟩
  · intro j now
    obtain ⟨_, node, before⟩ := others j now
    rw [node, contents, owned, next]
    exact inv.data j before
  · intro j k first second same
    obtain ⟨_, nodeJ, beforeJ⟩ := others j first
    obtain ⟨_, nodeK, beforeK⟩ := others k second
    rw [nodeJ, nodeK] at same
    exact inv.apart j k beforeJ beforeK same
  · intro j now
    obtain ⟨other, node, before⟩ := others j now
    rw [node, drop_freed, inv.live j before, if_neg]
    rintro ⟨_, same⟩
    exact other (inv.apart j i before used same)
  · intro b small owner free
    rw [next] at small
    rw [owned] at owner
    rw [drop_freed]
    by_cases left : (s.nodes i).data = b
    · subst left
      rw [inv.live i used, if_pos ⟨(inv.data i used).2.1.trans owner, rfl⟩]
    · rw [if_neg fun all => left all.2.symm]
      refine inv.gone b small owner fun j before same => ?_
      by_cases here : j = i
      · subst here
        exact left same
      · refine free j ?_ ?_ <;> rw [drop_nodes, if_neg here]
        · exact before
        · exact same
  · intro b small owner
    rw [next] at small
    rw [owned] at owner
    rw [drop_freed, inv.kept b small owner, if_neg]
    rintro ⟨owns, rfl⟩
    rw [(inv.data i used).2.1, owner] at owns
    cases owns
  · intro b large
    rw [next] at large
    rw [drop_freed, inv.unborn b large, if_neg]
    rintro ⟨_, rfl⟩
    have small := (inv.data i used).1
    omega

theorem Sound.lookup_drop (inv : Sound s) (found : s.findNode path = some i) (other : Path) :
    (s.drop i).lookup other = if other = path then none else s.lookup other := by
  have there : SlotTable.find s.table path = some i := State.findNode_eq.symm.trans found
  have bytes : (s.drop i).bytes = s.bytes := by
    funext node
    unfold State.bytes
    rw [(drop_rest (s := s) (i := i)).1]
  rw [State.lookup_eq, State.lookup_eq, drop_table, SlotTable.get_remove inv.distinct there, bytes]
  split <;> rfl

end Drop

section Calls

variable {s : State} {path : Path}

/-- `ramfs_register_file` writes one node, or does nothing. -/
theorem registerFile_cases (bytes : List UInt8) (memory : Bool) (short : path.length ≤ 63) :
    s.registerFile path bytes memory = (false, s) ∨
    ∃ i, SlotTable.Fits s.table path i ∧ (s.findNode path).or s.freeNode = some i ∧
      s.registerFile path bytes memory = (true, s.place i path bytes true) := by
  unfold State.registerFile
  split
  · exact Or.inl rfl
  · rename_i i chosen
    split
    · refine Or.inr ⟨i, State.fits chosen, chosen, ?_⟩
      unfold State.fillNode State.place
      rw [storedPath_short short]
    · exact Or.inl rfl

theorem addBuiltin_cases (bytes : List UInt8) (short : path.length ≤ 63)
    (absent : s.findNode path = none) :
    s.addBuiltin path bytes = (false, s) ∨
      ∃ i, SlotTable.Fits s.table path i ∧ s.freeNode = some i ∧
        s.addBuiltin path bytes = (true, s.place i path bytes false) := by
  unfold State.addBuiltin
  split
  · exact Or.inl rfl
  · rename_i i free
    have unused : (s.nodes i).inUse = false := by simpa using List.find?_some free
    refine Or.inr ⟨i, State.fits (by rw [absent, free]; rfl), free, ?_⟩
    simp [State.place, storedPath_short short, unused]

theorem unregisterFile_cases (s : State) (path : Path) :
    s.unregisterFile path = (false, s) ∧ s.findNode path = none ∨
    ∃ i, s.findNode path = some i ∧ s.unregisterFile path = (true, s.drop i) := by
  unfold State.unregisterFile
  split
  · exact Or.inl ⟨rfl, ‹_›⟩
  · rename_i i found
    exact Or.inr ⟨i, found, rfl⟩

theorem findNode_inUse {i : Fin 32} (found : s.findNode path = some i) :
    (s.nodes i).inUse = true ∧ (s.nodes i).path = path := by
  obtain ⟨node, here⟩ := SlotTable.find_some (State.findNode_eq.symm.trans found)
  obtain ⟨used, same, _⟩ := State.table_some.mp here
  exact ⟨used, same⟩

end Calls

/-- A registered path has room for its NUL in a node, and a builtin file is not in the table yet. -/
def Short (s : Run) : Label → Prop
  | .builtin path _ => path.length ≤ 63 ∧ s.fs.findNode path = none
  | .register path _ _ => path.length ≤ 63
  | .unregister _ => True

instance (s : Run) (label : Label) : Decidable (Short s label) := by
  unfold Short
  split <;> infer_instance

/-- The table holds what the events so far say. -/
structure Faithful (s : Run) : Prop where
  sound : Sound s.fs
  agrees : ∀ path, s.fs.lookup path = expected s.log path

section Runs

variable {s r : Run} {label : Label}

theorem Faithful.place (inv : Faithful s) {i : Fin 32} {path : Path} {bytes : List UInt8} {owns : Bool}
    (fits : SlotTable.Fits s.fs.table path i) :
    Faithful (Run.record (true, s.fs.place i path bytes owns) s.log (.registered path bytes)) := by
  refine ⟨inv.sound.place fits, fun other => ?_⟩
  show (s.fs.place i path bytes owns).lookup other = if other = path then some bytes else _
  rw [inv.sound.lookup_place fits, inv.agrees]

theorem Faithful.failed (inv : Faithful s) (event : Event) :
    Faithful (Run.record (false, s.fs) s.log event) := ⟨inv.sound, inv.agrees⟩

theorem Faithful.step (inv : Faithful s) (short : Short s label) (taken : Ramfs.step s label = some r) :
    Faithful r := by
  cases label with
  | builtin path bytes =>
    cases taken
    rcases addBuiltin_cases bytes short.1 short.2 with failed | ⟨i, fits, _, done⟩
    · rw [failed]
      exact inv.failed _
    · rw [done]
      exact inv.place fits
  | register path bytes memory =>
    obtain ⟨_, same⟩ := Option.ite_none_left_eq_some.mp taken
    cases same
    rcases registerFile_cases bytes memory short with failed | ⟨i, fits, _, done⟩
    · rw [failed]
      exact inv.failed _
    · rw [done]
      exact inv.place fits
  | unregister path =>
    cases taken
    rcases unregisterFile_cases s.fs path with ⟨failed, _⟩ | ⟨i, found, done⟩
    · rw [failed]
      exact inv.failed _
    · rw [done]
      refine ⟨inv.sound.drop (findNode_inUse found).1, fun other => ?_⟩
      show (s.fs.drop i).lookup other = if other = path then none else _
      rw [inv.sound.lookup_drop found, inv.agrees]

theorem init_faithful : Faithful init := by
  have distinct : SlotTable.Distinct init.fs.table := fun i j path v w here => nomatch here
  refine ⟨⟨distinct, ?_, ?_, ?_, ?_, ?_, ?_⟩, fun path => ?_⟩
  · exact fun i used => nomatch used
  · exact fun i j used => nomatch used
  · exact fun i used => nomatch used
  · exact fun b small => absurd small (Nat.not_lt_zero b)
  · exact fun _ _ _ => rfl
  · exact fun _ _ => rfl
  · cases got : SlotTable.get init.fs.table path with
    | none => rfl
    | some node =>
      obtain ⟨i, here⟩ := (SlotTable.get_eq_some distinct).mp got
      cases here

/-- A lookup finds the bytes of the last registration, paths in use are distinct, a registration that
fails changes nothing, and a copy is freed once, when it leaves the table. -/
theorem run_files (reached : Transition.Reachable (· = init) step Short s) :
    (∀ path, s.fs.lookup path = expected s.log path) ∧
      (∀ i j, (s.fs.nodes i).inUse = true → (s.fs.nodes j).inUse = true →
        (s.fs.nodes i).path = (s.fs.nodes j).path → i = j) ∧
      (∀ path bytes memory, (s.fs.registerFile path bytes memory).1 = false →
        ∀ other, (s.fs.registerFile path bytes memory).2.lookup other = s.fs.lookup other) ∧
      (∀ b, b < s.fs.next → s.fs.owned b = true →
        s.fs.freed b = if ∃ i, (s.fs.nodes i).inUse = true ∧ (s.fs.nodes i).data = b then 0 else 1) ∧
      ∀ b, s.fs.owned b = false → b < s.fs.next → s.fs.freed b = 0 := by
  have inv : Faithful s := reached.invariant (fun s initial => initial ▸ init_faithful)
    fun _ _ _ inv short taken => inv.step short taken
  refine ⟨inv.agrees, ?_, ?_, ?_, fun b owner small => inv.sound.kept b small owner⟩
  · intro i j usedI usedJ same
    exact inv.sound.distinct i j _ _ _ (State.table_some.mpr ⟨usedI, rfl, rfl⟩)
      (State.table_some.mpr ⟨usedJ, same.symm, rfl⟩)
  · intro path bytes memory failed other
    unfold State.registerFile at failed ⊢
    split at failed
    · rfl
    · split at failed
      · cases failed
      · rename_i unlucky
        simp only [if_neg unlucky]
  · intro b small owner
    split
    · rename_i holder
      obtain ⟨i, used, rfl⟩ := holder
      exact inv.sound.live i used
    · rename_i left
      exact inv.sound.gone b small owner fun i used same => left ⟨i, used, same⟩

end Runs

/-- `n` times the letter a. -/
def letters (n : Nat) : Path := List.replicate n ⟨97, by decide⟩

/-- A file is replaced, another one is registered and unregistered, and one finds no memory. -/
def replacing : List Label :=
  [.register (letters 63) [1] true, .register (letters 2) [2] true, .register (letters 63) [3, 4] true,
    .unregister (letters 2), .register (letters 3) [5] false]

theorem run_files_replaced : ∃ s, Transition.run step init replacing = some s ∧
    s.fs.lookup (letters 63) = some [3, 4] ∧ s.fs.lookup (letters 2) = none ∧
      s.fs.lookup (letters 3) = none ∧ s.fs.freed 0 = 1 := by
  have guarded : Transition.Guarded step Short init replacing := by decide +kernel
  refine Transition.ends_imp (Q := fun s => expected s.log (letters 63) = some [3, 4] ∧
    expected s.log (letters 2) = none ∧ expected s.log (letters 3) = none ∧ s.fs.next = 3 ∧
    s.fs.owned 0 = true ∧ ¬ ∃ i, (s.fs.nodes i).inUse = true ∧ (s.fs.nodes i).data = 0)
    (by decide +kernel) ?_
  rintro s ran ⟨first, second, third, next, owner, left⟩
  obtain ⟨agrees, _, _, freed, _⟩ := run_files (.of_run _ (.start rfl) guarded ran)
  refine ⟨(agrees _).trans first, (agrees _).trans second, (agrees _).trans third, ?_⟩
  rw [freed 0 (by omega) owner, if_neg left]

/-- A path of 64 bytes is cut off in the node and is never found again, while its first 63 bytes are. -/
theorem run_files_truncated : ∃ s, Transition.run step init
    [.register (letters 64) [1] true, .register (letters 64) [2] true] = some s ∧
      s.fs.lookup (letters 64) = none ∧ expected s.log (letters 64) = some [2] ∧
      s.fs.lookup (letters 63) = some [1] ∧ expected s.log (letters 63) = none ∧
      (s.fs.nodes 0).inUse = true ∧ (s.fs.nodes 1).inUse = true ∧
      (s.fs.nodes 0).path = (s.fs.nodes 1).path := by
  decide +kernel

end OsArmv8a.Ramfs
