import OsArmv8a.Elf

/-! What `process_register_loaded_object` has checked and recorded of the objects it accepts, and
where it has put them. -/

set_option autoImplicit false

namespace OsArmv8a.Elf

open Mmu

section Fields

theorem foldr_bytes_lt (byte : Nat → BitVec 8) (offsets : List Nat) :
    offsets.foldr (fun i rest => (byte i).toNat + 256 * rest) 0 < 256 ^ offsets.length := by
  induction offsets with
  | nil => simp
  | cons i rest ih =>
    simp only [List.foldr_cons, List.length_cons, Nat.pow_succ]
    omega

theorem Image.field_lt (image : Image) (offset width : Nat) :
    image.field offset width < 256 ^ width := by
  have bound := foldr_bytes_lt (fun i => image.byte (Word64.add offset i)) (List.range width)
  rwa [List.length_range] at bound

/-- The fields fit their words. -/
structure Phdr.Fits (p : Phdr) : Prop where
  offset : p.offset < 2 ^ 64
  vaddr : p.vaddr < 2 ^ 64
  filesz : p.filesz < 2 ^ 64
  memsz : p.memsz < 2 ^ 64

theorem Image.phdrs_fit {image : Image} {p : Phdr} (member : p ∈ image.phdrs) : p.Fits := by
  obtain ⟨index, _, rfl⟩ := List.mem_map.mp member
  exact ⟨image.field_lt _ 8, image.field_lt _ 8, image.field_lt _ 8, image.field_lt _ 8⟩

end Fields

/-- The headers that become regions. -/
def Image.loadable (image : Image) : List Phdr := image.phdrs.filter Phdr.loads

variable {image : Image}

theorem Image.mem_loadable {p : Phdr} :
    p ∈ image.loadable ↔ p ∈ image.phdrs ∧ p.loads = true := List.mem_filter

section Bounds

/-- What `process_elf_load_bounds` has seen of a list of headers. -/
structure BoundsOf (phdrs : List Phdr) (low high : Nat) : Prop where
  covers : ∀ p ∈ phdrs, p.loads = true →
    p.filesz ≤ p.memsz ∧ low ≤ p.vaddr ∧ p.vaddr + p.memsz ≤ high
  lowest : ∃ p ∈ phdrs, p.loads = true ∧ p.vaddr = low
  highest : ∃ p ∈ phdrs, p.loads = true ∧ p.vaddr + p.memsz = high
  high_lt : high < 2 ^ 64

/-- The accumulator after the headers `seen`. -/
def Accumulated (seen : List Phdr) : Option (Nat × Nat) → Prop
  | none => ∀ p ∈ seen, p.loads = false
  | some (low, high) => BoundsOf seen low high

variable {seen : List Phdr} {found : Option (Nat × Nat)} {p : Phdr}

theorem Accumulated.skip (before : Accumulated seen found) (skipped : p.loads = false) :
    Accumulated (seen ++ [p]) found := by
  cases found with
  | none =>
    intro q member
    rcases List.mem_append.mp member with old | new
    · exact before q old
    · rwa [List.mem_singleton.mp new]
  | some bounds =>
    obtain ⟨covers, ⟨l, lin, lowest⟩, ⟨h, hin, highest⟩, high_lt⟩ := before
    refine ⟨?_, ⟨l, by simp [lin], lowest⟩, ⟨h, by simp [hin], highest⟩, high_lt⟩
    intro q member loads
    rcases List.mem_append.mp member with old | new
    · exact covers q old loads
    · rw [List.mem_singleton.mp new, skipped] at loads
      cases loads

theorem Accumulated.first (before : Accumulated seen none) (loads : p.loads = true)
    (ordered : p.filesz ≤ p.memsz) (small : p.vaddr + p.memsz < 2 ^ 64) :
    Accumulated (seen ++ [p]) (some (p.vaddr, p.vaddr + p.memsz)) := by
  refine ⟨?_, ⟨p, by simp, loads, rfl⟩, ⟨p, by simp, loads, rfl⟩, small⟩
  intro q member qLoads
  rcases List.mem_append.mp member with old | new
  · rw [before q old] at qLoads
    cases qLoads
  · rw [List.mem_singleton.mp new]
    exact ⟨ordered, le_rfl, le_rfl⟩

variable {low high : Nat}

theorem Accumulated.next (before : Accumulated seen (some (low, high))) (loads : p.loads = true)
    (ordered : p.filesz ≤ p.memsz) (small : p.vaddr + p.memsz < 2 ^ 64) :
    Accumulated (seen ++ [p]) (some (min p.vaddr low, max (p.vaddr + p.memsz) high)) := by
  obtain ⟨covers, ⟨l, lin, lLoads, lowest⟩, ⟨h, hin, hLoads, highest⟩, high_lt⟩ := before
  refine ⟨?_, ?_, ?_, by omega⟩
  · intro q member qLoads
    rcases List.mem_append.mp member with old | new
    · have := covers q old qLoads
      omega
    · rw [List.mem_singleton.mp new]
      omega
  · by_cases less : p.vaddr ≤ low
    · exact ⟨p, by simp, loads, by omega⟩
    · exact ⟨l, by simp [lin], lLoads, by omega⟩
  · by_cases more : high ≤ p.vaddr + p.memsz
    · exact ⟨p, by simp, loads, by omega⟩
    · exact ⟨h, by simp [hin], hLoads, by omega⟩

theorem elfLoadBoundsFrom_spec (phdrs : List Phdr) (before : Accumulated seen found)
    (fit : ∀ p ∈ phdrs, p.Fits) (accepted : elfLoadBoundsFrom found phdrs = some (low, high)) :
    BoundsOf (seen ++ phdrs) low high := by
  induction phdrs generalizing seen found with
  | nil =>
    cases accepted
    rwa [List.append_nil]
  | cons p rest ih =>
    have fitRest := fun q member => fit q (List.mem_cons_of_mem p member)
    have fitP := fit p List.mem_cons_self
    rw [List.append_cons]
    unfold elfLoadBoundsFrom at accepted
    split at accepted
    · exact ih (before.skip (by assumption)) fitRest accepted
    · rename_i loads
      rw [Bool.not_eq_false] at loads
      split at accepted
      · cases accepted
      · dsimp only at accepted
        split at accepted
        · cases accepted
        · have plain := Word64.add_eq_of_gt fitP.vaddr fitP.memsz (by omega)
          have small := Word64.add_lt p.vaddr p.memsz
          rw [plain] at accepted small
          apply ih ?_ fitRest accepted
          cases found with
          | none => exact before.first loads (by omega) small
          | some bounds => exact before.next loads (by omega) small

theorem elfLoadBounds_spec {image : Image} (accepted : elfLoadBounds image.phdrs = some (low, high))
    : BoundsOf image.phdrs low high := by
  have nothing : Accumulated [] none := fun p member => absurd member List.not_mem_nil
  exact elfLoadBoundsFrom_spec image.phdrs nothing (fun _ member => Image.phdrs_fit member) accepted

end Bounds

section Segments

/-- The checks a loaded segment has passed. -/
structure Mapped (image : Image) (loadBias : Nat) (p : Phdr) : Prop where
  file : Word64.add p.offset p.filesz ≤ image.size
  start : userCodeBase ≤ (segmentRegion image loadBias p).start
  stop : (segmentRegion image loadBias p).stop ≤ userHeapLimit
  ordered : (segmentRegion image loadBias p).start < (segmentRegion image loadBias p).stop

variable {before after : List VmRegion}

theorem addRegion_spec {region : VmRegion} (added : addRegion before region = some after) :
    after = before ++ [region] ∧ after.length ≤ 16 := by
  unfold addRegion at added
  split at added
  · cases added
  · cases added
    refine ⟨rfl, ?_⟩
    rw [List.length_append, List.length_singleton]
    omega

variable {image : Image} {loadBias : Nat}

theorem mapElfSegment_skip {p : Phdr} (skipped : p.loads = false)
    (mapped : mapElfSegment image loadBias before p = some after) : after = before := by
  unfold mapElfSegment at mapped
  rw [if_pos skipped] at mapped
  exact (Option.some.inj mapped).symm

theorem mapElfSegment_spec {p : Phdr} (loads : p.loads = true)
    (mapped : mapElfSegment image loadBias before p = some after) :
    Mapped image loadBias p ∧ after = before ++ [segmentRegion image loadBias p] ∧
      after.length ≤ 16 := by
  unfold mapElfSegment at mapped
  rw [if_neg (by simp [loads])] at mapped
  split at mapped
  · cases mapped
  · split at mapped
    · cases mapped
    · dsimp only at mapped
      split at mapped
      · cases mapped
      · exact ⟨⟨by omega, by omega, by omega, by omega⟩, addRegion_spec mapped⟩

theorem foldlM_mapElfSegment (phdrs : List Phdr) (room : before.length ≤ 16)
    (mapped : phdrs.foldlM (mapElfSegment image loadBias) before = some after) :
    after = before ++ (phdrs.filter Phdr.loads).map (segmentRegion image loadBias) ∧
      (∀ p ∈ phdrs, p.loads = true → Mapped image loadBias p) ∧ after.length ≤ 16 := by
  induction phdrs generalizing before with
  | nil =>
    cases mapped
    simp [room]
  | cons p rest ih =>
    obtain ⟨middle, first, others⟩ := Option.bind_eq_some_iff.mp mapped
    cases loads : p.loads with
    | false =>
      cases mapElfSegment_skip loads first
      obtain ⟨regions, checked, short⟩ := ih room others
      refine ⟨?_, ?_, short⟩
      · rw [List.filter_cons_of_neg (by simp [loads])]
        exact regions
      · intro q member qLoads
        rcases List.mem_cons.mp member with rfl | old
        · exact absurd (loads.symm.trans qLoads) (by decide)
        · exact checked q old qLoads
    | true =>
      obtain ⟨mappedP, rfl, length⟩ := mapElfSegment_spec loads first
      obtain ⟨regions, checked, short⟩ := ih length others
      refine ⟨?_, ?_, short⟩
      · rw [List.filter_cons_of_pos loads, List.map_cons, regions, List.append_assoc]
        rfl
      · intro q member qLoads
        rcases List.mem_cons.mp member with rfl | old
        · exact mappedP
        · exact checked q old qLoads

end Segments

/-- An object that `process_register_loaded_object` accepted. -/
structure Object (image : Image) (low high loadBias : Nat) : Prop where
  kind : image.eType = 2 ∨ image.eType = 3
  table : image.ePhnum ≠ 0 ∧ Word64.add image.ePhoff (56 * image.ePhnum) ≤ image.size
  address : image.address ≠ 0
  bounds : BoundsOf image.phdrs low high
  mapped : ∀ p ∈ image.phdrs, p.loads = true → Mapped image loadBias p
  guarded : Word64.alignUp
    (Word64.add (Word64.alignUp (Word64.add loadBias high) 4096) guardSize) 4096 ≤ userHeapLimit

/-- What one accepted call changes. -/
structure Registered (before after : LoadState) (image : Image) (low high loadBias : Nat) : Prop where
  object : Object image low high loadBias
  bias : objectBias image before.nextBase low high = (loadBias, after.nextBase)
  rejected : ¬ (image.eType = 3 ∧ loadBias = 0 ∧ low ≠ 0 ∧ 0 < before.objectCount)
  regions : after.regions = before.regions ++ image.loadable.map (segmentRegion image loadBias)
  room : after.regions.length ≤ 16
  maxMappedEnd : after.maxMappedEnd =
    max (Word64.alignUp (Word64.add loadBias high) 4096) before.maxMappedEnd
  objectCount : after.objectCount = before.objectCount + 1
  ownedImages : after.ownedImages = before.ownedImages ++ [image.address]

variable {before after : LoadState}

theorem registerLoadedObject_spec {name : CString} {setEntry : Bool}
    (room : before.regions.length ≤ 16)
    (accepted : registerLoadedObject before name image setEntry = some after) :
    ∃ low high loadBias, Registered before after image low high loadBias := by
  unfold registerLoadedObject at accepted
  split at accepted
  · cases accepted
  split at accepted
  · cases accepted
  rename_i valid
  split at accepted
  · cases accepted
  split at accepted
  · cases accepted
  rename_i low high bounds
  cases chosen : objectBias image before.nextBase low high with
  | mk loadBias nextBase =>
  rw [chosen] at accepted
  dsimp only at accepted
  split at accepted
  · cases accepted
  rename_i rejected
  split at accepted
  · cases accepted
  split at accepted
  · cases accepted
  rename_i regions mapped
  obtain ⟨registered, checked, short⟩ := foldlM_mapElfSegment image.phdrs room mapped
  unfold finishObject at accepted
  dsimp only at accepted
  split at accepted
  · cases accepted
  cases accepted
  have header : _ ∧ _ := of_decide_eq_true (Bool.of_not_eq_false valid)
  obtain ⟨address, _, _, _, kind, _, _, _, phnum, table⟩ := header
  refine ⟨low, high, loadBias, ?_, chosen, rejected, registered, short, rfl, rfl, rfl⟩
  exact ⟨kind, ⟨phnum, table⟩, address, elfLoadBounds_spec bounds, checked, by omega⟩

section Placement

variable {image : Image} {low high loadBias : Nat} {p : Phdr}

/-- Both ends of a region are as far from a page boundary as the load bias. -/
theorem segmentRegion_start_mod (image : Image) (loadBias : Nat) (p : Phdr) :
    (segmentRegion image loadBias p).start % 4096 = loadBias % 4096 := by
  simp only [segmentRegion, Word64.add, Word64.alignDown]
  omega

theorem segmentRegion_stop_mod (image : Image) (loadBias : Nat) (p : Phdr) :
    (segmentRegion image loadBias p).stop % 4096 = loadBias % 4096 := by
  simp only [segmentRegion, Word64.add, Word64.alignUp]
  omega

/-- The pages a segment touches, before it is moved. -/
def Phdr.pageStart (p : Phdr) : Nat := 4096 * (p.vaddr / 4096)
def Phdr.pageEnd (p : Phdr) : Nat := 4096 * ((p.vaddr + p.memsz + 4095) / 4096)

/-- The size of the address range, in whole pages. -/
def spanOf (low high : Nat) : Nat := 4096 * ((high - low + 4095) / 4096)

/-- The highest base that leaves room for the image and the guard page. -/
def topBase (low high : Nat) : Nat := userHeapLimit - guardSize - spanOf low high

/-- Without a bias the segments lie where their headers say, with the guard page above them. -/
theorem Object.unmoved (object : Object image low high 0) :
    userCodeBase ≤ low ∧ 4096 * ((high + 4095) / 4096) + guardSize ≤ userHeapLimit := by
  obtain ⟨p, member, loads, lowest⟩ := object.bounds.lowest
  obtain ⟨q, memberQ, loadsQ, highest⟩ := object.bounds.highest
  have startP := (object.mapped p member loads).start
  have stopQ := (object.mapped q memberQ loadsQ).stop
  have orderedQ := (object.mapped q memberQ loadsQ).ordered
  have small := object.bounds.high_lt
  have guarded := object.guarded
  simp only [segmentRegion, Word64.add, Word64.alignUp, Word64.alignDown, userCodeBase, userHeapLimit,
    guardSize] at *
  subst lowest highest
  omega

/-- The base an image is given when the cursor stands at `nextBase`. -/
def baseFor (nextBase low high : Nat) : Nat :=
  if topBase low high < nextBase then userCodeBase else nextBase

theorem baseFor_bottom (low high : Nat) : baseFor userCodeBase low high = userCodeBase := ite_self _

/-- An accepted `ET_DYN` object has been given a base; the failure value of
`process_choose_elf_load_bias` does not get past the other checks. -/
theorem chooseElfLoadBias_spec {nextBase moved : Nat} (object : Object image low high loadBias)
    (cursor : userCodeBase ≤ nextBase)
    (chosen : chooseElfLoadBias nextBase low high = (loadBias, moved)) :
    loadBias = Word64.sub (baseFor nextBase low high) low ∧
      userCodeBase ≤ baseFor nextBase low high ∧
      baseFor nextBase low high + spanOf low high + guardSize ≤ userHeapLimit ∧ low < high ∧
      moved = if topBase low high < baseFor nextBase low high + loadStride then userCodeBase
        else baseFor nextBase low high + loadStride := by
  have ordered : low < high := by
    obtain ⟨p, member, loads, lowest⟩ := object.bounds.lowest
    have nonempty : _ ∧ _ := of_decide_eq_true loads
    have := object.bounds.covers p member loads
    omega
  have small := object.bounds.high_lt
  have difference : Word64.sub high low = high - low := Word64.sub_of_le ordered.le small
  have rounded : high - low ≤ 2 ^ 64 - 4096 →
      Word64.alignUp (high - low) 4096 = spanOf low high := by
    intro short
    simp only [Word64.alignUp, Word64.add, spanOf]
    omega
  have wrapped : 2 ^ 64 - 4096 < high - low → Word64.alignUp (high - low) 4096 = 0 := by
    intro long
    simp only [Word64.alignUp, Word64.add]
    omega
  unfold chooseElfLoadBias at chosen
  rw [difference] at chosen
  dsimp only at chosen
  split at chosen
  · cases chosen
    obtain ⟨lowBound, highBound⟩ := object.unmoved
    simp only [userCodeBase, userHeapLimit, guardSize, spanOf] at *
    omega
  · rename_i fits
    have short : high - low ≤ 2 ^ 64 - 4096 := by
      by_contra long
      exact fits (Or.inl (wrapped (by omega)))
    rw [rounded short] at chosen fits
    have pages : spanOf low high % 4096 = 0 := Nat.mul_mod_right 4096 _
    rw [if_neg (by simp only [userCodeBase, userHeapLimit, guardSize] at *; omega)] at chosen
    have base : (if nextBase < userCodeBase ∨ userHeapLimit - guardSize - spanOf low high < nextBase
        then userCodeBase else nextBase) = baseFor nextBase low high := by
      unfold baseFor topBase
      simp only [Nat.not_lt.mpr cursor, false_or]
    rw [base] at chosen
    have room : userCodeBase ≤ baseFor nextBase low high ∧
        baseFor nextBase low high + spanOf low high + guardSize ≤ userHeapLimit := by
      by_cases past : topBase low high < nextBase
      · rw [baseFor, if_pos past]
        simp only [topBase, userCodeBase, userHeapLimit, guardSize] at *
        omega
      · rw [baseFor, if_neg past]
        simp only [topBase, userCodeBase, userHeapLimit, guardSize] at *
        omega
    have moves : Word64.add (baseFor nextBase low high) loadStride =
        baseFor nextBase low high + loadStride := by
      apply Word64.add_of_lt
      simp only [userHeapLimit, loadStride] at *
      omega
    rw [moves] at chosen
    obtain ⟨bias, next⟩ := Prod.mk.inj chosen
    exact ⟨bias.symm, room.1, room.2, ordered, next.symm⟩

/-- Where an accepted object lies: moved to its base, or where its headers say. -/
structure Placed (image : Image) (nextBase low high loadBias : Nat) : Prop where
  dynamic : image.eType = 3 → loadBias = Word64.sub (baseFor nextBase low high) low ∧
    userCodeBase ≤ baseFor nextBase low high ∧
    baseFor nextBase low high + spanOf low high + guardSize ≤ userHeapLimit
  paged : baseFor nextBase low high % 4096 = 0
  static : image.eType ≠ 3 → loadBias = 0 ∧ userCodeBase ≤ low ∧
    4096 * ((high + 4095) / 4096) + guardSize ≤ userHeapLimit

theorem Object.ordered (object : Object image low high loadBias) : low < high := by
  obtain ⟨p, member, loads, lowest⟩ := object.bounds.lowest
  have nonempty : _ ∧ _ := of_decide_eq_true loads
  have covered := object.bounds.covers p member loads
  omega

variable {before after : LoadState}

theorem Registered.placed (registered : Registered before after image low high loadBias)
    (cursor : userCodeBase ≤ before.nextBase ∧ before.nextBase % 4096 = 0) :
    Placed image before.nextBase low high loadBias := by
  have paged : baseFor before.nextBase low high % 4096 = 0 := by
    unfold baseFor
    split
    · rfl
    · exact cursor.2
  have object := registered.object
  have chosen := registered.bias
  unfold objectBias at chosen
  by_cases kind : image.eType = 3
  · rw [if_pos kind] at chosen
    obtain ⟨bias, bottom, top, _⟩ := chooseElfLoadBias_spec object cursor.1 chosen
    exact ⟨fun _ => ⟨bias, bottom, top⟩, paged, fun other => absurd kind other⟩
  · rw [if_neg kind] at chosen
    obtain ⟨bias, _⟩ := Prod.mk.inj chosen
    subst bias
    exact ⟨fun dynamic => absurd dynamic kind, paged, fun _ => ⟨rfl, object.unmoved⟩⟩

/-- The cursor after the main object. -/
def cursorAfter (main : Image) (low high : Nat) : Nat :=
  if main.eType = 3 then
    if topBase low high < userCodeBase + loadStride then userCodeBase else userCodeBase + loadStride
  else loadStride * ((low + spanOf low high + (loadStride - 1)) / loadStride)

theorem Registered.cursor (registered : Registered before after image low high loadBias)
    (first : before.nextBase = userCodeBase) : after.nextBase = cursorAfter image low high := by
  have object := registered.object
  have chosen := registered.bias
  have ordered := object.ordered
  unfold objectBias at chosen
  by_cases kind : image.eType = 3
  · rw [if_pos kind, first] at chosen
    obtain ⟨_, _, _, _, moved⟩ := chooseElfLoadBias_spec object le_rfl chosen
    rw [moved, baseFor_bottom, cursorAfter, if_pos kind]
  · rw [if_neg kind] at chosen
    obtain ⟨bias, moved⟩ := Prod.mk.inj chosen
    subst bias
    obtain ⟨bottom, top⟩ := object.unmoved
    have difference : Word64.sub high low = high - low :=
      Word64.sub_of_le ordered.le object.bounds.high_lt
    have rounded : Word64.add low (Word64.alignUp (high - low) 4096) = low + spanOf low high := by
      simp only [Word64.alignUp, Word64.add, spanOf, userHeapLimit, guardSize] at *
      omega
    have short : low + spanOf low high < 2 ^ 32 := by
      simp only [spanOf, userHeapLimit, guardSize] at *
      omega
    have behind : before.nextBase < low + spanOf low high := by
      simp only [spanOf, userCodeBase] at *
      omega
    rw [difference, rounded, if_pos behind] at moved
    rw [← moved, cursorAfter, if_neg kind]
    simp only [Word64.alignUp, Word64.add, loadStride]
    omega

theorem cursorAfter_bottom {main : Image} (bottom : main.eType ≠ 3 → userCodeBase ≤ low) :
    userCodeBase ≤ cursorAfter main low high ∧ cursorAfter main low high % 4096 = 0 := by
  unfold cursorAfter
  split
  · split <;> decide
  · rename_i kind
    have lowBound := bottom kind
    simp only [spanOf, userCodeBase, loadStride] at *
    omega

/-- The pages of a segment at the place of its object. -/
def homeStart (image : Image) (base low : Nat) (p : Phdr) : Nat :=
  if image.eType = 3 then base + p.pageStart - low else p.pageStart

def homeEnd (image : Image) (base low : Nat) (p : Phdr) : Nat :=
  if image.eType = 3 then base + p.pageEnd - low else p.pageEnd

theorem segmentRegion_start (image : Image) (loadBias : Nat) (p : Phdr) :
    (segmentRegion image loadBias p).start = Word64.add loadBias p.pageStart := by
  simp only [segmentRegion, Word64.alignDown, Phdr.pageStart, Nat.mul_comm]

theorem segmentRegion_stop (image : Image) (loadBias : Nat) {p : Phdr}
    (small : p.vaddr + p.memsz < 2 ^ 64) :
    (segmentRegion image loadBias p).stop = Word64.add loadBias (p.pageEnd % 2 ^ 64) := by
  simp only [segmentRegion, Word64.add_of_lt small, Word64.alignUp_page, Phdr.pageEnd]

/-- An object that was moved to an aligned base. -/
theorem home_dynamic (image : Image) {base : Nat} (paged : base % 4096 = 0)
    (small : high < 2 ^ 64) (aligned : low % 4096 = 0)
    (above : low ≤ p.vaddr) (below : p.vaddr + p.memsz ≤ high)
    (top : base + spanOf low high + guardSize ≤ userHeapLimit) :
    (segmentRegion image (Word64.sub base low) p).start = base + p.pageStart - low ∧
      (segmentRegion image (Word64.sub base low) p).stop = base + p.pageEnd - low ∧
      base + p.pageEnd - low ≤ Word64.alignUp (Word64.add (Word64.sub base low) high) 4096 := by
  have range : low ≤ p.pageStart ∧ p.pageStart ≤ p.vaddr ∧ low ≤ p.pageEnd ∧
      p.pageEnd ≤ low + spanOf low high := by
    simp only [Phdr.pageStart, Phdr.pageEnd, spanOf]
    omega
  have high' : high ≤ low + spanOf low high := by
    simp only [spanOf]
    omega
  have rounds : base + p.pageEnd - low ≤ 4096 * ((base + high - low + 4095) / 4096) := by
    simp only [Phdr.pageEnd]
    omega
  simp only [userHeapLimit, guardSize] at top
  rw [segmentRegion_start, segmentRegion_stop image _ (by omega),
    Word64.add_sub_rebase (by omega) (Nat.mod_eq_of_lt (by omega)).symm (by omega) (by omega),
    Word64.add_sub_rebase (by omega) rfl (by omega) (by omega),
    Word64.add_sub_rebase (by omega) (Nat.mod_eq_of_lt small).symm (by omega) (by omega),
    Word64.alignUp_page]
  refine ⟨rfl, rfl, ?_⟩
  rwa [Nat.mod_eq_of_lt (by omega)]

/-- An object that stays where its headers say. -/
theorem home_static (image : Image) (below : p.vaddr + p.memsz ≤ high)
    (top : 4096 * ((high + 4095) / 4096) + guardSize ≤ userHeapLimit) :
    (segmentRegion image 0 p).start = p.pageStart ∧ (segmentRegion image 0 p).stop = p.pageEnd ∧
      p.pageEnd ≤ Word64.alignUp (Word64.add 0 high) 4096 := by
  simp only [userHeapLimit, guardSize] at top
  have range : p.pageStart < 2 ^ 64 ∧ p.pageEnd < 2 ^ 64 := by
    simp only [Phdr.pageStart, Phdr.pageEnd]
    omega
  rw [segmentRegion_start, segmentRegion_stop image _ (by omega), Word64.alignUp_page,
    Nat.mod_eq_of_lt range.2, Word64.add_of_lt (by omega), Word64.add_of_lt (by omega),
    Word64.add_of_lt (by omega), Nat.mod_eq_of_lt (by omega)]
  simp only [Nat.zero_add, true_and, Phdr.pageEnd]
  omega

/-- With an aligned lowest address the regions are exactly the pages of the segments, and they end
below the address the heap is put above. -/
theorem Placed.home {nextBase : Nat} (placed : Placed image nextBase low high loadBias)
    (object : Object image low high loadBias) (aligned : image.eType = 3 → low % 4096 = 0)
    (member : p ∈ image.phdrs) (loads : p.loads = true) :
    (segmentRegion image loadBias p).start = homeStart image (baseFor nextBase low high) low p ∧
      (segmentRegion image loadBias p).stop = homeEnd image (baseFor nextBase low high) low p ∧
      (segmentRegion image loadBias p).stop ≤ Word64.alignUp (Word64.add loadBias high) 4096 := by
  obtain ⟨_, above, below⟩ := object.bounds.covers p member loads
  unfold homeStart homeEnd
  by_cases kind : image.eType = 3
  · obtain ⟨bias, _, top⟩ := placed.dynamic kind
    rw [if_pos kind, if_pos kind, bias]
    obtain ⟨start, stop, guarded⟩ :=
      home_dynamic image placed.paged object.bounds.high_lt (aligned kind) above below top
    exact ⟨start, stop, stop ▸ guarded⟩
  · obtain ⟨bias, _, top⟩ := placed.static kind
    rw [if_neg kind, if_neg kind, bias]
    obtain ⟨start, stop, guarded⟩ := home_static image below top
    exact ⟨start, stop, stop ▸ guarded⟩

end Placement

/-- The lowest address of the segments, and the end of the highest one. -/
def Image.low (image : Image) : Nat := ((image.loadable.map Phdr.vaddr).min?).getD 0
def Image.high (image : Image) : Nat :=
  ((image.loadable.map fun p => p.vaddr + p.memsz).max?).getD 0

theorem BoundsOf.low_eq {low high : Nat} (bounds : BoundsOf image.phdrs low high) :
    image.low = low := by
  obtain ⟨p, member, loads, lowest⟩ := bounds.lowest
  have least : (image.loadable.map Phdr.vaddr).min? = some low := by
    rw [List.min?_eq_some_iff]
    refine ⟨List.mem_map.mpr ⟨p, Image.mem_loadable.mpr ⟨member, loads⟩, lowest⟩, ?_⟩
    intro address found
    obtain ⟨q, loadable, rfl⟩ := List.mem_map.mp found
    obtain ⟨memberQ, loadsQ⟩ := Image.mem_loadable.mp loadable
    exact (bounds.covers q memberQ loadsQ).2.1
  rw [Image.low, least, Option.getD_some]

theorem BoundsOf.high_eq {low high : Nat} (bounds : BoundsOf image.phdrs low high) :
    image.high = high := by
  obtain ⟨p, member, loads, highest⟩ := bounds.highest
  have greatest : (image.loadable.map fun p => p.vaddr + p.memsz).max? = some high := by
    rw [List.max?_eq_some_iff]
    refine ⟨List.mem_map.mpr ⟨p, Image.mem_loadable.mpr ⟨member, loads⟩, highest⟩, ?_⟩
    intro address found
    obtain ⟨q, loadable, rfl⟩ := List.mem_map.mp found
    obtain ⟨memberQ, loadsQ⟩ := Image.mem_loadable.mp loadable
    exact (bounds.covers q memberQ loadsQ).2.2
  rw [Image.high, greatest, Option.getD_some]

/-- The interpreter the kernel loads along with an image. -/
def interpreter (kernel : Kernel) (main : Image) : Option Image :=
  (interpPath main).bind kernel.loadFile

/-- The objects of an accepted process. -/
inductive Loads (kernel : Kernel) (main : Image) (state : LoadState) : Prop
  | alone {bias : Nat} (alone : interpreter kernel main = none)
      (registered : Registered emptyLoad state main main.low main.high bias)
  | linked {middle : LoadState} {interp : Image} {bias interpBias : Nat}
      (found : interpreter kernel main = some interp)
      (first : Registered emptyLoad middle main main.low main.high bias)
      (second : Registered middle state interp interp.low interp.high interpBias)

theorem registerLoadedObject_loads {name : CString} {setEntry : Bool}
    (room : before.regions.length ≤ 16)
    (accepted : registerLoadedObject before name image setEntry = some after) :
    ∃ loadBias, Registered before after image image.low image.high loadBias := by
  obtain ⟨low, high, loadBias, registered⟩ := registerLoadedObject_spec room accepted
  have bounds := registered.object.bounds
  exact ⟨loadBias, bounds.low_eq ▸ bounds.high_eq ▸ registered⟩

theorem loadObjects_spec {kernel : Kernel} {main : Image} {state : LoadState}
    (loaded : loadObjects kernel main = some state) : Loads kernel main state := by
  have empty : emptyLoad.regions.length ≤ 16 := Nat.zero_le 16
  unfold loadObjects at loaded
  split at loaded
  · rename_i path
    obtain ⟨bias, registered⟩ := registerLoadedObject_loads empty loaded
    exact .alone (by rw [interpreter, path]; rfl) registered
  · rename_i path named
    obtain ⟨middle, first, rest⟩ := Option.bind_eq_some_iff.mp loaded
    obtain ⟨interp, read, second⟩ := Option.bind_eq_some_iff.mp rest
    obtain ⟨bias, first⟩ := registerLoadedObject_loads empty first
    obtain ⟨interpBias, second⟩ := registerLoadedObject_loads first.room second
    exact .linked (by rw [interpreter, named]; exact read) first second

theorem createFromElf_spec {kernel : Kernel} {main : Image} {process : Process}
    (accepted : createFromElf kernel main = some process) :
    ∃ state, Loads kernel main state ∧
      process.heapStart = Word64.alignUp (Word64.add state.maxMappedEnd guardSize) 4096 ∧
      process.regions =
        tryRegion (tryRegion state.regions stackRegion) (heapRegion process.heapStart) := by
  unfold createFromElf at accepted
  split at accepted
  · cases accepted
  split at accepted
  · cases accepted
  split at accepted
  · cases accepted
  obtain ⟨mm, _, rest⟩ := Option.bind_eq_some_iff.mp accepted
  obtain ⟨state, loaded, finished⟩ := Option.bind_eq_some_iff.mp rest
  unfold finishProcess at finished
  dsimp only at finished
  split at finished
  · cases finished
  · cases finished
    exact ⟨state, loadObjects_spec loaded, rfl, rfl⟩

end OsArmv8a.Elf
