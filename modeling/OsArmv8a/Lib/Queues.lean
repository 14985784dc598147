import OsArmv8a.Lib.Chain

/-! First-in first-out queues whose nodes carry the link themselves. All queues share the link field,
so a node may be on one of them only. -/

set_option autoImplicit false

namespace Intrusive

variable {ι α : Type}
variable {next : α → Option α}

/-- Replacing a suffix: the last node in front of it gets the new join. -/
theorem Chain.splice {fresh : α → Option α} {front back new : List α} {join : Option α} :
    ∀ {head : Option α}, Chain next head (front ++ back) → Chain fresh join new →
    (∀ x ∈ front, front.getLast? ≠ some x → fresh x = next x) →
    (∀ x, front.getLast? = some x → fresh x = join) →
    Chain fresh (if front = [] then join else head) (front ++ new) := by
  induction front with
  | nil =>
    intro head _ tail _ _
    exact tail
  | cons x rest ih =>
    intro head chain tail kept last
    refine ⟨chain.1, ?_⟩
    cases rest with
    | nil =>
      rw [last x rfl]
      exact tail
    | cons y others =>
      have sameLast : (x :: y :: others).getLast? = (y :: others).getLast? := by simp
      have inner := ih chain.2 tail
        (fun z member distinct => kept z (List.mem_cons_of_mem x member) (sameLast ▸ distinct))
        (fun z isLast => last z (sameLast ▸ isLast))
      have distinct : (x :: y :: others).getLast? ≠ some x := by
        intro isLast
        have whole : (x :: (y :: others ++ back)).Nodup := Chain.nodup chain
        exact (List.nodup_cons.mp whole).1
          (List.mem_append_left back (List.mem_of_getLast? isLast))
      rw [kept x List.mem_cons_self distinct]
      simpa using inner

/-- The link of every node, and the two ends of every queue. -/
structure Queues (ι α : Type) where
  next : α → Option α
  head : ι → Option α
  tail : ι → Option α

/-- The loop that looks for a node; `none` when `fuel` links do not lead to the end. -/
def find [DecidableEq α] (next : α → Option α) (t : α) : Nat → Option α → Option Bool
  | _, none => some false
  | 0, some _ => none
  | fuel + 1, some u => if u = t then some true else find next t fuel (next u)

/-- The loop that looks for a node and keeps the one before it. -/
def locate [DecidableEq α] (next : α → Option α) (t : α) :
    Nat → Option α → Option α → Option (Option (Option α))
  | _, _, none => some none
  | 0, _, some _ => none
  | fuel + 1, previous, some u =>
    if u = t then some (some previous) else locate next t fuel (some u) (next u)

theorem Chain.find_eq [DecidableEq α] {xs : List α} (t : α) :
    ∀ {head : Option α} {fuel : Nat}, Chain next head xs → xs.length ≤ fuel →
    find next t fuel head = some (decide (t ∈ xs)) := by
  induction xs with
  | nil =>
    intro head fuel chain _
    rw [chain_nil.mp chain]
    cases fuel <;> simp [find]
  | cons x xs ih =>
    intro head fuel chain enough
    obtain ⟨fuel, rfl⟩ := Nat.exists_eq_add_of_le' (Nat.one_le_of_lt enough)
    rw [chain.1, find]
    by_cases same : x = t
    · simp [same]
    · rw [if_neg same, ih chain.2 (by simpa using enough)]
      simp [Ne.symm same]

theorem Chain.locate_eq [DecidableEq α] {xs : List α} (t : α) :
    ∀ {head : Option α} (previous : Option α) {fuel : Nat}, Chain next head xs → xs.length ≤ fuel →
    (t ∉ xs ∧ locate next t fuel previous head = some none) ∨
      ∃ front back, xs = front ++ t :: back ∧ t ∉ front ∧
        locate next t fuel previous head = some (some (front.getLast?.or previous)) := by
  induction xs with
  | nil =>
    intro head previous fuel chain _
    rw [chain_nil.mp chain]
    cases fuel <;> simp [locate]
  | cons x xs ih =>
    intro head previous fuel chain enough
    obtain ⟨fuel, rfl⟩ := Nat.exists_eq_add_of_le' (Nat.one_le_of_lt enough)
    rw [chain.1, locate]
    by_cases same : x = t
    · right
      exact ⟨[], xs, by simp [same], by simp, by simp [same]⟩
    · rw [if_neg same]
      rcases ih (some x) chain.2 (by simpa using enough) with
        ⟨missing, result⟩ | ⟨front, back, split, first, result⟩
      · exact Or.inl ⟨by simp [Ne.symm same, missing], result⟩
      · refine Or.inr ⟨x :: front, back, by simp [split], by simp [Ne.symm same, first], ?_⟩
        rw [result]
        simp [List.getLast?_cons]

namespace Queues

variable [DecidableEq ι] [DecidableEq α]

def contains (q : Queues ι α) (fuel : Nat) (i : ι) (t : α) : Option Bool :=
  find q.next t fuel (q.head i)

/-- The node becomes the last one. -/
def append (q : Queues ι α) (i : ι) (t : α) : Queues ι α :=
  let cleared : α → Option α := fun u => if u = t then none else q.next u
  match q.tail i with
  | none =>
    { next := cleared
      head := fun j => if j = i then some t else q.head j
      tail := fun j => if j = i then some t else q.tail j }
  | some last =>
    { q with
      next := fun u => if u = last then some t else cleared u
      tail := fun j => if j = i then some t else q.tail j }

/-- A node that is already on the queue is refused. -/
def enqueue (q : Queues ι α) (fuel : Nat) (i : ι) (t : α) : Option (Bool × Queues ι α) :=
  (q.contains fuel i t).map fun found => if found = true then (false, q) else (true, q.append i t)

def dequeue (q : Queues ι α) (i : ι) : Option α × Queues ι α :=
  match q.head i with
  | none => (none, q)
  | some t =>
    (some t,
      { next := fun u => if u = t then none else q.next u
        head := fun j => if j = i then q.next t else q.head j
        tail := fun j => if j = i ∧ q.next t = none then none else q.tail j })

/-- Takes a node out that follows `previous`. -/
def unlink (q : Queues ι α) (i : ι) (previous : Option α) (t : α) : Queues ι α :=
  { next := fun u => if u = t then none else if some u = previous then q.next t else q.next u
    head := fun j => if j = i ∧ previous = none then q.next t else q.head j
    tail := fun j => if j = i ∧ q.tail i = some t then previous else q.tail j }

def remove (q : Queues ι α) (fuel : Nat) (i : ι) (t : α) : Option (Bool × Queues ι α) :=
  (locate q.next t fuel none (q.head i)).map fun found =>
    match found with
    | none => (false, q)
    | some previous => (true, q.unlink i previous t)

/-- The queues hold these lists of nodes, and no node is on two of them. -/
structure Represents (q : Queues ι α) (lists : ι → List α) : Prop where
  chain : ∀ i, Chain q.next (q.head i) (lists i)
  tail : ∀ i, q.tail i = (lists i).getLast?
  disjoint : ∀ i j t, t ∈ lists i → t ∈ lists j → i = j

variable {q : Queues ι α} {lists : ι → List α} {i : ι} {t : α}

/-- One list replaced. -/
def put (lists : ι → List α) (i : ι) (xs : List α) (j : ι) : List α := if j = i then xs else lists j

omit [DecidableEq ι] [DecidableEq α] in
theorem Represents.nodup (rep : q.Represents lists) (i : ι) : (lists i).Nodup := (rep.chain i).nodup

omit [DecidableEq ι] in
theorem Represents.contains_eq (rep : q.Represents lists) {fuel : Nat}
    (enough : (lists i).length ≤ fuel) : q.contains fuel i t = some (decide (t ∈ lists i)) :=
  (rep.chain i).find_eq t enough

omit [DecidableEq α] in
/-- A change of the links on one list only. -/
theorem Represents.replace {fresh : Queues ι α} {xs : List α} (rep : q.Represents lists)
    (links : ∀ u, u ∉ lists i → u ≠ t → fresh.next u = q.next u)
    (heads : ∀ j, j ≠ i → fresh.head j = q.head j) (tails : ∀ j, j ≠ i → fresh.tail j = q.tail j)
    (free : ∀ j, j ≠ i → t ∉ lists j) (members : ∀ u ∈ xs, u ∈ lists i ∨ u = t)
    (chain : Chain fresh.next (fresh.head i) xs) (tail : fresh.tail i = xs.getLast?) :
    fresh.Represents (put lists i xs) := by
  have other : ∀ j u, j ≠ i → u ∈ lists j → u ∉ lists i ∧ u ≠ t := by
    intro j u distinct member
    refine ⟨fun inside => distinct (rep.disjoint j i u member inside), ?_⟩
    rintro rfl
    exact free j distinct member
  refine ⟨?_, ?_, ?_⟩
  · intro j
    by_cases same : j = i
    · subst same
      simpa [put] using chain
    · rw [heads j same]
      simp only [put, if_neg same]
      refine (rep.chain j).congr fun u member => ?_
      exact links u (other j u same member).1 (other j u same member).2
  · intro j
    by_cases same : j = i
    · subst same
      simpa [put] using tail
    · rw [tails j same]
      simpa [put, same] using rep.tail j
  · intro j k u left right
    simp only [put] at left right
    split at left <;> split at right
    · simp_all
    · rename_i first second
      rcases members u left with inside | same
      · exact absurd inside (other k u second right).1
      · exact absurd same (other k u second right).2
    · rename_i first second
      rcases members u right with inside | same
      · exact absurd inside (other j u first left).1
      · exact absurd same (other j u first left).2
    · exact rep.disjoint j k u left right

theorem Represents.append (rep : q.Represents lists) (free : ∀ j, t ∉ lists j) :
    (q.append i t).Represents (put lists i (lists i ++ [t])) := by
  have last := rep.tail i
  cases ends : (lists i).getLast? with
  | none =>
    have empty : lists i = [] := List.getLast?_eq_none_iff.mp ends
    rw [ends] at last
    unfold Queues.append
    simp only [last]
    refine rep.replace (t := t) ?_ ?_ ?_ (fun j _ => free j) (by simp) ?_ ?_
    · intro u _ distinct
      exact if_neg distinct
    · intro j distinct
      exact if_neg distinct
    · intro j distinct
      exact if_neg distinct
    · simp [empty]
    · simp
  | some final =>
    rw [ends] at last
    unfold Queues.append
    simp only [last]
    have member : final ∈ lists i := List.mem_of_getLast? ends
    have distinct : t ≠ final := fun same => free i (same ▸ member)
    have nonempty : lists i ≠ [] := List.ne_nil_of_mem member
    refine rep.replace (t := t) ?_ (fun j _ => rfl) ?_ (fun j _ => free j) (by simp) ?_ ?_
    · intro u outside different
      dsimp only
      rw [if_neg (ne_of_mem_of_not_mem member outside).symm, if_neg different]
    · intro j different
      exact if_neg different
    · have whole : Chain q.next (q.head i) (lists i ++ []) := by simpa using rep.chain i
      have new : Chain (fun u => if u = final then some t else if u = t then none else q.next u)
          (some t) [t] := by simp [distinct]
      have spliced := Chain.splice whole new ?_ ?_
      · simpa [nonempty] using spliced
      · intro u inside notLast
        rw [ends] at notLast
        have notFinal : u ≠ final := fun same => notLast (same ▸ rfl)
        rw [if_neg notFinal, if_neg (ne_of_mem_of_not_mem inside (free i))]
      · intro u isLast
        rw [ends] at isLast
        rw [if_pos (Option.some.inj isLast).symm]
    · simp

theorem Represents.dequeue_nil (rep : q.Represents lists) (empty : lists i = []) :
    q.dequeue i = (none, q) := by
  have head := (rep.chain i).head_eq
  rw [empty] at head
  unfold Queues.dequeue
  rw [head]
  rfl

theorem Represents.dequeue_cons {rest : List α} (rep : q.Represents lists)
    (first : lists i = t :: rest) :
    (q.dequeue i).1 = some t ∧ (q.dequeue i).2.Represents (put lists i rest) := by
  have chain := rep.chain i
  rw [first] at chain
  have fresh : t ∉ rest := (List.nodup_cons.mp (Chain.nodup chain)).1
  unfold Queues.dequeue
  rw [chain.1]
  refine ⟨rfl, ?_⟩
  refine rep.replace (t := t) ?_ ?_ ?_ ?_ ?_ ?_ ?_
  · intro u _ distinct
    exact if_neg distinct
  · intro j distinct
    exact if_neg distinct
  · intro j distinct
    exact if_neg fun both => distinct both.1
  · intro j distinct inside
    exact distinct (rep.disjoint j i t inside (by simp [first]))
  · intro u inside
    exact Or.inl (by simp [first, inside])
  · simp only [if_true]
    refine chain.2.congr fun u inside => if_neg ?_
    rintro rfl
    exact fresh inside
  · have tail := rep.tail i
    rw [first] at tail
    have head := chain.2.head_eq
    cases rest with
    | nil => simp [head]
    | cons y others => simp [head, tail]

theorem Represents.unlink {front back : List α} (rep : q.Represents lists)
    (split : lists i = front ++ t :: back) :
    (q.unlink i front.getLast? t).Represents (put lists i (front ++ back)) := by
  have chain := rep.chain i
  rw [split] at chain
  have nodup := Chain.nodup chain
  have apart : t ∉ front ∧ t ∉ back := by
    rw [List.nodup_append, List.nodup_cons] at nodup
    exact ⟨fun inside => nodup.2.2 t inside t List.mem_cons_self rfl, nodup.2.1.1⟩
  have disjoint : ∀ u ∈ back, u ∉ front := by
    rw [List.nodup_append] at nodup
    exact fun u right left => nodup.2.2 u left u (List.mem_cons_of_mem t right) rfl
  have tail := rep.tail i
  rw [split] at tail
  unfold Queues.unlink
  refine rep.replace (t := t) ?_ ?_ ?_ ?_ ?_ ?_ ?_
  · intro u outside distinct
    dsimp only
    rw [if_neg distinct, if_neg]
    intro isLast
    exact outside (by simp [split, List.mem_of_getLast? isLast.symm])
  · intro j distinct
    exact if_neg fun both => distinct both.1
  · intro j distinct
    exact if_neg fun both => distinct both.1
  · intro j distinct inside
    exact distinct (rep.disjoint j i t inside (by simp [split]))
  · intro u inside
    rcases List.mem_append.mp inside with left | right
    · simp [split, left]
    · simp [split, right]
  · have rest : Chain (fun u => if u = t then none else if some u = front.getLast? then q.next t
        else q.next u) (q.next t) back := by
      refine (Chain.suffix chain).congr fun u inside => ?_
      rw [if_neg (ne_of_mem_of_not_mem inside apart.2), if_neg]
      intro isLast
      exact disjoint u inside (List.mem_of_getLast? isLast.symm)
    have spliced := Chain.splice chain rest ?_ ?_
    · simpa using spliced
    · intro u inside notLast
      rw [if_neg (ne_of_mem_of_not_mem inside apart.1), if_neg (Ne.symm notLast)]
    · intro u isLast
      rw [if_neg (ne_of_mem_of_not_mem (List.mem_of_getLast? isLast) apart.1), if_pos isLast.symm]
  · cases back with
    | nil => simp [tail]
    | cons y others =>
      have different : (y :: others).getLast? ≠ some t := by
        intro isLast
        exact apart.2 (List.mem_of_getLast? isLast)
      simp_all

theorem Represents.enqueue_eq (rep : q.Represents lists) {fuel : Nat}
    (enough : (lists i).length ≤ fuel) : q.enqueue fuel i t =
      some (if t ∈ lists i then (false, q) else (true, q.append i t)) := by
  unfold Queues.enqueue
  rw [rep.contains_eq enough]
  simp

theorem Represents.remove_eq (rep : q.Represents lists) {fuel : Nat}
    (enough : (lists i).length ≤ fuel) : ∃ fresh, q.remove fuel i t =
      some (decide (t ∈ lists i), fresh) ∧ fresh.Represents (put lists i ((lists i).erase t)) := by
  unfold Queues.remove
  rcases (rep.chain i).locate_eq t none enough with
    ⟨missing, result⟩ | ⟨front, back, split, first, result⟩
  · have same : put lists i ((lists i).erase t) = lists := by
      funext j
      by_cases here : j = i <;> simp [put, here, List.erase_of_not_mem missing]
    exact ⟨q, by simp [result, missing], by rwa [same]⟩
  · have rest : (lists i).erase t = front ++ back := by
      rw [split, List.erase_append_right _ first, List.erase_cons_head]
    exact ⟨q.unlink i front.getLast? t, by simp [result, split], rest ▸ rep.unlink split⟩

end Queues

end Intrusive
