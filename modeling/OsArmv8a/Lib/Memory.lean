import Mathlib

set_option autoImplicit false

/-- Byte `k` of a word, counting from the low end. -/
def wordByte (w : BitVec 64) (k : Nat) : BitVec 8 := w.extractLsb' (8 * k) 8

def setWordByte (w : BitVec 64) (k : Nat) (b : BitVec 8) : BitVec 64 :=
  (w &&& ~~~((BitVec.allOnes 8).setWidth 64 <<< (8 * k))) ||| (b.setWidth 64 <<< (8 * k))

theorem getLsbD_setWordByte (w : BitVec 64) (k : Nat) (b : BitVec 8) {i : Nat} (small : i < 64) :
    (setWordByte w k b).getLsbD i =
      if 8 * k ≤ i ∧ i < 8 * k + 8 then b.getLsbD (i - 8 * k) else w.getLsbD i := by
  unfold setWordByte
  simp only [BitVec.getLsbD_or, BitVec.getLsbD_and, BitVec.getLsbD_not, BitVec.getLsbD_shiftLeft,
    BitVec.getLsbD_setWidth, BitVec.getLsbD_allOnes]
  by_cases inside : 8 * k ≤ i ∧ i < 8 * k + 8
  · have offset : i - 8 * k < 8 := by omega
    have wide : i - 8 * k < 64 := by omega
    have notLow : ¬ i < 8 * k := by omega
    simp [inside, offset, wide, notLow, small]
  · by_cases low : i < 8 * k
    · simp [inside, low, small]
    · have offset : ¬ i - 8 * k < 8 := by omega
      have zero : b.getLsbD (i - 8 * k) = false := BitVec.getLsbD_of_ge b _ (by omega)
      simp [inside, offset, low, small, zero]

theorem wordByte_set_same (w : BitVec 64) {k : Nat} (b : BitVec 8) (small : k < 8) :
    wordByte (setWordByte w k b) k = b := by
  apply BitVec.eq_of_getLsbD_eq
  intro i below
  unfold wordByte
  rw [BitVec.getLsbD_extractLsb', getLsbD_setWordByte _ _ _ (by omega), if_pos (by omega)]
  simp [below]

theorem wordByte_set_other (w : BitVec 64) {k j : Nat} (b : BitVec 8) (small : j < 8)
    (other : j ≠ k) : wordByte (setWordByte w k b) j = wordByte w j := by
  apply BitVec.eq_of_getLsbD_eq
  intro i below
  unfold wordByte
  rw [BitVec.getLsbD_extractLsb', BitVec.getLsbD_extractLsb',
    getLsbD_setWordByte _ _ _ (by omega), if_neg (by omega)]

/-- Memory as the 64-bit words at its addresses; word addresses are multiples of eight. -/
abbrev Mem := Nat → BitVec 64

namespace Mem

def set (m : Mem) (address : Nat) (word : BitVec 64) : Mem :=
  fun a => if a = address then word else m a

/-- Clears every word of `[base, base + bytes)`. -/
def zero (m : Mem) (base bytes : Nat) : Mem :=
  fun a => if base ≤ a ∧ a < base + bytes then 0 else m a

@[simp] theorem set_same (m : Mem) (address : Nat) (word : BitVec 64) :
    m.set address word address = word := if_pos rfl

variable {a : Nat}

theorem set_other (m : Mem) {address : Nat} (word : BitVec 64) (other : a ≠ address) :
    m.set address word a = m a := if_neg other

theorem set_set (m : Mem) (address : Nat) (word other : BitVec 64) :
    (m.set address word).set address other = m.set address other := by
  funext a
  by_cases same : a = address
  · rw [same, set_same, set_same]
  · rw [set_other _ _ same, set_other _ _ same, set_other _ _ same]

variable {base bytes : Nat}

theorem zero_inside (m : Mem) (lower : base ≤ a) (upper : a < base + bytes) :
    m.zero base bytes a = 0 := if_pos ⟨lower, upper⟩

theorem zero_outside (m : Mem) (outside : a < base ∨ base + bytes ≤ a) :
    m.zero base bytes a = m a := if_neg (by omega)

/-- The byte at an address, inside the word that holds it. -/
def byte (m : Mem) (a : Nat) : BitVec 8 := wordByte (m (8 * (a / 8))) (a % 8)

def setByte (m : Mem) (a : Nat) (b : BitVec 8) : Mem :=
  m.set (8 * (a / 8)) (setWordByte (m (8 * (a / 8))) (a % 8) b)

/-- Fills bytes upwards from `dst`, one at a time; `source` is read as memory stands then. -/
def fillBytes (m : Mem) (dst : Nat) (source : Mem → Nat → BitVec 8) : Nat → Mem
  | 0 => m
  | count + 1 =>
    let m' := fillBytes m dst source count
    m'.setByte (dst + count) (source m' count)

/-- Copies `count` bytes upwards. -/
def copyBytes (m : Mem) (dst src count : Nat) : Mem :=
  m.fillBytes dst (fun m' k => m'.byte (src + k)) count

/-- Stores bytes one after the other. -/
def storeBytes : Mem → Nat → List (BitVec 8) → Mem
  | m, _, [] => m
  | m, a, b :: rest => storeBytes (m.setByte a b) (a + 1) rest

theorem byte_setByte_same (m : Mem) (a : Nat) (b : BitVec 8) : (m.setByte a b).byte a = b := by
  unfold byte setByte
  rw [set_same]
  exact wordByte_set_same _ _ (Nat.mod_lt _ (by omega))

variable {other : Nat}

theorem byte_setByte_other (m : Mem) (b : BitVec 8) (apart : other ≠ a) :
    (m.setByte a b).byte other = m.byte other := by
  unfold byte setByte
  by_cases word : other / 8 = a / 8
  · rw [word, set_same]
    exact wordByte_set_other _ _ (Nat.mod_lt _ (by omega)) (by omega)
  · rw [set_other _ _ (by omega)]

theorem setByte_outside (m : Mem) (b : BitVec 8) (outside : other < 8 * (a / 8) ∨ a < other) :
    m.setByte a b other = m other :=
  set_other _ _ (by omega)

theorem fillBytes_outside (m : Mem) {dst : Nat} (source : Mem → Nat → BitVec 8) (count : Nat)
    (outside : other < 8 * (dst / 8) ∨ dst + count ≤ other) :
    m.fillBytes dst source count other = m other := by
  induction count with
  | zero => rfl
  | succ count ih =>
    unfold fillBytes
    rw [setByte_outside _ _ (by omega)]
    exact ih (by omega)

theorem storeBytes_outside {bytes : List (BitVec 8)} : ∀ {m : Mem} {a other : Nat},
    other < 8 * (a / 8) ∨ a + bytes.length ≤ other → m.storeBytes a bytes other = m other := by
  induction bytes with
  | nil => intro m a other _; rfl
  | cons b rest ih =>
    intro m a other outside
    simp only [List.length_cons] at outside
    unfold storeBytes
    rw [ih (by omega), setByte_outside _ _ (by omega)]

theorem byte_congr {m fresh : Mem} (same : fresh (8 * (a / 8)) = m (8 * (a / 8))) :
    fresh.byte a = m.byte a := by
  unfold byte
  rw [same]

theorem byte_fillBytes_outside (m : Mem) {dst : Nat} (source : Mem → Nat → BitVec 8) (count : Nat)
    (outside : other < dst ∨ dst + count ≤ other) :
    (m.fillBytes dst source count).byte other = m.byte other := by
  induction count with
  | zero => rfl
  | succ count ih =>
    unfold fillBytes
    rw [byte_setByte_other _ _ (by omega)]
    exact ih (by omega)

theorem byte_storeBytes_outside {bytes : List (BitVec 8)} : ∀ {m : Mem} {a other : Nat},
    other < a ∨ a + bytes.length ≤ other → (m.storeBytes a bytes).byte other = m.byte other := by
  induction bytes with
  | nil => intro m a other _; rfl
  | cons b rest ih =>
    intro m a other outside
    simp only [List.length_cons] at outside
    unfold storeBytes
    rw [ih (by omega), byte_setByte_other _ _ (by omega)]

theorem byte_storeBytes {bytes : List (BitVec 8)} : ∀ {m : Mem} {a k : Nat},
    k < bytes.length → some ((m.storeBytes a bytes).byte (a + k)) = bytes[k]? := by
  induction bytes with
  | nil => intro m a k inside; cases inside
  | cons b rest ih =>
    intro m a k inside
    unfold storeBytes
    cases k with
    | zero =>
      rw [byte_storeBytes_outside (by omega), Nat.add_zero, byte_setByte_same]
      rfl
    | succ k =>
      rw [List.getElem?_cons_succ, show a + (k + 1) = a + 1 + k by omega]
      exact ih (Nat.lt_of_succ_lt_succ inside)

/-- A filled byte is what the source was when its turn came. -/
theorem byte_fillBytes (m : Mem) (dst : Nat) (source : Mem → Nat → BitVec 8) {count k : Nat}
    (inside : k < count) :
    (m.fillBytes dst source count).byte (dst + k) = source (m.fillBytes dst source k) k := by
  induction count with
  | zero => omega
  | succ count ih =>
    show ((m.fillBytes dst source count).setByte (dst + count) _).byte (dst + k) = _
    by_cases last : k = count
    · rw [last, byte_setByte_same]
    · rw [byte_setByte_other _ _ (by omega)]
      exact ih (by omega)

theorem byte_zero (m : Mem) (lower : base ≤ 8 * (a / 8)) (upper : 8 * (a / 8) < base + bytes) :
    (m.zero base bytes).byte a = 0#8 := by
  unfold byte
  rw [zero_inside m lower upper]
  simp [wordByte]

end Mem
