import OsArmv8a.Lib.Word64

/-! The numbers of shell commands: `shell_parse_ulong` of `shell.c`, over the bytes of a string in
front of its terminating NUL. -/

set_option autoImplicit false

namespace OsArmv8a.Shell

/-- The digit a character stands for; letters are digits in base 16 only. -/
def digitValue (base : Nat) (ch : UInt8) : Option Nat :=
  if 48 ≤ ch ∧ ch ≤ 57 then some (ch.toNat - 48)
  else if base = 16 ∧ 97 ≤ ch ∧ ch ≤ 102 then some (10 + (ch.toNat - 97))
  else if base = 16 ∧ 65 ≤ ch ∧ ch ≤ 70 then some (10 + (ch.toNat - 65))
  else none

/-- The loop; `none` is `return 0`. -/
def parseDigits (base : Nat) : List UInt8 → Nat → Bool → Option Nat
  | [], result, seenDigit => if seenDigit = true then some result else none
  | ch :: text, result, _ =>
    match digitValue base ch with
    | none => none
    | some digit => parseDigits base text (Word64.add (Word64.mul result base) digit) true

/-- The base, and the text after a prefix `0x` or `0X`. -/
def splitBase (text : List UInt8) : Nat × List UInt8 :=
  if text[0]? = some 48 ∧ (text[1]? = some 120 ∨ text[1]? = some 88) then (16, text.drop 2)
  else (10, text)

/-- `shell_parse_ulong`: the result and `*value` afterwards, where `none` is a null pointer. -/
def shellParseUlong : Option (List UInt8) → Option Nat → Bool × Option Nat
  | some text, some value =>
    match parseDigits (splitBase text).1 (splitBase text).2 0 false with
    | none => (false, some value)
    | some result => (true, some result)
  | _, value => (false, value)

/-- A non-empty sequence of decimal digits, or `0x` or `0X` and a non-empty sequence of hexadecimal
ones, with its value. -/
def Numeral (text : List UInt8) (n : Nat) : Prop :=
  ∃ base digits values, (base = 10 ∧ text = digits ∨
      base = 16 ∧ (text = 48 :: 120 :: digits ∨ text = 48 :: 88 :: digits)) ∧
    digits ≠ [] ∧ digits.mapM (digitValue base) = some values ∧ n = Nat.ofDigits base values.reverse

/-- The numerals that fit are accepted with their values, and nothing else is. -/
def Exact (text : List UInt8) : Prop :=
  ∀ value,
    ((shellParseUlong (some text) (some value)).1 = true ↔ ∃ n, Numeral text n ∧ n < 2 ^ 64) ∧
    (∀ n, Numeral text n → n < 2 ^ 64 → (shellParseUlong (some text) (some value)).2 = some n) ∧
    ((shellParseUlong (some text) (some value)).1 = false →
      (shellParseUlong (some text) (some value)).2 = some value)

variable {text : List UInt8} {n : Nat}

/-- The loop computes by Horner's rule, modulo `2^64`. -/
theorem parseDigits_eq (base : Nat) (text : List UInt8) : ∀ (n : Nat) (seenDigit : Bool),
    parseDigits base text (n % 2 ^ 64) seenDigit =
      (text.mapM (digitValue base)).bind fun values =>
        if seenDigit = true ∨ text ≠ [] then
          some (values.foldl (fun n digit => digit + base * n) n % 2 ^ 64)
        else none := by
  induction text with
  | nil =>
    intro n seenDigit
    cases seenDigit with
    | false => rfl
    | true => rfl
  | cons ch text ih =>
    intro n seenDigit
    have next : ∀ digit, Word64.add (Word64.mul (n % 2 ^ 64) base) digit =
        (digit + base * n) % 2 ^ 64 := by
      intro digit
      rw [Word64.add, Word64.mul, Nat.mod_mul_mod, Nat.mod_add_mod, Nat.add_comm, Nat.mul_comm]
    rw [List.mapM_cons, parseDigits]
    cases digitValue base ch with
    | none => rfl
    | some digit =>
      dsimp only
      rw [next, ih]
      cases text.mapM (digitValue base) with
      | none => rfl
      | some values => simp

/-- The letter of the prefix is no decimal digit. -/
theorem numeral_iff : Numeral text n ↔ (splitBase text).2 ≠ [] ∧ ∃ values,
    (splitBase text).2.mapM (digitValue (splitBase text).1) = some values ∧
      n = Nat.ofDigits (splitBase text).1 values.reverse := by
  constructor
  · rintro ⟨base, digits, values, ⟨rfl, rfl⟩ | ⟨rfl, rfl | rfl⟩, nonempty, mapped, value⟩
    · have plain : splitBase text = (10, text) := by
        refine if_neg ?_
        rintro ⟨zero, letter⟩
        match text, nonempty with
        | first :: second :: rest, _ =>
          have decimal : digitValue 10 second = none := by
            rcases letter with letter | letter <;> cases letter <;> rfl
          simp [decimal] at mapped
      rw [plain]
      exact ⟨nonempty, values, mapped, value⟩
    · exact ⟨nonempty, values, mapped, value⟩
    · exact ⟨nonempty, values, mapped, value⟩
  · rintro ⟨nonempty, values, mapped, value⟩
    refine ⟨_, _, values, ?_, nonempty, mapped, value⟩
    unfold splitBase
    split
    · rename_i prefixed
      match text, prefixed with
      | first :: second :: rest, ⟨zero, letter⟩ =>
        cases zero
        rcases letter with letter | letter <;> cases letter <;> simp
    · exact Or.inl ⟨rfl, rfl⟩

/-- The code accepts every numeral, and stores its value modulo `2^64`. -/
theorem shellParseUlong_cases (text : List UInt8) (value : Nat) :
    (∃ n, Numeral text n ∧ (∀ m, Numeral text m → m = n) ∧
      shellParseUlong (some text) (some value) = (true, some (n % 2 ^ 64))) ∨
    (∀ n, ¬ Numeral text n) ∧ shellParseUlong (some text) (some value) = (false, some value) := by
  have parsed := parseDigits_eq (splitBase text).1 (splitBase text).2 0 false
  simp only [numeral_iff]
  rw [shellParseUlong]
  rw [Nat.zero_mod] at parsed
  rw [parsed]
  cases mapped : (splitBase text).2.mapM (digitValue (splitBase text).1) with
  | none => exact Or.inr ⟨fun n => by simp, rfl⟩
  | some values =>
    rw [Option.bind_some]
    by_cases nonempty : (splitBase text).2 ≠ []
    · rw [if_pos (Or.inr nonempty)]
      have folded : Nat.ofDigits (splitBase text).1 values.reverse =
          values.foldl (fun n digit => digit + (splitBase text).1 * n) 0 := by
        rw [Nat.ofDigits_eq_foldr, List.foldr_reverse]
        rfl
      refine Or.inl ⟨_, ⟨nonempty, values, rfl, rfl⟩, ?_, by rw [folded]⟩
      rintro m ⟨-, others, same, rfl⟩
      cases same
      rfl
    · rw [if_neg (by simp [nonempty])]
      exact Or.inr ⟨fun n numeral => nonempty numeral.1, rfl⟩

/-- A number is parsed as it should be exactly if it is not a numeral of `2^64` or more. -/
theorem shellParseUlong_exact (text : List UInt8) :
    Exact text ↔ ∀ n, Numeral text n → n < 2 ^ 64 := by
  constructor
  · intro exact n numeral
    rcases shellParseUlong_cases text 0 with ⟨m, -, unique, result⟩ | ⟨none, -⟩
    · have accepted := (exact 0).1.mp (by rw [result])
      obtain ⟨small, fits, bound⟩ := accepted
      rw [unique n numeral, ← unique small fits]
      exact bound
    · exact absurd numeral (none n)
  · intro fits value
    rcases shellParseUlong_cases text value with ⟨m, numeral, unique, result⟩ | ⟨none, result⟩
    · rw [result, Nat.mod_eq_of_lt (fits m numeral)]
      refine ⟨iff_of_true rfl ⟨m, numeral, fits m numeral⟩, fun n other _ => ?_, nofun⟩
      rw [unique n other]
    · rw [result]
      refine ⟨iff_of_false nofun fun ⟨n, numeral, _⟩ => none n numeral, ?_, fun _ => rfl⟩
      exact fun n numeral => absurd numeral (none n)

/-- `18446744073709551616` is `2^64`: it is accepted as 0. -/
theorem shellParseUlong_wrapped :
    shellParseUlong (some [49, 56, 52, 52, 54, 55, 52, 52, 48, 55, 51, 55, 48, 57, 53, 53, 49, 54, 49,
      54]) (some 7) = (true, some 0) ∧
    ¬ Exact [49, 56, 52, 52, 54, 55, 52, 52, 48, 55, 51, 55, 48, 57, 53, 53, 49, 54, 49, 54] := by
  have accepted : shellParseUlong (some [49, 56, 52, 52, 54, 55, 52, 52, 48, 55, 51, 55, 48, 57, 53,
      53, 49, 54, 49, 54]) (some 7) = (true, some 0) := by
    decide +kernel
  refine ⟨accepted, fun exact => ?_⟩
  obtain ⟨n, numeral, small⟩ := (exact 7).1.mp (by rw [accepted])
  have value := (exact 7).2.1 n numeral small
  rw [accepted] at value
  cases value
  obtain ⟨-, values, mapped, zero⟩ := numeral_iff.mp numeral
  have digits : values = [1, 8, 4, 4, 6, 7, 4, 4, 0, 7, 3, 7, 0, 9, 5, 5, 1, 6, 1, 6] :=
    Option.some.inj (mapped.symm.trans (by decide +kernel))
  rw [digits] at zero
  exact absurd zero (by decide +kernel)

end OsArmv8a.Shell
