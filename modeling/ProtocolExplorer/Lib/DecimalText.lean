import Mathlib

/-!
# Numbers as decimal text

Integers are written in decimal with a minus sign and read back within the range of a signed
machine integer; digits alone are never another sign.

* `parseNat_natText`, `parseInt_intText` — **what is written is read back**;
* `splitOnce_append` — a text is split at the first separator.
-/

set_option autoImplicit false

namespace ProtocolExplorer.Lib

/-! ## Natural numbers -/

def natText (n : ℕ) : List Char := Nat.toDigits 10 n

/-- Digits, at least one. -/
def parseNat (text : List Char) : Option ℕ :=
  if text ≠ [] ∧ text.all Char.isDigit then some (Nat.ofDigitChars 10 text 0) else none

theorem isDigit_of_mem_natText {n : ℕ} {c : Char} (member : c ∈ natText n) : c.isDigit = true :=
  Nat.isDigit_of_mem_toDigits (by decide) (by decide) member

theorem natText_ne_nil (n : ℕ) : natText n ≠ [] := Nat.toDigits_ne_nil

theorem parseNat_natText (n : ℕ) : parseNat (natText n) = some n := by
  have digits : (natText n).all Char.isDigit = true :=
    List.all_eq_true.mpr fun _ => isDigit_of_mem_natText
  rw [parseNat, if_pos ⟨natText_ne_nil n, digits⟩]
  exact congrArg some Nat.ofDigitChars_ten_toDigits

/-! ## Integers -/

def intText : ℤ → List Char
  | .ofNat n => natText n
  | .negSucc n => '-' :: natText (n + 1)

/-- The range of a signed integer of so many bits. -/
def FitsInt (bits : ℕ) (z : ℤ) : Prop := -2 ^ (bits - 1) ≤ z ∧ z < 2 ^ (bits - 1)

instance (bits : ℕ) (z : ℤ) : Decidable (FitsInt bits z) :=
  inferInstanceAs (Decidable (_ ∧ _))

theorem FitsInt.mono {bits more : ℕ} {z : ℤ} (fits : FitsInt bits z) (wider : bits ≤ more) :
    FitsInt more z := by
  have powers : (2 : ℤ) ^ (bits - 1) ≤ 2 ^ (more - 1) :=
    pow_le_pow_right₀ (by decide) (Nat.sub_le_sub_right wider 1)
  exact ⟨le_trans (neg_le_neg powers) fits.1, lt_of_lt_of_le fits.2 powers⟩

/-- Digits after an optional sign. -/
def parseSigned : List Char → Option ℤ
  | '-' :: digits => (parseNat digits).map fun n : ℕ => -(n : ℤ)
  | '+' :: digits => (parseNat digits).map fun n : ℕ => (n : ℤ)
  | digits => (parseNat digits).map fun n : ℕ => (n : ℤ)

/-- `from_str` of a signed integer. -/
def parseInt (bits : ℕ) (text : List Char) : Option ℤ :=
  (parseSigned text).filter fun z => FitsInt bits z

theorem parseSigned_natText (n : ℕ) : parseSigned (natText n) = some (n : ℤ) := by
  have unsigned : ∀ c ∈ natText n, c ≠ '-' ∧ c ≠ '+' := by
    intro c member
    have digit := isDigit_of_mem_natText member
    constructor <;> rintro rfl <;> exact absurd digit (by decide)
  have read := parseNat_natText n
  unfold parseSigned
  split
  · next digits same => exact absurd rfl (unsigned '-' (same ▸ List.mem_cons_self ..)).1
  · next digits same => exact absurd rfl (unsigned '+' (same ▸ List.mem_cons_self ..)).2
  · rw [read]
    rfl

theorem parseSigned_intText (z : ℤ) : parseSigned (intText z) = some z := by
  cases z with
  | ofNat n => exact parseSigned_natText n
  | negSucc n =>
      rw [intText, parseSigned, parseNat_natText]
      rfl

theorem parseInt_intText {bits : ℕ} {z : ℤ} (fits : FitsInt bits z) :
    parseInt bits (intText z) = some z := by
  rw [parseInt, parseSigned_intText, Option.filter_some, if_pos (decide_eq_true fits)]

/-- Only digits and a minus sign are written. -/
theorem notMem_intText {z : ℤ} {c : Char} (notDigit : c.isDigit = false) (notMinus : c ≠ '-') :
    c ∉ intText z := by
  cases z with
  | ofNat n =>
      intro member
      exact absurd (isDigit_of_mem_natText member) (by simp [notDigit])
  | negSucc n =>
      intro member
      rcases List.mem_cons.mp member with minus | digit
      · exact notMinus minus
      · exact absurd (isDigit_of_mem_natText digit) (by simp [notDigit])

/-! ## Splitting -/

/-- `split_once`. -/
def splitOnce (separator : Char) (text : List Char) : Option (List Char × List Char) :=
  if separator ∈ text then
    some (text.takeWhile (· ≠ separator), (text.dropWhile (· ≠ separator)).tail)
  else none

theorem splitOnce_append {separator : Char} {first : List Char} (absent : separator ∉ first)
    (rest : List Char) : splitOnce separator (first ++ separator :: rest) = some (first, rest) := by
  have passes : ∀ c ∈ first, decide (c ≠ separator) = true := by
    intro c member
    exact decide_eq_true fun same => absent (same ▸ member)
  rw [splitOnce, if_pos (List.mem_append_right _ (List.mem_cons_self ..)),
    List.takeWhile_append_of_pos passes, List.dropWhile_append_of_pos passes]
  simp

end ProtocolExplorer.Lib
