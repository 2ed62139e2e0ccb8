import ProtocolExplorer.Lib.Decimal
import ProtocolExplorer.Lib.DecimalText

/-!
# Decimal fractions as text

A numeral is a sign, digits with an optional fraction and an optional exponent.  There are many
numerals of one number: `1500`, `1500.00` and `1.5E+3`.

* `mem_numeral` — the characters of a numeral;
* `readNumeral_intText`, `readNumeral_decimalText` — **the plain numerals of an integer and of a
  fixed-point number denote them**.
-/

set_option autoImplicit false

namespace ProtocolExplorer.Lib

/-! ## Reading -/

/-- Digits with an optional fraction. -/
def readFixed (text : List Char) : Option ℚ :=
  match splitOnce '.' text with
  | none => (parseNat text).map fun n : ℕ => (n : ℚ)
  | some (whole, fraction) =>
      (parseNat (whole ++ fraction)).map fun n : ℕ => (n : ℚ) / 10 ^ fraction.length

def readMantissa : List Char → Option ℚ
  | '-' :: text => (readFixed text).map fun q => -q
  | '+' :: text => readFixed text
  | text => readFixed text

/-- The number a numeral denotes. -/
def readNumeral (text : List Char) : Option ℚ :=
  match splitOnce 'E' text with
  | none => readMantissa text
  | some (mantissa, exponent) =>
      (readMantissa mantissa).bind fun m => (parseSigned exponent).map fun e => m * 10 ^ e

/-- The characters of numerals. -/
def IsNumeralChar (c : Char) : Prop := c.isDigit = true ∨ c ∈ ['-', '+', '.', 'E']

instance (c : Char) : Decidable (IsNumeralChar c) := inferInstanceAs (Decidable (_ ∨ _))

theorem splitOnce_eq_some {separator : Char} {text first rest : List Char}
    (split : splitOnce separator text = some (first, rest)) :
    text = first ++ separator :: rest := by
  unfold splitOnce at split
  split_ifs at split with member
  obtain ⟨rfl, rfl⟩ := Prod.mk.inj (Option.some.inj split)
  have stops : text.dropWhile (· ≠ separator) ≠ [] := by
    rw [ne_eq, List.dropWhile_eq_nil_iff]
    intro passes
    exact absurd (passes separator member) (by simp)
  have head := List.head_dropWhile_not (· ≠ separator) stops
  have here : (text.dropWhile (· ≠ separator)).head stops = separator := by simpa using head
  have parts := List.cons_head_tail stops
  rw [here] at parts
  rw [parts]
  exact List.takeWhile_append_dropWhile.symm

theorem isDigit_of_parseNat {text : List Char} {n : ℕ} (read : parseNat text = some n) :
    ∀ c ∈ text, c.isDigit = true := by
  unfold parseNat at read
  split_ifs at read with digits
  exact List.all_eq_true.mp digits.2

theorem mem_fixed {text : List Char} {q : ℚ} (read : readFixed text = some q) :
    ∀ c ∈ text, IsNumeralChar c := by
  intro c member
  unfold readFixed at read
  split at read
  · obtain ⟨n, parsed, _⟩ := Option.map_eq_some_iff.mp read
    exact Or.inl (isDigit_of_parseNat parsed c member)
  · next whole fraction split =>
      obtain ⟨n, parsed, _⟩ := Option.map_eq_some_iff.mp read
      have digits := isDigit_of_parseNat parsed
      rw [splitOnce_eq_some split] at member
      rcases List.mem_append.mp member with before | after
      · exact Or.inl (digits c (List.mem_append_left _ before))
      · rcases List.mem_cons.mp after with rfl | behind
        · exact Or.inr (by simp)
        · exact Or.inl (digits c (List.mem_append_right _ behind))

theorem mem_mantissa {text : List Char} {q : ℚ} (read : readMantissa text = some q) :
    ∀ c ∈ text, IsNumeralChar c := by
  intro c member
  cases text using readMantissa.fun_cases with
  | case1 digits =>
      obtain ⟨r, unsigned, _⟩ := Option.map_eq_some_iff.mp read
      rcases List.mem_cons.mp member with rfl | behind
      · exact Or.inr (by simp)
      · exact mem_fixed unsigned c behind
  | case2 digits =>
      rcases List.mem_cons.mp member with rfl | behind
      · exact Or.inr (by simp)
      · exact mem_fixed read c behind
  | case3 text noMinus noPlus =>
      rw [readMantissa.eq_3 text noMinus noPlus] at read
      exact mem_fixed read c member

theorem mem_signed {text : List Char} {z : ℤ} (read : parseSigned text = some z) :
    ∀ c ∈ text, IsNumeralChar c := by
  intro c member
  cases text using parseSigned.fun_cases with
  | case1 digits =>
      obtain ⟨n, parsed, _⟩ := Option.map_eq_some_iff.mp read
      rcases List.mem_cons.mp member with rfl | behind
      · exact Or.inr (by simp)
      · exact Or.inl (isDigit_of_parseNat parsed c behind)
  | case2 digits =>
      obtain ⟨n, parsed, _⟩ := Option.map_eq_some_iff.mp read
      rcases List.mem_cons.mp member with rfl | behind
      · exact Or.inr (by simp)
      · exact Or.inl (isDigit_of_parseNat parsed c behind)
  | case3 text noMinus noPlus =>
      rw [parseSigned.eq_3 text noMinus noPlus] at read
      obtain ⟨n, parsed, _⟩ := Option.map_eq_some_iff.mp read
      exact Or.inl (isDigit_of_parseNat parsed c member)

/-- **Nothing but digits, signs, a point and an `E` is in a numeral.** -/
theorem mem_numeral {text : List Char} {q : ℚ} (read : readNumeral text = some q) :
    ∀ c ∈ text, IsNumeralChar c := by
  intro c member
  unfold readNumeral at read
  split at read
  · exact mem_mantissa read c member
  · next mantissa exponent split =>
      obtain ⟨m, mantissaRead, rest⟩ := Option.bind_eq_some_iff.mp read
      obtain ⟨e, exponentRead, _⟩ := Option.map_eq_some_iff.mp rest
      rw [splitOnce_eq_some split] at member
      rcases List.mem_append.mp member with before | after
      · exact mem_mantissa mantissaRead c before
      · rcases List.mem_cons.mp after with rfl | behind
        · exact Or.inr (by simp)
        · exact mem_signed exponentRead c behind

/-! ## Writing -/

theorem splitOnce_eq_none {separator : Char} {text : List Char} (absent : separator ∉ text) :
    splitOnce separator text = none := if_neg absent

/-- Digits without a sign are read as they are. -/
theorem readMantissa_of_digit {c : Char} {text : List Char} (digit : c.isDigit = true) :
    readMantissa (c :: text) = readFixed (c :: text) := by
  refine readMantissa.eq_3 _ ?_ ?_
  all_goals
    rintro rest same
    obtain ⟨rfl, _⟩ := List.cons.inj same
    exact absurd digit (by decide)

theorem readMantissa_natText (n : ℕ) : readMantissa (natText n) = some (n : ℚ) := by
  have noPoint : '.' ∉ natText n := fun member => absurd (isDigit_of_mem_natText member) (by decide)
  have whole : readFixed (natText n) = some (n : ℚ) := by
    unfold readFixed
    rw [splitOnce_eq_none noPoint, parseNat_natText]
    rfl
  obtain ⟨c, rest, written⟩ := List.exists_cons_of_ne_nil (natText_ne_nil n)
  have digit : c.isDigit = true :=
    isDigit_of_mem_natText (n := n) (written ▸ List.mem_cons_self ..)
  rw [written] at whole ⊢
  rw [readMantissa_of_digit digit, whole]

theorem readNumeral_intText (z : ℤ) : readNumeral (intText z) = some (z : ℚ) := by
  unfold readNumeral
  rw [splitOnce_eq_none (notMem_intText (by decide) (by decide))]
  cases z with
  | ofNat n => exact readMantissa_natText n
  | negSucc n =>
      have whole := readMantissa_natText (n + 1)
      obtain ⟨c, rest, written⟩ := List.exists_cons_of_ne_nil (natText_ne_nil (n + 1))
      have digit : c.isDigit = true :=
        isDigit_of_mem_natText (n := n + 1) (written ▸ List.mem_cons_self ..)
      rw [written, readMantissa_of_digit digit] at whole
      simp only [intText, written, readMantissa, whole, Option.map_some]
      push_cast
      ring_nf

/-- A number without its trailing zeros: `normalized`. -/
def stripZeros (units : ℕ) : ℕ → ℕ × ℕ
  | 0 => (units, 0)
  | scale + 1 => if 10 ∣ units then stripZeros (units / 10) scale else (units, scale + 1)

/-- The digits of a number, at least so many. -/
def paddedText (width n : ℕ) : List Char :=
  List.replicate (width - (natText n).length) '0' ++ natText n

/-- A number of units of `10 ^ (-scale)`, with a point only where a fraction is left. -/
def fixedText (units scale : ℕ) : List Char :=
  let (n, places) := stripZeros units scale
  if places = 0 then natText n
  else
    let digits := paddedText (places + 1) n
    digits.take (digits.length - places) ++ '.' :: digits.drop (digits.length - places)

/-- The plain numeral of a fixed-point number. -/
def decimalText {scale : ℕ} (d : Decimal scale) : List Char :=
  match d.units with
  | .ofNat units => fixedText units scale
  | .negSucc units => '-' :: fixedText (units + 1) scale

/-- A number of units of `10 ^ (-scale)` as a `NUMERIC` is printed, with all its places. -/
def numericText (scale : ℕ) (units : ℤ) : String :=
  let digits := paddedText (scale + 1) units.natAbs
  String.ofList ((if units < 0 then ['-'] else []) ++ digits.take (digits.length - scale) ++
    '.' :: digits.drop (digits.length - scale))

theorem stripZeros_value (units scale : ℕ) :
    ((stripZeros units scale).1 : ℚ) / 10 ^ (stripZeros units scale).2 =
      (units : ℚ) / 10 ^ scale := by
  induction scale generalizing units with
  | zero => rfl
  | succ scale inductionHypothesis =>
      unfold stripZeros
      split_ifs with divides
      · obtain ⟨tenth, rfl⟩ := divides
        rw [inductionHypothesis, Nat.mul_div_cancel_left tenth (by norm_num), pow_succ]
        push_cast
        field_simp
      · rfl

theorem isDigit_of_mem_paddedText {width n : ℕ} {c : Char} (member : c ∈ paddedText width n) :
    c.isDigit = true := by
  rcases List.mem_append.mp member with zero | digit
  · rw [List.eq_of_mem_replicate zero]
    decide
  · exact isDigit_of_mem_natText digit

theorem parseNat_paddedText (width n : ℕ) : parseNat (paddedText width n) = some n := by
  have digits : (paddedText width n).all Char.isDigit = true :=
    List.all_eq_true.mpr fun _ => isDigit_of_mem_paddedText
  have nonempty : paddedText width n ≠ [] := by
    intro nothing
    exact natText_ne_nil n (List.append_eq_nil_iff.mp nothing).2
  rw [parseNat, if_pos ⟨nonempty, digits⟩, paddedText, Nat.ofDigitChars_append,
    Nat.ofDigitChars_replicate_zero, Nat.mul_zero]
  exact congrArg some Nat.ofDigitChars_ten_toDigits

theorem lt_length_paddedText (places n : ℕ) : places < (paddedText (places + 1) n).length := by
  rw [paddedText, List.length_append, List.length_replicate]
  omega

theorem readFixed_fixedText (units scale : ℕ) :
    readFixed (fixedText units scale) = some ((units : ℚ) / 10 ^ scale) := by
  rw [← stripZeros_value]
  unfold fixedText
  generalize stripZeros units scale = stripped
  obtain ⟨n, places⟩ := stripped
  simp only
  split_ifs with whole
  · subst whole
    have noPoint : '.' ∉ natText n :=
      fun member => absurd (isDigit_of_mem_natText member) (by decide)
    unfold readFixed
    rw [splitOnce_eq_none noPoint, parseNat_natText, pow_zero, div_one]
    rfl
  · have long := lt_length_paddedText places n
    have noPoint : '.' ∉ (paddedText (places + 1) n).take
        ((paddedText (places + 1) n).length - places) :=
      fun member => absurd (isDigit_of_mem_paddedText (List.mem_of_mem_take member)) (by decide)
    have fractionLength : ((paddedText (places + 1) n).drop
        ((paddedText (places + 1) n).length - places)).length = places := by
      rw [List.length_drop]
      omega
    unfold readFixed
    rw [splitOnce_append noPoint]
    simp only
    rw [List.take_append_drop, parseNat_paddedText, fractionLength, Option.map_some]

/-- A fixed-point text is digits, with a point after the first at the earliest. -/
theorem fixedText_chars (units scale : ℕ) :
    (∃ c rest, fixedText units scale = c :: rest ∧ c.isDigit = true) ∧
      ∀ c ∈ fixedText units scale, c.isDigit = true ∨ c = '.' := by
  unfold fixedText
  generalize stripZeros units scale = stripped
  obtain ⟨n, places⟩ := stripped
  simp only
  split_ifs
  · obtain ⟨c, rest, written⟩ := List.exists_cons_of_ne_nil (natText_ne_nil n)
    exact ⟨⟨c, rest, written, isDigit_of_mem_natText (n := n) (written ▸ List.mem_cons_self ..)⟩,
      fun c member => Or.inl (isDigit_of_mem_natText member)⟩
  · have long := lt_length_paddedText places n
    have nonempty : (paddedText (places + 1) n).take
        ((paddedText (places + 1) n).length - places) ≠ [] := by
      intro nothing
      have none_ := congrArg List.length nothing
      rw [List.length_take, List.length_nil] at none_
      omega
    obtain ⟨c, rest, written⟩ := List.exists_cons_of_ne_nil nonempty
    have first : c.isDigit = true :=
      isDigit_of_mem_paddedText (List.mem_of_mem_take (written ▸ List.mem_cons_self ..))
    refine ⟨⟨c, _, by rw [written, List.cons_append], first⟩, ?_⟩
    intro c member
    rcases List.mem_append.mp member with before | after
    · exact Or.inl (isDigit_of_mem_paddedText (List.mem_of_mem_take before))
    · rcases List.mem_cons.mp after with rfl | behind
      · exact Or.inr rfl
      · exact Or.inl (isDigit_of_mem_paddedText (List.mem_of_mem_drop behind))

theorem readMantissa_fixedText (units scale : ℕ) :
    readMantissa (fixedText units scale) = some ((units : ℚ) / 10 ^ scale) := by
  obtain ⟨⟨c, rest, written, digit⟩, _⟩ := fixedText_chars units scale
  rw [← readFixed_fixedText, written, readMantissa_of_digit digit]

/-- **The plain numeral of a fixed-point number denotes it.** -/
theorem readNumeral_decimalText {scale : ℕ} (d : Decimal scale) :
    readNumeral (decimalText d) = some d.toRat := by
  have noExponent : ∀ units, 'E' ∉ fixedText units scale := by
    intro units member
    rcases (fixedText_chars units scale).2 'E' member with digit | point
    · exact absurd digit (by decide)
    · exact absurd point (by decide)
  obtain ⟨units⟩ := d
  unfold readNumeral decimalText
  cases units with
  | ofNat units =>
      simp only
      rw [splitOnce_eq_none (noExponent units)]
      exact readMantissa_fixedText units scale
  | negSucc units =>
      have absent : 'E' ∉ '-' :: fixedText (units + 1) scale := by
        intro member
        rcases List.mem_cons.mp member with minus | inside
        · exact absurd minus (by decide)
        · exact noExponent _ inside
      simp only
      rw [splitOnce_eq_none absent]
      simp only [readMantissa, readFixed_fixedText, Option.map_some, Decimal.toRat]
      push_cast
      ring_nf

end ProtocolExplorer.Lib
