import ProtocolExplorer.Lib.Decimal

/-!
# Columns of limited precision

A `NUMERIC(precision, scale)` column rounds to its scale and then refuses a value with more than
`precision` digits.  Quotients come from a decimal library of a certain number of digits.

* `fits_ofRat_iff` — what is stored fits exactly below the bound by half a unit;
* `foldlM_guarded_ok` — a sequence of guarded writes completes exactly if every guard holds;
* `quotient_of_digits` — a quotient with few enough digits is exact.
-/

set_option autoImplicit false

namespace ProtocolExplorer.Lib

namespace Decimal

variable {scale : ℕ}

/-- At most so many digits. -/
def Fits (precision : ℕ) (d : Decimal scale) : Prop := d.units.natAbs < 10 ^ precision

instance (precision : ℕ) (d : Decimal scale) : Decidable (d.Fits precision) :=
  inferInstanceAs (Decidable (_ < _))

theorem fits_natCast {precision n : ℕ} :
    (⟨(n : ℤ)⟩ : Decimal scale).Fits precision ↔ n < 10 ^ precision := by
  rw [Fits, Int.natAbs_natCast]

theorem fits_zero (precision : ℕ) : (0 : Decimal scale).Fits precision :=
  Nat.pos_of_ne_zero (pow_ne_zero precision (by decide))

/-- Halves away from zero, a non-negative value fits exactly below the bound by half a unit. -/
theorem fits_ofRat {precision : ℕ} {q : ℚ} (nonneg : 0 ≤ q) :
    (ofRat q : Decimal scale).Fits precision ↔ q * 10 ^ scale + 1 / 2 < 10 ^ precision := by
  have scaled : 0 ≤ q * 10 ^ scale := mul_nonneg nonneg (by positivity)
  have floor : 0 ≤ ⌊q * 10 ^ scale + 1 / 2⌋ := Int.floor_nonneg.mpr (by positivity)
  unfold Fits ofRat roundHalfAway
  simp only
  rw [if_pos scaled, ← Int.ofNat_lt, Int.natAbs_of_nonneg floor, Int.floor_lt]
  push_cast
  rfl

theorem roundHalfAway_neg (q : ℚ) : roundHalfAway (-q) = -roundHalfAway q := by
  have half : ⌊(1 / 2 : ℚ)⌋ = 0 := by norm_num [Int.floor_eq_iff]
  unfold roundHalfAway
  rcases lt_trichotomy q 0 with negative | rfl | positive
  · rw [if_pos (by linarith), if_neg (by linarith), neg_neg]
  · simp only [neg_zero, le_refl, if_true, zero_add, half]
  · rw [if_neg (by linarith), if_pos positive.le, neg_neg]

/-- The same on either side of zero. -/
theorem fits_ofRat_iff {precision : ℕ} {q : ℚ} :
    (ofRat q : Decimal scale).Fits precision ↔ |q| * 10 ^ scale + 1 / 2 < 10 ^ precision := by
  rcases le_total 0 q with nonneg | nonpos
  · rw [abs_of_nonneg nonneg, fits_ofRat nonneg]
  · have mirrored : (ofRat q : Decimal scale).units = -(ofRat (-q) : Decimal scale).units := by
      rw [ofRat, ofRat, neg_mul, roundHalfAway_neg, neg_neg]
    have same : (ofRat q : Decimal scale).Fits precision ↔
        (ofRat (-q) : Decimal scale).Fits precision := by
      rw [Fits, Fits, mirrored, Int.natAbs_neg]
    rw [same, abs_of_nonpos nonpos, fits_ofRat (by linarith)]

end Decimal

/-! ## Guarded writes -/

/-- A write that is refused with an error unless its guard holds. -/
def guardedWrite {ε σ : Type*} (error : ε) (guard : Prop) [Decidable guard] (write : σ → σ)
    (s : σ) : Except ε σ :=
  if guard then .ok (write s) else .error error

/-- Guarded writes in a row complete exactly if every guard holds, with the plain result. -/
theorem foldlM_guarded_ok {ε σ α : Type*} (error : ε) (guard : α → Prop) [DecidablePred guard]
    (write : α → σ → σ) (xs : List α) (s s' : σ) :
    xs.foldlM (fun s x => guardedWrite error (guard x) (write x) s) s = .ok s' ↔
      (∀ x ∈ xs, guard x) ∧ xs.foldl (fun s x => write x s) s = s' := by
  induction xs generalizing s with
  | nil =>
      simp only [List.foldlM_nil, List.foldl_nil, List.not_mem_nil, false_implies, implies_true,
        true_and, pure, Except.pure, Except.ok.injEq]
  | cons x rest inductionHypothesis =>
      rw [List.foldlM_cons, List.foldl_cons, List.forall_mem_cons]
      unfold guardedWrite
      by_cases holds : guard x
      · rw [if_pos holds]
        exact (inductionHypothesis (write x s)).trans (by simp only [holds, true_and])
      · rw [if_neg holds]
        simp only [holds, false_and, bind, Except.bind, reduceCtorEq]

/-! ## Quotients -/

/-- A quotient of at most so many significant digits is exact. -/
def ExactQuotients (digits : ℕ) (quotient : ℚ → ℚ → ℚ) : Prop :=
  ∀ a b : ℚ, b ≠ 0 → (∃ (m : ℤ) (k : ℕ), m.natAbs < 10 ^ digits ∧ a / b = m / 10 ^ k) →
    quotient a b = a / b

/-- Dividing an integer by a power of ten loses nothing. -/
theorem quotient_of_digits {digits : ℕ} {quotient : ℚ → ℚ → ℚ}
    (precise : ExactQuotients digits quotient) {n : ℕ} (short : n < 10 ^ digits) (k : ℕ) :
    quotient n (10 ^ k) = n / 10 ^ k :=
  precise n (10 ^ k) (by positivity) ⟨n, k, by simpa using short, by simp⟩

theorem exactQuotients_div (digits : ℕ) : ExactQuotients digits (· / ·) :=
  fun _ _ _ _ => rfl

end ProtocolExplorer.Lib
