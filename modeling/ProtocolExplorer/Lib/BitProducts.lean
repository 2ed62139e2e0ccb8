import Mathlib.Data.Nat.Bitwise
import Mathlib.Tactic.Ring

/-!
# Products over the bits of a number

A power with a fixed base is read off a table: one factor for each bit that is set, multiplied in
from the lowest bit up and rounded down to the scale after every multiplication.  Rounding could
undo the order of two neighbouring powers.  A table is `Separated` when every factor is below the
product of all lower ones, by more than one part in `parts`; that is a condition on the table
alone, one comparison for each of its factors.

* `foldl_masks_eq` — a loop that tests one mask after the other computes such a product;
* `bitProduct_le` — factors below the scale never leave it;
* `bitProduct_succ_le` — products of a separated table do not grow with the exponent;
* `bitProduct_succ_gap` — **neighbouring products keep the gap of the table**, but for one unit a
  factor.
-/

set_option autoImplicit false

namespace ProtocolExplorer.Lib

variable {scale : ℕ}

/-- Multiply a ratio by the factor of every set bit of a number, rounding down each time. -/
def bitProduct (scale : ℕ) : List ℕ → ℕ → ℕ → ℕ
  | [], _, ratio => ratio
  | factor :: factors, n, ratio =>
      bitProduct scale factors (n / 2) (if n % 2 = 1 then ratio * factor / scale else ratio)

/-! ## The loop over the masks -/

/-- A mask of one bit tests it. -/
theorem and_two_pow_ne_zero (n i : ℕ) : n &&& 2 ^ i ≠ 0 ↔ n / 2 ^ i % 2 = 1 := by
  rw [Nat.and_two_pow, ← Nat.toNat_testBit]
  cases n.testBit i <;> simp

/-- **A loop that tests the masks one after the other computes the product of the bits.** -/
theorem foldl_masks_eq (scale n : ℕ) : ∀ (factors : List ℕ) (lowest ratio : ℕ),
    ((factors.zipIdx lowest).map fun entry => (2 ^ entry.2, entry.1)).foldl
        (fun ratio step => if n &&& step.1 ≠ 0 then ratio * step.2 / scale else ratio) ratio =
      bitProduct scale factors (n / 2 ^ lowest) ratio
  | [], _, _ => rfl
  | factor :: factors, lowest, ratio => by
      rw [List.zipIdx_cons, List.map_cons, List.foldl_cons,
        foldl_masks_eq scale n factors (lowest + 1), bitProduct, Nat.div_div_eq_div_mul,
        ← pow_succ]
      simp only [and_two_pow_ne_zero]

/-! ## Bounds -/

theorem mul_div_le_of_le {ratio factor : ℕ} (small : factor ≤ scale) :
    ratio * factor / scale ≤ ratio := by
  refine Nat.div_le_of_le_mul ?_
  rw [mul_comm scale]
  exact Nat.mul_le_mul_left ratio small

theorem bitProduct_le : ∀ {factors : List ℕ} (_ : ∀ factor ∈ factors, factor ≤ scale)
    (n ratio : ℕ), bitProduct scale factors n ratio ≤ ratio
  | [], _, _, ratio => le_refl ratio
  | factor :: factors, small, n, ratio => by
      refine (bitProduct_le (fun later member => small later (List.mem_cons_of_mem _ member)) _
        _).trans ?_
      split
      · exact mul_div_le_of_le (small factor (List.mem_cons_self ..))
      · exact le_refl ratio

theorem bitProduct_mono : ∀ (factors : List ℕ) (n : ℕ) {lower upper : ℕ}, lower ≤ upper →
    bitProduct scale factors n lower ≤ bitProduct scale factors n upper
  | [], _, _, _, ordered => ordered
  | factor :: factors, n, lower, upper, ordered => by
      refine bitProduct_mono factors (n / 2) ?_
      split
      · exact Nat.div_le_div_right (Nat.mul_le_mul_right factor ordered)
      · exact ordered

/-! ## Gaps -/

/-- A multiplication keeps a gap, but for the unit that rounding may cost. -/
theorem gap_mul_div {parts lower upper lost factor : ℕ} (small : factor ≤ scale)
    (positive : 0 < scale) (gap : (parts + 1) * lower ≤ parts * (upper + lost)) :
    (parts + 1) * (lower * factor / scale) ≤ parts * (upper * factor / scale + (lost + 1)) := by
  have below : scale * (lower * factor / scale) ≤ lower * factor := Nat.mul_div_le _ _
  have above : upper * factor < scale * (upper * factor / scale + 1) :=
    Nat.lt_mul_div_succ _ positive
  refine Nat.le_of_mul_le_mul_left ?_ positive
  calc scale * ((parts + 1) * (lower * factor / scale))
      = (parts + 1) * (scale * (lower * factor / scale)) := by ring
    _ ≤ (parts + 1) * (lower * factor) := Nat.mul_le_mul_left _ below
    _ = (parts + 1) * lower * factor := by ring
    _ ≤ parts * (upper + lost) * factor := Nat.mul_le_mul_right _ gap
    _ = parts * (upper * factor + lost * factor) := by ring
    _ ≤ parts * (scale * (upper * factor / scale + 1) + lost * scale) :=
        Nat.mul_le_mul_left _ (Nat.add_le_add above.le (Nat.mul_le_mul_left _ small))
    _ = scale * (parts * (upper * factor / scale + (lost + 1))) := by ring

/-- The product of the same bits keeps the gap of two ratios, but for one unit a factor. -/
theorem bitProduct_gap {parts : ℕ} (positive : 0 < scale) : ∀ {factors : List ℕ}
    (_ : ∀ factor ∈ factors, factor ≤ scale) (n : ℕ) {lower upper lost : ℕ},
    (parts + 1) * lower ≤ parts * (upper + lost) →
      (parts + 1) * bitProduct scale factors n lower ≤
        parts * (bitProduct scale factors n upper + (lost + factors.length))
  | [], _, _, _, _, _, gap => gap
  | factor :: factors, small, n, lower, upper, lost, gap => by
      have rest := fun later member => small later (List.mem_cons_of_mem factor member)
      unfold bitProduct
      split
      · have step := bitProduct_gap positive rest (n / 2)
          (gap_mul_div (small factor (List.mem_cons_self ..)) positive gap)
        rwa [Nat.add_right_comm lost 1, Nat.add_assoc lost] at step
      · refine (bitProduct_gap positive rest (n / 2) gap).trans (Nat.mul_le_mul_left parts ?_)
        rw [List.length_cons]
        omega

/-! ## Separated tables -/

/-- Every factor is below the product of all lower ones by more than one part in `parts`; the
first is compared with `ratio`. -/
def Separated (scale parts : ℕ) : List ℕ → ℕ → Prop
  | [], _ => True
  | factor :: factors, ratio =>
      (parts + 1) * factor ≤ parts * ratio ∧ Separated scale parts factors (ratio * factor / scale)

instance decidableSeparated (scale parts : ℕ) : ∀ (factors : List ℕ) (ratio : ℕ),
    Decidable (Separated scale parts factors ratio)
  | [], _ => inferInstanceAs (Decidable True)
  | factor :: factors, ratio =>
      have := decidableSeparated scale parts factors (ratio * factor / scale)
      inferInstanceAs (Decidable (_ ∧ _))

section Successor

variable {parts : ℕ} {factors : List ℕ}

/-- Where two neighbouring exponents part: at the lowest clear bit of the smaller one its product
so far meets the factor of that bit, and all higher bits agree. -/
theorem exists_parting (positive : 0 < scale) : ∀ {factors : List ℕ} {n ratio : ℕ},
    Separated scale parts factors ratio → n + 1 < 2 ^ factors.length →
      ∃ higher factor low rest, higher <:+ factors ∧ (parts + 1) * factor ≤ parts * low ∧
        bitProduct scale factors n ratio = bitProduct scale higher rest low ∧
        bitProduct scale factors (n + 1) scale = bitProduct scale higher rest factor
  | [], n, _, _, inside => by simp at inside
  | factor :: factors, n, ratio, separated, inside => by
      rcases Nat.even_or_odd' n with ⟨half, rfl | rfl⟩
      · refine ⟨factors, factor, ratio, half, List.suffix_cons .., separated.1, ?_, ?_⟩
        · simp [bitProduct]
        · have quotient : (2 * half + 1) / 2 = half := by omega
          have odd : (2 * half + 1) % 2 = 1 := by omega
          simp [bitProduct, quotient, odd, positive]
      · -- the carry goes on to the next bit
        have shorter : half + 1 < 2 ^ factors.length := by
          rw [List.length_cons, pow_succ] at inside
          omega
        obtain ⟨higher, parting, low, rest, suffix, apart, lower, upper⟩ :=
          exists_parting positive separated.2 shorter
        refine ⟨higher, parting, low, rest, suffix.trans (List.suffix_cons ..), apart, ?_, ?_⟩
        · have quotient : (2 * half + 1) / 2 = half := by omega
          have odd : (2 * half + 1) % 2 = 1 := by omega
          rw [← lower, bitProduct, quotient, if_pos odd]
        · have quotient : (2 * half + 1 + 1) / 2 = half + 1 := by omega
          have even : ¬ (2 * half + 1 + 1) % 2 = 1 := by omega
          rw [← upper, bitProduct, quotient, if_neg even]

/-- **Products of a separated table do not grow with the exponent.** -/
theorem bitProduct_succ_le {n : ℕ} (positive : 0 < scale)
    (separated : Separated scale parts factors scale) (inside : n + 1 < 2 ^ factors.length) :
    bitProduct scale factors (n + 1) scale ≤ bitProduct scale factors n scale := by
  obtain ⟨higher, factor, low, rest, -, apart, lower, upper⟩ :=
    exists_parting positive separated inside
  rw [lower, upper]
  refine bitProduct_mono higher rest ?_
  cases parts with
  | zero => omega
  | succ parts =>
      refine Nat.le_of_mul_le_mul_left (apart.trans' ?_) parts.succ_pos
      exact Nat.mul_le_mul_right factor (Nat.le_succ _)

/-- **Neighbouring products keep the gap of the table**, but for one unit a factor. -/
theorem bitProduct_succ_gap {n : ℕ} (positive : 0 < scale)
    (small : ∀ factor ∈ factors, factor ≤ scale)
    (separated : Separated scale parts factors scale) (inside : n + 1 < 2 ^ factors.length) :
    (parts + 1) * bitProduct scale factors (n + 1) scale ≤
      parts * (bitProduct scale factors n scale + factors.length) := by
  obtain ⟨higher, factor, low, rest, suffix, apart, lower, upper⟩ :=
    exists_parting positive separated inside
  rw [lower, upper]
  have nothingLost : (parts + 1) * factor ≤ parts * (low + 0) := apart
  refine (bitProduct_gap positive (fun later member => small later (suffix.subset member)) rest
    nothingLost).trans (Nat.mul_le_mul_left parts ?_)
  have := suffix.length_le
  omega

theorem bitProduct_antitone {n m : ℕ} (positive : 0 < scale)
    (separated : Separated scale parts factors scale) (ordered : n ≤ m)
    (inside : m < 2 ^ factors.length) :
    bitProduct scale factors m scale ≤ bitProduct scale factors n scale := by
  induction m, ordered using Nat.le_induction with
  | base => exact le_refl _
  | succ m _ inductionHypothesis =>
      exact (bitProduct_succ_le positive separated inside).trans (inductionHypothesis (by omega))

end Successor

end ProtocolExplorer.Lib
