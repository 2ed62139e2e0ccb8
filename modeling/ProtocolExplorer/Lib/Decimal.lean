import Mathlib

/-!
# Fixed-point decimals

A `Decimal scale` is an integer number of units of `10 ^ (-scale)`: the values of a
`NUMERIC(p, scale)` column.  Sums and differences are exact; a rational is stored by
rounding half away from zero, the rule of the numeric type.

* `ofRat_toRat` — what is representable is stored unchanged;
* `ofRat_listSum` — storing term by term agrees with storing the total as long as
  every term is representable.  Without that side condition the two differ, which is
  why incremental and one-shot totals of rounded values may disagree.
-/

set_option autoImplicit false

namespace ProtocolExplorer.Lib

/-- Integer multiples of `10 ^ (-scale)`. -/
@[ext] structure Decimal (scale : ℕ) where
  units : ℤ
  deriving DecidableEq, Repr

namespace Decimal

variable {scale : ℕ}

instance : Zero (Decimal scale) := ⟨⟨0⟩⟩
instance : Add (Decimal scale) := ⟨fun a b => ⟨a.units + b.units⟩⟩
instance : Neg (Decimal scale) := ⟨fun a => ⟨-a.units⟩⟩
instance : Sub (Decimal scale) := ⟨fun a b => ⟨a.units - b.units⟩⟩
instance : SMul ℕ (Decimal scale) := ⟨fun n a => ⟨n • a.units⟩⟩
instance : SMul ℤ (Decimal scale) := ⟨fun n a => ⟨n • a.units⟩⟩

theorem units_injective : Function.Injective (units : Decimal scale → ℤ) :=
  fun _ _ same => Decimal.ext same

instance : AddCommGroup (Decimal scale) :=
  units_injective.addCommGroup units rfl (fun _ _ => rfl) (fun _ => rfl) (fun _ _ => rfl)
    (fun _ _ => rfl) (fun _ _ => rfl)

instance : LinearOrder (Decimal scale) := LinearOrder.lift' units units_injective

@[simp] theorem units_zero : (0 : Decimal scale).units = 0 := rfl

@[simp] theorem units_add (a b : Decimal scale) : (a + b).units = a.units + b.units := rfl

@[simp] theorem units_sub (a b : Decimal scale) : (a - b).units = a.units - b.units := rfl

/-! ## Rational values and rounding -/

/-- The rational a decimal denotes. -/
def toRat (d : Decimal scale) : ℚ := d.units / 10 ^ scale

/-- Round to the nearest integer, halves away from zero. -/
def roundHalfAway (q : ℚ) : ℤ :=
  if 0 ≤ q then ⌊q + 1 / 2⌋ else -⌊-q + 1 / 2⌋

/-- Store a rational in a column of this scale. -/
def ofRat (q : ℚ) : Decimal scale := ⟨roundHalfAway (q * 10 ^ scale)⟩

/-- The rationals a column of this scale holds exactly. -/
def Representable (scale : ℕ) (q : ℚ) : Prop := ∃ d : Decimal scale, d.toRat = q

@[simp] theorem toRat_zero : (0 : Decimal scale).toRat = 0 := by
  simp [toRat]

@[simp] theorem toRat_add (a b : Decimal scale) : (a + b).toRat = a.toRat + b.toRat := by
  simp [toRat, add_div]

theorem roundHalfAway_intCast (n : ℤ) : roundHalfAway n = n := by
  have half : ⌊(1 / 2 : ℚ)⌋ = 0 := by norm_num [Int.floor_eq_iff]
  unfold roundHalfAway
  split
  · rw [add_comm, Int.floor_add_intCast, half, zero_add]
  · have cast : -(n : ℚ) + 1 / 2 = 1 / 2 + ((-n : ℤ) : ℚ) := by push_cast; ring
    rw [cast, Int.floor_add_intCast, half, zero_add, neg_neg]

/-- A representable value is stored unchanged. -/
@[simp] theorem ofRat_toRat (d : Decimal scale) : ofRat d.toRat = d := by
  have scaled : d.toRat * 10 ^ scale = (d.units : ℚ) := by
    unfold toRat
    field_simp
  exact Decimal.ext (by rw [ofRat, scaled, roundHalfAway_intCast])

/-- Storing term by term agrees with storing the total of representable terms. -/
theorem ofRat_listSum {terms : List ℚ} (exact_terms : ∀ q ∈ terms, Representable scale q) :
    (terms.map fun q => (ofRat q : Decimal scale)).sum = ofRat terms.sum := by
  have total : ((terms.map fun q => (ofRat q : Decimal scale)).sum).toRat = terms.sum := by
    induction terms with
    | nil => simp
    | cons q rest inductionHypothesis =>
        obtain ⟨d, denotes⟩ := exact_terms q (List.mem_cons_self ..)
        have tail := inductionHypothesis
          (fun r member => exact_terms r (List.mem_cons_of_mem _ member))
        rw [List.map_cons, List.sum_cons, List.sum_cons, toRat_add, tail, ← denotes,
          ofRat_toRat]
  rw [← total, ofRat_toRat]

end Decimal

end ProtocolExplorer.Lib
