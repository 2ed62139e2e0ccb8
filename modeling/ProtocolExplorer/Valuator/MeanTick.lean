import ProtocolExplorer.Lib.DecimalText
import ProtocolExplorer.Valuator.LptPricing

/-!
# The mean tick in machine integers

The cumulatives of a pool are read through their decimal text as 128-bit integers.  Their difference
is divided by the seconds of the window, the quotient is cast to 64 bits and then converted to the
32 bits of a tick.  Subtraction, division and correction panic where a result leaves its width.

* `checkedMeanTick_eq` — cumulatives of 56 bits reach no panic and lose nothing in the cast;
* `le_ediv_of_sum`, `ediv_le_of_sum` — a floored mean lies between the bounds of its summands;
* `meanTick_exact` — **the mean tick is the floor of the quotient, is converted or refused, and
  lies between the bounds of the ticks of the window**.
-/

set_option autoImplicit false

namespace ProtocolExplorer.Valuator

open ProtocolExplorer.Lib

/-! ## Machine integers -/

/-- The result of an operation on `i128`, `none` at a panic. -/
def checkedI128 (z : ℤ) : Option ℤ := if FitsInt 128 z then some z else none

/-- `as i64`. -/
def asI64 (z : ℤ) : ℤ := z.bmod (2 ^ 64)

theorem checkedI128_of_fits {z : ℤ} (fits : FitsInt 128 z) : checkedI128 z = some z := if_pos fits

theorem asI64_of_fits {z : ℤ} (fits : FitsInt 64 z) : asI64 z = z := by
  have range : -2 ^ 63 ≤ z ∧ z < 2 ^ 63 := fits
  exact Int.bmod_eq_of_le (by norm_num; exact range.1) (by norm_num; exact range.2)

/-! ## The tick -/

/-- The cumulatives of a decoded `observe`, in `decode_observe_outcome`. -/
def decodeTickCumulatives : List ℤ → Except String (Option PoolObservation)
  | first :: second :: _ =>
      match parseInt 128 (intText first) with
      | none => .error "tickCumulative[0]"
      | some cumulativeThen =>
          match parseInt 128 (intText second) with
          | none => .error "tickCumulative[1]"
          | some cumulativeNow => .ok (some ⟨cumulativeThen, cumulativeNow⟩)
  | _ => .ok none

/-- `uniswap_arithmetic_mean_tick`, `none` at a panic. -/
def checkedMeanTick (delta seconds : ℤ) : Option ℤ :=
  if seconds = 0 then none
  else do
    let quotient ← checkedI128 (delta.tdiv seconds)
    let quotient ←
      if delta < 0 ∧ delta.tmod seconds ≠ 0 then checkedI128 (quotient - 1) else some quotient
    return asI64 quotient

/-- `i32::try_from`, with its context. -/
def tickOfMean (avgTick : ℤ) : Except String ℤ :=
  if isI32 avgTick then .ok avgTick else .error "avg_tick out of i32 range"

/-- The tick whose ratio prices the window, `none` at a panic. -/
def windowTick (twap : PoolObservation) (seconds : ℤ) : Option (Except String ℤ) := do
  let delta ← checkedI128 (twap.cumulativeNow - twap.cumulativeThen)
  let avgTick ← checkedMeanTick delta seconds
  return tickOfMean avgTick

/-! ## Means -/

section Means

variable {ticks : List ℤ} {bound : ℤ}

/-- A floored mean is not below a lower bound. -/
theorem le_ediv_of_sum (some_ : ticks ≠ []) (below : ∀ tick ∈ ticks, bound ≤ tick) :
    bound ≤ ticks.sum / ticks.length := by
  have positive : (0 : ℤ) < ticks.length := by exact_mod_cast List.length_pos_iff.mpr some_
  have total : ticks.length • bound ≤ ticks.sum := List.card_nsmul_le_sum ticks bound below
  rw [nsmul_eq_mul, mul_comm] at total
  exact (Int.le_ediv_iff_mul_le positive).mpr total

/-- A floored mean is not above an upper bound. -/
theorem ediv_le_of_sum (some_ : ticks ≠ []) (above : ∀ tick ∈ ticks, tick ≤ bound) :
    ticks.sum / ticks.length ≤ bound := by
  have positive : (0 : ℤ) < ticks.length := by exact_mod_cast List.length_pos_iff.mpr some_
  have total : ticks.sum ≤ ticks.length • bound := List.sum_le_card_nsmul ticks bound above
  rw [nsmul_eq_mul, mul_comm] at total
  calc ticks.sum / ticks.length ≤ bound * ticks.length / ticks.length :=
        Int.ediv_le_ediv positive total
    _ = bound := Int.mul_ediv_cancel bound positive.ne'

end Means

/-! ## Cumulatives of 56 bits -/

section Cumulatives

variable {delta seconds : ℤ}

/-- A quotient is no wider than its dividend. -/
theorem fits_ediv {bits : ℕ} (fits : FitsInt bits delta) (positive : 0 < seconds) :
    FitsInt bits (delta / seconds) := by
  have power : (0 : ℤ) < 2 ^ (bits - 1) := by positivity
  constructor
  · refine (Int.le_ediv_iff_mul_le positive).mpr (le_trans ?_ fits.1)
    rw [neg_mul]
    exact neg_le_neg (le_mul_of_one_le_right power.le positive)
  · refine Int.ediv_lt_of_lt_mul positive (lt_of_lt_of_le fits.2 ?_)
    exact le_mul_of_one_le_right power.le positive

/-- The machine computes the mean tick of the mathematical integers. -/
theorem checkedMeanTick_eq (fits : FitsInt 57 delta) (positive : 0 < seconds) :
    checkedMeanTick delta seconds = some (uniswapArithmeticMeanTick delta seconds) := by
  have mean : uniswapArithmeticMeanTick delta seconds = delta / seconds :=
    uniswapArithmeticMeanTick_eq positive
  have range : FitsInt 57 (delta / seconds) := fits_ediv fits positive
  have inI128 : FitsInt 128 (delta / seconds) := range.mono (by decide)
  have inI64 : FitsInt 64 (delta / seconds) := range.mono (by decide)
  unfold uniswapArithmeticMeanTick at mean
  unfold checkedMeanTick uniswapArithmeticMeanTick
  rw [if_neg positive.ne']
  dsimp only at mean ⊢
  split_ifs at mean ⊢ with corrected
  · -- the quotient before the correction is one more than the floor
    have truncated : delta.tdiv seconds = delta / seconds + 1 := by omega
    have above : FitsInt 128 (delta.tdiv seconds) := by
      have wide : -2 ^ 56 ≤ delta / seconds ∧ delta / seconds < 2 ^ 56 := range
      rw [truncated]
      constructor <;> norm_num <;> omega
    simp only [checkedI128_of_fits above, mean, checkedI128_of_fits inI128, asI64_of_fits inI64,
      Option.bind_eq_bind, Option.bind_some, Option.pure_def]
  · simp only [mean, checkedI128_of_fits inI128, asI64_of_fits inI64, Option.bind_eq_bind,
      Option.bind_some, Option.pure_def]

end Cumulatives

/-- **The mean tick of a window.**  Cumulatives of 56 bits are read as they are; for every window
the mean tick is the floor of their difference by its seconds, which the conversion to 32 bits
keeps or refuses; and it lies between any bounds of the ticks that make up the difference. -/
theorem meanTick_exact {cumulativeThen cumulativeNow seconds : ℤ} (rest : List ℤ)
    (int56 : FitsInt 56 cumulativeThen ∧ FitsInt 56 cumulativeNow)
    (window : 0 < seconds ∧ FitsInt 64 seconds) :
    decodeTickCumulatives (cumulativeThen :: cumulativeNow :: rest) =
        .ok (some ⟨cumulativeThen, cumulativeNow⟩) ∧
      checkedI128 (cumulativeNow - cumulativeThen) = some (cumulativeNow - cumulativeThen) ∧
      ∃ avgTick, checkedMeanTick (cumulativeNow - cumulativeThen) seconds = some avgTick ∧
        (avgTick : ℤ) = ⌊((cumulativeNow - cumulativeThen : ℤ) : ℚ) / seconds⌋ ∧
        windowTick ⟨cumulativeThen, cumulativeNow⟩ seconds = some (tickOfMean avgTick) ∧
        (tickOfMean avgTick = .ok avgTick ∧ FitsInt 32 avgTick ∨
          tickOfMean avgTick = .error "avg_tick out of i32 range" ∧ ¬ FitsInt 32 avgTick) ∧
        ∀ ticks : List ℤ, (ticks.length : ℤ) = seconds →
          ticks.sum = cumulativeNow - cumulativeThen → ∀ a b : ℤ,
            (∀ tick ∈ ticks, a ≤ tick ∧ tick ≤ b) → a ≤ avgTick ∧ avgTick ≤ b := by
  obtain ⟨positive, _⟩ := window
  have read : ∀ {c : ℤ}, FitsInt 56 c → parseInt 128 (intText c) = some c := fun fits =>
    parseInt_intText (fits.mono (by decide))
  have fits : FitsInt 57 (cumulativeNow - cumulativeThen) := by
    have first : -2 ^ 55 ≤ cumulativeThen ∧ cumulativeThen < 2 ^ 55 := int56.1
    have second : -2 ^ 55 ≤ cumulativeNow ∧ cumulativeNow < 2 ^ 55 := int56.2
    constructor <;> norm_num <;> omega
  have subtracted := checkedI128_of_fits (fits.mono (by decide : 57 ≤ 128))
  have mean := checkedMeanTick_eq fits positive
  rw [uniswapArithmeticMeanTick_eq positive] at mean
  refine ⟨?_, subtracted, _, mean, ?_, ?_, ?_, ?_⟩
  · simp only [decodeTickCumulatives, read int56.1, read int56.2]
  · obtain ⟨length, rfl⟩ := Int.eq_ofNat_of_zero_le positive.le
    exact (Rat.floor_intCast_div_natCast _ length).symm
  · simp only [windowTick, subtracted, mean, Option.bind_eq_bind, Option.bind_some, Option.pure_def]
  · by_cases narrow : FitsInt 32 ((cumulativeNow - cumulativeThen) / seconds)
    · exact Or.inl ⟨if_pos (decide_eq_true narrow), narrow⟩
    · refine Or.inr ⟨if_neg ?_, narrow⟩
      exact fun accepted => narrow (of_decide_eq_true accepted)
  · rintro ticks rfl total a b between
    have some_ : ticks ≠ [] := by
      rintro rfl
      exact absurd positive (by simp)
    rw [← total]
    exact ⟨le_ediv_of_sum some_ fun tick member => (between tick member).1,
      ediv_le_of_sum some_ fun tick member => (between tick member).2⟩

/-- A falling window of three seconds: the mean is rounded down, not toward zero. -/
theorem meanTick_falling :
    ∃ avgTick, checkedMeanTick (-7 - 0) 3 = some avgTick ∧ avgTick = -3 := by
  obtain ⟨_, _, avgTick, mean, floor, _, _, _⟩ := meanTick_exact []
    (⟨by decide, by decide⟩ : FitsInt 56 0 ∧ FitsInt 56 (-7))
    (⟨by decide, by decide⟩ : 0 < (3 : ℤ) ∧ FitsInt 64 3)
  refine ⟨avgTick, mean, ?_⟩
  rw [floor]
  norm_num

end ProtocolExplorer.Valuator
