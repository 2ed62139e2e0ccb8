import ProtocolExplorer.Lib.BitProducts
import ProtocolExplorer.Valuator.LptPricing

/-!
# The ratio of a tick

`get_sqrt_ratio_at_tick` multiplies in one factor of a table for every set bit of the tick's
absolute value, in 256-bit words that panic where a product leaves them.  For a positive tick the
ratio is inverted, and the result is rounded up to a multiple of `2 ^ (-96)`.  The table is
`Separated`, so two neighbouring ratios differ by more than rounding can hide.

* `getSqrtRatioAtTickChecked_eq` — no panic is reachable;
* `tickRatio_gap`, `inverted_gap` — neighbouring ratios are at least `2 ^ 32` apart;
* `getSqrtRatioAtTick_exact` — **errors, range and order of the ratios**.
-/

set_option autoImplicit false

namespace ProtocolExplorer.Valuator

open ProtocolExplorer.Lib

/-! ## Words of 256 bits -/

/-- `mul_shr_128`: `checked_mul` panics where the product leaves the word. -/
def mulShr128Checked (a b : ℕ) : Option ℕ :=
  if a * b < 2 ^ 256 then some (mulShr128 a b) else none

/-- Division panics on zero. -/
def divChecked (a b : ℕ) : Option ℕ := if b = 0 then none else some (a / b)

def addChecked (a b : ℕ) : Option ℕ := if a + b < 2 ^ 256 then some (a + b) else none

/-- The steps of the table, `none` at a panic. -/
def tickRatioChecked (absTick : ℕ) : Option ℕ :=
  tickMultipliers.foldlM
    (fun ratio step =>
      if absTick &&& step.1 ≠ 0 then mulShr128Checked ratio step.2 else some ratio)
    (if absTick &&& 0x1 ≠ 0 then 0xfffcb933bd6fad37aa2d162d1a594001
    else 0x100000000000000000000000000000000)

/-- `get_sqrt_ratio_at_tick`, `none` at a panic. -/
def getSqrtRatioAtTickChecked (tick : ℤ) : Option (Except String ℕ) :=
  if minTick ≤ tick ∧ tick ≤ maxTick then do
    let ratio ← tickRatioChecked tick.natAbs
    let ratio ← if 0 < tick then divChecked (2 ^ 256 - 1) ratio else some ratio
    let shifted := ratio / 2 ^ 32
    let sqrtPriceX96 ← if ratio % 2 ^ 32 = 0 then some shifted else addChecked shifted 1
    return .ok sqrtPriceX96
  else
    return .error ("tick " ++ toString tick ++ " out of range [" ++ toString minTick ++ ", " ++
      toString maxTick ++ "]")

/-! ## The table -/

/-- The factor of every bit of the tick, the lowest first. -/
def tickFactors : List ℕ := 0xfffcb933bd6fad37aa2d162d1a594001 :: tickMultipliers.map Prod.snd

theorem tickFactors_le : ∀ factor ∈ tickFactors, factor ≤ 2 ^ 128 := by decide

theorem tickMultipliers_eq : tickMultipliers =
    ((tickMultipliers.map Prod.snd).zipIdx 1).map fun entry => (2 ^ entry.2, entry.1) := by
  decide

/-- **Every factor is below the product of all lower ones by more than one part in 20001.** -/
theorem separated_tickFactors : Separated (2 ^ 128) 20001 tickFactors (2 ^ 128) := by
  decide +kernel

/-- **The loop computes the product of the bits**: starting at the lowest factor is multiplying
it into the scale. -/
theorem tickRatio_eq (absTick : ℕ) :
    tickRatio absTick = bitProduct (2 ^ 128) tickFactors absTick (2 ^ 128) := by
  unfold tickRatio mulShr128
  rw [tickMultipliers_eq, foldl_masks_eq, tickFactors, bitProduct, pow_one]
  congr 1
  have lowest := and_two_pow_ne_zero absTick 0
  rw [pow_zero, Nat.div_one] at lowest
  simp only [lowest]
  split <;> norm_num

/-- No multiplication of the table leaves the word. -/
theorem tickRatioChecked_eq (absTick : ℕ) :
    tickRatioChecked absTick = some (tickRatio absTick) := by
  have small : ∀ step ∈ tickMultipliers, step.2 ≤ 2 ^ 128 - 1 := by decide
  unfold tickRatioChecked tickRatio
  generalize tickMultipliers = steps at small
  have initial : (if absTick &&& 0x1 ≠ 0 then 0xfffcb933bd6fad37aa2d162d1a594001
      else 0x100000000000000000000000000000000) ≤ 2 ^ 128 := by
    split <;> decide
  revert initial
  generalize (if absTick &&& 0x1 ≠ 0 then 0xfffcb933bd6fad37aa2d162d1a594001
      else 0x100000000000000000000000000000000) = ratio
  intro bounded
  induction steps generalizing ratio with
  | nil => rfl
  | cons step rest inductionHypothesis =>
      have later := fun entry member => small entry (List.mem_cons_of_mem step member)
      have factor := small step (List.mem_cons_self ..)
      rw [List.foldlM_cons, List.foldl_cons]
      by_cases set : absTick &&& step.1 ≠ 0
      · have fits : ratio * step.2 < 2 ^ 256 := by
          calc ratio * step.2 ≤ 2 ^ 128 * (2 ^ 128 - 1) := Nat.mul_le_mul bounded factor
            _ < 2 ^ 256 := by norm_num
        have shrinks : mulShr128 ratio step.2 ≤ ratio := mul_div_le_of_le (by omega)
        rw [if_pos set, if_pos set, mulShr128Checked, if_pos fits]
        exact inductionHypothesis later _ (shrinks.trans bounded)
      · rw [if_neg set, if_neg set]
        exact inductionHypothesis later _ bounded

/-! ## Ratios inside the range -/

section InRange

variable {n m : ℕ}

theorem lt_two_pow_of_inRange (inRange : n ≤ 887272) : n < 2 ^ tickFactors.length := by
  have width : tickFactors.length = 20 := by decide
  rw [width]
  omega

theorem tickRatio_antitone (ordered : n ≤ m) (inRange : m ≤ 887272) :
    tickRatio m ≤ tickRatio n := by
  rw [tickRatio_eq, tickRatio_eq]
  exact bitProduct_antitone (by positivity) separated_tickFactors ordered
    (lt_two_pow_of_inRange inRange)

theorem tickRatio_zero : tickRatio 0 = 2 ^ 128 := by decide

/-- The smallest ratio. -/
theorem tickRatio_last : tickRatio 887272 = 18447437462383981825 := by decide +kernel

theorem le_tickRatio (inRange : n ≤ 887272) : 18447437462383981825 ≤ tickRatio n :=
  tickRatio_last ▸ tickRatio_antitone inRange (le_refl _)

/-- Neighbouring ratios differ by one part in 40002. -/
theorem tickRatio_part (inRange : n + 1 ≤ 887272) :
    40003 * tickRatio (n + 1) ≤ 40002 * tickRatio n := by
  have gap := bitProduct_succ_gap (by positivity) tickFactors_le separated_tickFactors
    (lt_two_pow_of_inRange inRange)
  rw [← tickRatio_eq, ← tickRatio_eq] at gap
  have width : tickFactors.length = 20 := by decide
  have large := le_tickRatio inRange
  rw [width] at gap
  omega

theorem tickRatio_gap (inRange : n + 1 ≤ 887272) :
    tickRatio (n + 1) + 2 ^ 32 ≤ tickRatio n := by
  have part := tickRatio_part inRange
  have large := le_tickRatio inRange
  omega

/-- The ratio of a positive tick. -/
theorem inverted_gap (inRange : n + 1 ≤ 887272) :
    (2 ^ 256 - 1) / tickRatio n + 2 ^ 32 ≤ (2 ^ 256 - 1) / tickRatio (n + 1) := by
  have part := tickRatio_part inRange
  have positive : 0 < tickRatio (n + 1) := (le_tickRatio inRange).trans_lt' (by norm_num)
  have above : 0 < tickRatio n := (le_tickRatio (by omega)).trans_lt' (by norm_num)
  have bounded : tickRatio n ≤ 2 ^ 128 := tickRatio_le n
  generalize tickRatio (n + 1) = lower at *
  generalize tickRatio n = upper at *
  have large : 2 ^ 128 - 1 ≤ (2 ^ 256 - 1) / upper := by
    rw [Nat.le_div_iff_mul_le above]
    calc (2 ^ 128 - 1) * upper ≤ (2 ^ 128 - 1) * 2 ^ 128 := Nat.mul_le_mul_left _ bounded
      _ ≤ 2 ^ 256 - 1 := by norm_num
  have below : (2 ^ 256 - 1) / upper * upper ≤ 2 ^ 256 - 1 := Nat.div_mul_le_self _ _
  generalize (2 ^ 256 - 1) / upper = inverted at *
  rw [Nat.le_div_iff_mul_le positive]
  refine Nat.le_of_mul_le_mul_left ?_ (by norm_num : 0 < 40002)
  calc 40002 * ((inverted + 2 ^ 32) * lower)
      = (40002 * inverted + 40002 * 2 ^ 32) * lower := by ring
    _ ≤ (40002 * inverted + inverted) * lower := Nat.mul_le_mul_right _ (by omega)
    _ = inverted * (40003 * lower) := by ring
    _ ≤ inverted * (40002 * upper) := Nat.mul_le_mul_left _ part
    _ = 40002 * (inverted * upper) := by ring
    _ ≤ 40002 * (2 ^ 256 - 1) := Nat.mul_le_mul_left _ below

end InRange

/-! ## The rounded ratio -/

/-- A ratio in units of `2 ^ (-96)`, rounded up. -/
def roundedUp (ratio : ℕ) : ℕ := if ratio % 2 ^ 32 = 0 then ratio / 2 ^ 32 else ratio / 2 ^ 32 + 1

theorem roundedUp_mono {lower upper : ℕ} (ordered : lower ≤ upper) :
    roundedUp lower ≤ roundedUp upper := by
  unfold roundedUp
  split <;> split <;> omega

/-- Rounding up does not hide a gap of one unit. -/
theorem roundedUp_lt {lower upper : ℕ} (gap : lower + 2 ^ 32 ≤ upper) :
    roundedUp lower < roundedUp upper := by
  unfold roundedUp
  split <;> split <;> omega

/-- The ratio of a tick, before it is rounded. -/
def exactRatio (tick : ℤ) : ℕ :=
  if 0 < tick then (2 ^ 256 - 1) / tickRatio tick.natAbs else tickRatio tick.natAbs

theorem getSqrtRatioAtTick_ok {tick : ℤ} {sqrtPriceX96 : ℕ} :
    getSqrtRatioAtTick tick = .ok sqrtPriceX96 ↔
      (minTick ≤ tick ∧ tick ≤ maxTick) ∧ roundedUp (exactRatio tick) = sqrtPriceX96 := by
  unfold getSqrtRatioAtTick
  split
  · next inside =>
      rw [Except.ok.injEq]
      exact ⟨fun same => ⟨inside, same⟩, And.right⟩
  · next outside => simp [outside]

theorem inRange_natAbs {tick : ℤ} (inside : minTick ≤ tick ∧ tick ≤ maxTick) :
    tick.natAbs ≤ 887272 := by
  unfold minTick maxTick at inside
  omega

/-- **No panic is reachable**: the products stay in the word, the inverted ratio is positive and
rounding up has room. -/
theorem getSqrtRatioAtTickChecked_eq (tick : ℤ) :
    getSqrtRatioAtTickChecked tick = some (getSqrtRatioAtTick tick) := by
  unfold getSqrtRatioAtTickChecked
  split
  · next inside =>
      have positive : tickRatio tick.natAbs ≠ 0 :=
        ((le_tickRatio (inRange_natAbs inside)).trans_lt' (by norm_num)).ne'
      have inverted : divChecked (2 ^ 256 - 1) (tickRatio tick.natAbs) =
          some ((2 ^ 256 - 1) / tickRatio tick.natAbs) := if_neg positive
      have inWord : exactRatio tick < 2 ^ 256 := by
        unfold exactRatio
        split
        · exact (Nat.div_le_self _ _).trans_lt (by norm_num)
        · exact (tickRatio_le _).trans_lt (by norm_num)
      have room : addChecked (exactRatio tick / 2 ^ 32) 1 = some (exactRatio tick / 2 ^ 32 + 1) :=
        if_pos (by omega)
      rw [tickRatioChecked_eq, getSqrtRatioAtTick_ok.mpr ⟨inside, rfl⟩]
      unfold exactRatio at room ⊢
      by_cases upward : 0 < tick
      · simp only [if_pos upward] at room ⊢
        simp only [Option.bind_eq_bind, Option.bind_some, inverted, room, roundedUp]
        split <;> rfl
      · simp only [if_neg upward] at room ⊢
        simp only [Option.bind_eq_bind, Option.bind_some, room, roundedUp]
        split <;> rfl
  · next outside => rw [getSqrtRatioAtTick, if_neg outside]; rfl

/-- The ratio of tick zero is the same inverted or not. -/
theorem roundedUp_exactRatio_of_nonneg {tick : ℤ} (nonneg : 0 ≤ tick) :
    roundedUp (exactRatio tick) = roundedUp ((2 ^ 256 - 1) / tickRatio tick.natAbs) := by
  unfold exactRatio
  split
  · rfl
  · next notPositive =>
      obtain rfl : tick = 0 := by omega
      rw [Int.natAbs_zero, tickRatio_zero]
      decide

theorem exactRatio_of_nonpos {tick : ℤ} (nonpos : tick ≤ 0) :
    exactRatio tick = tickRatio tick.natAbs := if_neg (by omega)

theorem roundedUp_lt_of_nonpos {tick later : ℤ} (inside : minTick ≤ tick) (ordered : tick < later)
    (nonpos : later ≤ 0) : roundedUp (exactRatio tick) < roundedUp (exactRatio later) := by
  rw [exactRatio_of_nonpos nonpos, exactRatio_of_nonpos (by omega)]
  unfold minTick at inside
  have apart : tickRatio tick.natAbs ≤ tickRatio (later.natAbs + 1) :=
    tickRatio_antitone (by omega) (by omega)
  have gap : tickRatio (later.natAbs + 1) + 2 ^ 32 ≤ tickRatio later.natAbs :=
    tickRatio_gap (by omega)
  exact roundedUp_lt (by omega)

theorem roundedUp_lt_of_nonneg {tick later : ℤ} (inside : later ≤ maxTick) (ordered : tick < later)
    (nonneg : 0 ≤ tick) : roundedUp (exactRatio tick) < roundedUp (exactRatio later) := by
  rw [roundedUp_exactRatio_of_nonneg nonneg, roundedUp_exactRatio_of_nonneg (by omega)]
  unfold maxTick at inside
  have gap : (2 ^ 256 - 1) / tickRatio tick.natAbs + 2 ^ 32 ≤
      (2 ^ 256 - 1) / tickRatio (tick.natAbs + 1) := inverted_gap (by omega)
  have apart : (2 ^ 256 - 1) / tickRatio (tick.natAbs + 1) ≤
      (2 ^ 256 - 1) / tickRatio later.natAbs :=
    Nat.div_le_div_left (tickRatio_antitone (by omega) (by omega))
      ((le_tickRatio (by omega)).trans_lt' (by norm_num))
  exact roundedUp_lt (gap.trans apart)

/-- **The rounded ratio is strictly increasing in the tick.** -/
theorem roundedUp_exactRatio_lt {tick later : ℤ} (first : minTick ≤ tick) (last : later ≤ maxTick)
    (ordered : tick < later) : roundedUp (exactRatio tick) < roundedUp (exactRatio later) := by
  rcases le_or_gt later 0 with nonpos | positive
  · exact roundedUp_lt_of_nonpos first ordered nonpos
  rcases le_or_gt 0 tick with nonneg | negative
  · exact roundedUp_lt_of_nonneg last ordered nonneg
  · exact (roundedUp_lt_of_nonpos first negative (le_refl 0)).trans
      (roundedUp_lt_of_nonneg last positive (le_refl 0))

theorem roundedUp_exactRatio_mono {tick later : ℤ} (first : minTick ≤ tick)
    (last : later ≤ maxTick) (ordered : tick ≤ later) :
    roundedUp (exactRatio tick) ≤ roundedUp (exactRatio later) := by
  rcases ordered.lt_or_eq with smaller | rfl
  · exact (roundedUp_exactRatio_lt first last smaller).le
  · exact le_refl _

theorem roundedUp_minTick : roundedUp (exactRatio minTick) = 4295128739 := by
  rw [exactRatio_of_nonpos (by decide), show minTick.natAbs = 887272 from rfl, tickRatio_last]
  decide

theorem roundedUp_maxTick : roundedUp (exactRatio maxTick) =
    1461446703485210103287273052203988822378723970342 := by
  rw [roundedUp_exactRatio_of_nonneg (by decide), show maxTick.natAbs = 887272 from rfl,
    tickRatio_last]
  decide

/-- **A tick has a ratio exactly inside the range, without a panic; the ratios fill the range of
the pool's prices and are strictly increasing.** -/
theorem getSqrtRatioAtTick_exact (tick : ℤ) :
    (∃ result, getSqrtRatioAtTickChecked tick = some result) ∧
      ((∃ message, getSqrtRatioAtTickChecked tick = some (.error message)) ↔
        ¬ (-887272 ≤ tick ∧ tick ≤ 887272)) ∧
      (-887272 ≤ tick ∧ tick ≤ 887272 → tickRatioChecked tick.natAbs = some (tickRatio tick.natAbs) ∧
        tickRatio tick.natAbs ≠ 0) ∧
      ∀ sqrtPriceX96, getSqrtRatioAtTickChecked tick = some (.ok sqrtPriceX96) →
        sqrtPriceX96 < 2 ^ 160 ∧ 4295128739 ≤ sqrtPriceX96 ∧
        sqrtPriceX96 ≤ 1461446703485210103287273052203988822378723970342 ∧
        ∀ later laterX96, tick < later →
          getSqrtRatioAtTickChecked later = some (.ok laterX96) → sqrtPriceX96 < laterX96 := by
  simp only [getSqrtRatioAtTickChecked_eq, Option.some.injEq, exists_eq', true_and]
  refine ⟨?_, ?_, ?_⟩
  · rw [show (-887272 ≤ tick ∧ tick ≤ 887272) ↔ (minTick ≤ tick ∧ tick ≤ maxTick) from Iff.rfl,
      ← getSqrtRatioAtTick_isOk]
    cases getSqrtRatioAtTick tick <;> simp
  · intro inside
    exact ⟨tickRatioChecked_eq _,
      ((le_tickRatio (inRange_natAbs inside)).trans_lt' (by norm_num)).ne'⟩
  · intro sqrtPriceX96 computed
    obtain ⟨inside, rfl⟩ := getSqrtRatioAtTick_ok.mp computed
    have lowest := roundedUp_exactRatio_mono (le_refl _) inside.2 inside.1
    have highest := roundedUp_exactRatio_mono inside.1 (le_refl _) inside.2
    rw [roundedUp_minTick] at lowest
    rw [roundedUp_maxTick] at highest
    refine ⟨highest.trans_lt (by norm_num), lowest, highest, ?_⟩
    intro later laterX96 ordered laterComputed
    obtain ⟨laterInside, rfl⟩ := getSqrtRatioAtTick_ok.mp laterComputed
    exact roundedUp_exactRatio_lt inside.1 laterInside.2 ordered

end ProtocolExplorer.Valuator
