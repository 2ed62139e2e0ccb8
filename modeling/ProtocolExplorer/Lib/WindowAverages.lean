import Mathlib

/-!
# Averages over windows with missing values

An SQL average ignores missing values, so it divides by the number of those that are present.  A
mean over a list counts a value once for each occurrence of its day, and a missing one as zero.

* `sqlAverage_eq` — the average as a quotient;
* `spreadEvenly_iff` — being spread evenly is a condition on the weight of every single day;
* `sqlAverage_eq_mean` — **the average over a window is the mean over days that are spread evenly
  over it**;
* `weight_of_sqlAverage_eq_mean` — a value on a single day tells its weights apart.
-/

set_option autoImplicit false

namespace ProtocolExplorer.Lib

universe u

variable {Day : Type u}

/-- `COALESCE(AVG(…), 0)` over some days. -/
def sqlAverage (sums : Day → Option ℚ) (window : List Day) : ℚ :=
  if window.filterMap sums = [] then 0
  else (window.filterMap sums).sum / (window.filterMap sums).length

/-- The mean over some days, missing values counting as zero. -/
def meanOver (sums : Day → Option ℚ) (days : List Day) : ℚ :=
  (days.map fun day => (sums day).getD 0).sum / days.length

/-- What an average divides by: the number of days with a value, or one if there is none. -/
def averageDivisor (present : Day → Bool) (window : List Day) : ℕ :=
  max 1 (window.countP present)

theorem averageDivisor_ne_zero (present : Day → Bool) (window : List Day) :
    (averageDivisor present window : ℚ) ≠ 0 :=
  Nat.cast_ne_zero.mpr (Nat.lt_of_lt_of_le Nat.one_pos (le_max_left ..)).ne'

variable {sums : Day → Option ℚ} {window days : List Day}

theorem sum_filterMap {Amount : Type*} [AddMonoid Amount] {amounts : Day → Option Amount} :
    (window.filterMap amounts).sum = (window.map fun day => (amounts day).getD 0).sum := by
  induction window with
  | nil => rfl
  | cons day rest inductionHypothesis =>
      cases found : amounts day with
      | none =>
          rw [List.filterMap_cons_none found, inductionHypothesis, List.map_cons, List.sum_cons,
            found, Option.getD_none, zero_add]
      | some value =>
          rw [List.filterMap_cons_some found, List.sum_cons, inductionHypothesis, List.map_cons,
            List.sum_cons, found, Option.getD_some]

/-- An average over no value divides zero. -/
theorem sqlAverage_eq : sqlAverage sums window =
    (window.map fun day => (sums day).getD 0).sum /
      averageDivisor (fun day => (sums day).isSome) window := by
  unfold sqlAverage averageDivisor
  rw [← sum_filterMap, ← List.length_filterMap_eq_countP]
  cases window.filterMap sums with
  | nil => simp
  | cons value rest =>
      have some_ : 1 ≤ (value :: rest).length := by simp
      rw [if_neg (by simp), max_eq_right some_]

variable [DecidableEq Day]

/-- The weight of a day in a window of distinct days. -/
def inWindow (window : List Day) (day : Day) : ℕ := if day ∈ window then 1 else 0

/-- A sum over a list by the number of occurrences. -/
theorem sum_map_eq_count {value : Day → ℚ} {all : Finset Day} (inside : ∀ day ∈ days, day ∈ all) :
    (days.map value).sum = ∑ day ∈ all, (days.count day : ℚ) * value day := by
  rw [Finset.sum_list_map_count]
  simp only [nsmul_eq_mul]
  refine Finset.sum_subset (fun day listed => inside day (List.mem_toFinset.mp listed)) ?_
  intro day _ absent
  rw [List.count_eq_zero_of_not_mem fun listed => absent (List.mem_toFinset.mpr listed),
    Nat.cast_zero, zero_mul]

theorem count_eq_inWindow (distinct : window.Nodup) (day : Day) :
    window.count day = inWindow window day := by
  unfold inWindow
  split
  · next inside => exact List.count_eq_one_of_mem distinct inside
  · next outside => exact List.count_eq_zero_of_not_mem outside

/-- Some days are spread evenly over those days of a window that have a value. -/
structure SpreadEvenly (present : Day → Bool) (window days : List Day) : Prop where
  inside : ∀ day ∈ window, present day = true →
    days.count day * window.countP present = days.length
  outside : ∀ day, present day = true → day ∉ window → day ∉ days

/-- In terms of the weight of every day with a value, in the average and in the mean. -/
theorem spreadEvenly_iff {present : Day → Bool} :
    SpreadEvenly present window days ↔ ∀ day, present day = true →
      days.length * inWindow window day = days.count day * averageDivisor present window := by
  have divisor : ∀ day ∈ window, present day = true →
      averageDivisor present window = window.countP present := fun day inside isPresent =>
    max_eq_right (List.countP_pos_iff.mpr ⟨day, inside, isPresent⟩)
  constructor
  · intro even day isPresent
    by_cases inside : day ∈ window
    · rw [inWindow, if_pos inside, mul_one, divisor day inside isPresent,
        even.inside day inside isPresent]
    · rw [inWindow, if_neg inside, mul_zero,
        List.count_eq_zero_of_not_mem (even.outside day isPresent inside), zero_mul]
  · intro weights
    refine ⟨fun day inside isPresent => ?_, fun day isPresent outside => ?_⟩
    · have weight := weights day isPresent
      rw [inWindow, if_pos inside, mul_one, divisor day inside isPresent] at weight
      exact weight.symm
    · have weight := weights day isPresent
      rw [inWindow, if_neg outside, mul_zero] at weight
      have positive : averageDivisor present window ≠ 0 :=
        (Nat.lt_of_lt_of_le Nat.one_pos (le_max_left ..)).ne'
      exact List.count_eq_zero.mp ((Nat.mul_eq_zero.mp weight.symm).resolve_right positive)

/-- **The average over a window is the mean over days that are spread evenly over it.** -/
theorem sqlAverage_eq_mean (distinct : window.Nodup)
    (even : SpreadEvenly (fun day => (sums day).isSome) window days)
    (nonempty : days ≠ []) : sqlAverage sums window = meanOver sums days := by
  have inAll : ∀ day ∈ window, day ∈ (window ++ days).toFinset := fun day inside =>
    List.mem_toFinset.mpr (List.mem_append_left _ inside)
  have inAll' : ∀ day ∈ days, day ∈ (window ++ days).toFinset := fun day inside =>
    List.mem_toFinset.mpr (List.mem_append_right _ inside)
  have length : (days.length : ℚ) ≠ 0 := by
    exact_mod_cast (List.length_pos_of_ne_nil nonempty).ne'
  have divisor := averageDivisor_ne_zero (fun day => (sums day).isSome) window
  rw [sqlAverage_eq, meanOver, sum_map_eq_count inAll, sum_map_eq_count inAll',
    div_eq_div_iff divisor length, Finset.sum_mul, Finset.sum_mul]
  refine Finset.sum_congr rfl fun day _ => ?_
  cases value : sums day with
  | none => simp
  | some amount =>
      have weight := spreadEvenly_iff.mp even day (by rw [value]; rfl)
      have cast : (days.length : ℚ) * inWindow window day = days.count day *
          averageDivisor (fun day => (sums day).isSome) window := by
        exact_mod_cast weight
      rw [count_eq_inWindow distinct, Option.getD_some]
      linear_combination amount * cast

/-- **If they agree on a value on a single day, this day weighs the same in both.** -/
theorem weight_of_sqlAverage_eq_mean (distinct : window.Nodup) {day : Day} {value : ℚ}
    (nonzero : value ≠ 0) (single : ∀ other, (sums other).getD 0 = if other = day then value else 0)
    (nonempty : days ≠ []) (agree : sqlAverage sums window = meanOver sums days) :
    days.length * inWindow window day =
      days.count day * averageDivisor (fun day => (sums day).isSome) window := by
  have inAll : ∀ other ∈ window, other ∈ insert day (window ++ days).toFinset := fun other inside =>
    Finset.mem_insert_of_mem (List.mem_toFinset.mpr (List.mem_append_left _ inside))
  have inAll' : ∀ other ∈ days, other ∈ insert day (window ++ days).toFinset := fun other inside =>
    Finset.mem_insert_of_mem (List.mem_toFinset.mpr (List.mem_append_right _ inside))
  have length : (days.length : ℚ) ≠ 0 := by
    exact_mod_cast (List.length_pos_of_ne_nil nonempty).ne'
  have divisor := averageDivisor_ne_zero (fun day => (sums day).isSome) window
  rw [sqlAverage_eq, meanOver, sum_map_eq_count inAll, sum_map_eq_count inAll',
    div_eq_div_iff divisor length] at agree
  simp only [single, mul_ite, mul_zero, Finset.sum_ite_eq', Finset.mem_insert_self, if_true,
    count_eq_inWindow distinct] at agree
  have cast : (days.length : ℚ) * inWindow window day = days.count day *
      averageDivisor (fun day => (sums day).isSome) window := by
    refine mul_right_cancel₀ nonzero ?_
    linear_combination agree
  exact_mod_cast cast

end ProtocolExplorer.Lib
