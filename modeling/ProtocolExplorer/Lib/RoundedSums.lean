import ProtocolExplorer.Lib.Decimal

/-!
# Sums that are rounded batch by batch

A column of fixed scale is added to in batches.  The total of a batch is exact and is rounded when
it is stored, so what the column holds may depend on where the batches end.

* `roundHalfAway_add_eq_iff` — when an integer survives an error;
* `storeBatches_eq_iff` — **every batching of a list of rows stores the same if and only if the
  rounding errors of each run of consecutive rows vanish**;
* `units_ofRat_parts` — the two parts of an amount are stored as its parts, unless they are ties.
-/

set_option autoImplicit false

namespace ProtocolExplorer.Lib

namespace Decimal

variable {scale : ℕ}

@[simp] theorem ofRat_zero : (ofRat 0 : Decimal scale) = 0 := by
  simpa using ofRat_toRat (0 : Decimal scale)

theorem toRat_sum (values : List (Decimal scale)) : values.sum.toRat = (values.map toRat).sum := by
  induction values with
  | nil => exact toRat_zero
  | cons value rest inductionHypothesis =>
      rw [List.sum_cons, List.map_cons, List.sum_cons, toRat_add, inductionHypothesis]

/-! ## Rounding errors -/

/-- An error, in units, that rounding the total takes away again. -/
def Vanishes (error total : ℚ) : Prop := |error| < 1 / 2 ∨ |error| = 1 / 2 ∧ error * total < 0

instance (error total : ℚ) : Decidable (Vanishes error total) := inferInstanceAs (Decidable (_ ∨ _))

/-- An integer survives an error that vanishes, and no other. -/
theorem roundHalfAway_add_eq_iff (n : ℤ) (error : ℚ) :
    roundHalfAway (n + error) = n ↔ Vanishes error (n + error) := by
  unfold roundHalfAway Vanishes
  by_cases nonneg : 0 ≤ (n : ℚ) + error
  · rw [if_pos nonneg, Int.floor_eq_iff]
    constructor
    · rintro ⟨low, high⟩
      rcases lt_or_eq_of_le (show -(1 / 2) ≤ error by linarith) with inside | tie
      · exact Or.inl (abs_lt.mpr ⟨inside, by linarith⟩)
      · refine Or.inr ⟨by rw [← tie, abs_neg, abs_of_pos (by norm_num)], ?_⟩
        have whole : (1 : ℚ) ≤ n := by
          have half : (0 : ℚ) < n := by linarith
          exact_mod_cast half
        rw [← tie]
        nlinarith
    · rintro (small | ⟨tie, opposite⟩)
      · obtain ⟨low, high⟩ := abs_lt.mp small
        constructor <;> linarith
      · have negative : error < 0 := by
          by_contra positive
          exact absurd (mul_nonneg (not_lt.mp positive) nonneg) (not_le.mpr opposite)
        rw [abs_of_neg negative] at tie
        constructor <;> linarith
  · rw [if_neg nonneg]
    have negative : (n : ℚ) + error < 0 := not_le.mp nonneg
    rw [neg_eq_iff_eq_neg, Int.floor_eq_iff, Int.cast_neg]
    constructor
    · rintro ⟨low, high⟩
      rcases lt_or_eq_of_le (show error ≤ 1 / 2 by linarith) with inside | tie
      · exact Or.inl (abs_lt.mpr ⟨by linarith, inside⟩)
      · refine Or.inr ⟨by rw [tie, abs_of_pos (by norm_num)], ?_⟩
        rw [tie] at negative ⊢
        linarith
    · rintro (small | ⟨tie, opposite⟩)
      · obtain ⟨low, high⟩ := abs_lt.mp small
        constructor <;> linarith
      · have positive : 0 < error := by
          by_contra nonpos
          exact absurd (mul_nonneg_of_nonpos_of_nonpos (not_lt.mp nonpos) negative.le)
            (not_le.mpr opposite)
        rw [abs_of_pos positive] at tie
        constructor <;> linarith

/-- What rounding adds to or takes from a value, in units of the column. -/
def roundingError (scale : ℕ) (q : ℚ) : ℚ := q * 10 ^ scale - (ofRat q : Decimal scale).units

/-- The rounding errors of some values, taken together, vanish in their total. -/
def ErrorsVanish (scale : ℕ) (values : List ℚ) : Prop :=
  Vanishes (values.map (roundingError scale)).sum (values.sum * 10 ^ scale)

instance (values : List ℚ) : Decidable (ErrorsVanish scale values) :=
  inferInstanceAs (Decidable (Vanishes _ _))

/-- Values are stored together as they are stored apart when their errors vanish. -/
theorem ofRat_sum_eq_iff {values : List ℚ} :
    (ofRat values.sum : Decimal scale) = (values.map fun q => (ofRat q : Decimal scale)).sum ↔
      ErrorsVanish scale values := by
  have split : values.sum * 10 ^ scale =
      ((values.map fun q => (ofRat q : Decimal scale)).sum).units +
        (values.map (roundingError scale)).sum := by
    induction values with
    | nil => simp
    | cons q rest inductionHypothesis =>
        simp only [List.sum_cons, List.map_cons, units_add, Int.cast_add, add_mul,
          inductionHypothesis]
        rw [roundingError]
        ring
  rw [ErrorsVanish, split, ← roundHalfAway_add_eq_iff, ← split, Decimal.ext_iff]
  rfl

/-- What a column holds exactly has no rounding error. -/
theorem errorsVanish_of_representable {values : List ℚ}
    (fit : ∀ q ∈ values, Representable scale q) : ErrorsVanish scale values :=
  ofRat_sum_eq_iff.mp (ofRat_listSum fit).symm

/-! ## Two parts of an amount -/

/-- A value halfway between two units. -/
def IsTie (scale : ℕ) (q : ℚ) : Prop := Int.fract (q * 10 ^ scale) = 1 / 2

instance (q : ℚ) : Decidable (IsTie scale q) := inferInstanceAs (Decidable (_ = _))

/-- Two parts of an integer round to parts of it, unless they are halves. -/
theorem floor_parts (n : ℤ) (part : ℚ) :
    ⌊part + 1 / 2⌋ + ⌊(n : ℚ) - part + 1 / 2⌋ = n + if Int.fract part = 1 / 2 then 1 else 0 := by
  have split := Int.floor_add_fract part
  have low := Int.fract_nonneg part
  have high := Int.fract_lt_one part
  -- the fraction decides how the two parts round
  rcases lt_trichotomy (Int.fract part) (1 / 2) with below | tie | above
  · have first : ⌊part + 1 / 2⌋ = ⌊part⌋ := Int.floor_eq_iff.mpr ⟨by linarith, by linarith⟩
    have second : ⌊(n : ℚ) - part + 1 / 2⌋ = n - ⌊part⌋ :=
      Int.floor_eq_iff.mpr ⟨by push_cast; linarith, by push_cast; linarith⟩
    rw [first, second, if_neg below.ne]
    ring
  · have first : ⌊part + 1 / 2⌋ = ⌊part⌋ + 1 :=
      Int.floor_eq_iff.mpr ⟨by push_cast; linarith, by push_cast; linarith⟩
    have second : ⌊(n : ℚ) - part + 1 / 2⌋ = n - ⌊part⌋ :=
      Int.floor_eq_iff.mpr ⟨by push_cast; linarith, by push_cast; linarith⟩
    rw [first, second, if_pos tie]
    ring
  · have first : ⌊part + 1 / 2⌋ = ⌊part⌋ + 1 :=
      Int.floor_eq_iff.mpr ⟨by push_cast; linarith, by push_cast; linarith⟩
    have second : ⌊(n : ℚ) - part + 1 / 2⌋ = n - ⌊part⌋ - 1 :=
      Int.floor_eq_iff.mpr ⟨by push_cast; linarith, by push_cast; linarith⟩
    rw [first, second, if_neg above.ne']
    ring

/-- The parts of an amount are stored as its parts; a tie adds a unit, since both parts are. -/
theorem units_ofRat_parts {q : ℚ} {whole : Decimal scale} (nonneg : 0 ≤ q)
    (inside : q ≤ whole.toRat) :
    ((ofRat q : Decimal scale) + ofRat (whole.toRat - q)).units =
      whole.units + if IsTie scale q then 1 else 0 := by
  have positive : (0 : ℚ) < 10 ^ scale := by positivity
  have scaled : whole.toRat * 10 ^ scale = whole.units := by
    rw [toRat]
    field_simp
  have rest : 0 ≤ (whole.units : ℚ) - q * 10 ^ scale := by
    rw [← scaled, ← sub_mul]
    exact mul_nonneg (sub_nonneg.mpr inside) positive.le
  rw [units_add, ofRat, ofRat, sub_mul, scaled]
  simp only [roundHalfAway, if_pos (mul_nonneg nonneg positive.le), if_pos rest]
  exact floor_parts whole.units (q * 10 ^ scale)

end Decimal

/-! ## Batches -/

section Batches

open Decimal

variable {Row : Type*} {scale : ℕ} (value : Row → ℚ)

/-- The column after some batches. -/
def storeBatches (scale : ℕ) (batches : List (List Row)) : Decimal scale :=
  (batches.map fun rows => (ofRat (rows.map value).sum : Decimal scale)).sum

variable {value}

theorem storeBatches_cons (rows : List Row) (rest : List (List Row)) :
    storeBatches value scale (rows :: rest) =
      ofRat (rows.map value).sum + storeBatches value scale rest :=
  List.sum_cons

/-- Every batching stores what single rows store, if the errors of each run of rows vanish. -/
theorem storeBatches_of_vanish {rows : List Row}
    (vanish : ∀ run, run <:+: rows → ErrorsVanish scale (run.map value))
    {batches : List (List Row)} (covers : batches.flatten = rows) :
    storeBatches value scale batches = (rows.map fun row => (ofRat (value row) : Decimal scale)).sum := by
  subst covers
  induction batches with
  | nil => rfl
  | cons batch rest inductionHypothesis =>
      have first := ofRat_sum_eq_iff.mpr
        (vanish batch ⟨[], rest.flatten, by simp⟩)
      have later := inductionHypothesis fun run inside =>
        vanish run (inside.trans (List.suffix_append batch rest.flatten).isInfix)
      rw [storeBatches, List.map_cons, List.sum_cons, first, List.flatten_cons, List.map_append,
        List.sum_append, ← later, List.map_map]
      rfl

theorem storeBatches_append (first second : List (List Row)) :
    storeBatches value scale (first ++ second) =
      storeBatches value scale first + storeBatches value scale second := by
  rw [storeBatches, List.map_append, List.sum_append]
  rfl

theorem flatten_singletons (rows : List Row) : (rows.map fun row => [row]).flatten = rows := by
  rw [← List.flatMap_def, List.flatMap_singleton']

theorem storeBatches_singletons (rows : List Row) :
    storeBatches value scale (rows.map fun row => [row]) =
      (rows.map fun row => (ofRat (value row) : Decimal scale)).sum := by
  rw [storeBatches, List.map_map]
  simp [Function.comp_def]

/-- All batchings of a list of rows store the same exactly when the rounding errors of each run of
consecutive rows vanish. -/
theorem storeBatches_eq_iff (rows : List Row) :
    (∀ batches batches' : List (List Row), batches.flatten = rows → batches'.flatten = rows →
      storeBatches value scale batches = storeBatches value scale batches') ↔
      ∀ run, run <:+: rows → ErrorsVanish scale (run.map value) := by
  constructor
  · rintro same run ⟨before, after, rfl⟩
    -- the run in one batch, against single rows
    have merged := same (before.map (fun row => [row]) ++ [run] ++ after.map fun row => [row])
      (before.map (fun row => [row]) ++ run.map (fun row => [row]) ++ after.map fun row => [row])
      (by simp [flatten_singletons]) (by simp [flatten_singletons])
    rw [storeBatches_append, storeBatches_append, storeBatches_append, storeBatches_append,
      add_left_inj, add_right_inj, storeBatches_singletons, storeBatches, List.map_singleton,
      List.sum_singleton] at merged
    rw [← ofRat_sum_eq_iff, merged, List.map_map]
    rfl
  · intro vanish batches batches' covers covers'
    rw [storeBatches_of_vanish vanish covers, storeBatches_of_vanish vanish covers']

/-! ## Two columns that share a third -/

/-- Two parts that are added to apart exceed their whole by a unit for each tied batch. -/
theorem units_storeBatches_parts {part rest : Row → ℚ} {whole : Row → Decimal scale}
    {batches : List (List Row)}
    (parts : ∀ rows ∈ batches, ∀ row ∈ rows,
      0 ≤ part row ∧ 0 ≤ rest row ∧ part row + rest row = (whole row).toRat) :
    (storeBatches part scale batches + storeBatches rest scale batches).units =
      (storeBatches (fun row => (whole row).toRat) scale batches).units +
        (batches.countP fun rows => decide (IsTie scale (rows.map part).sum)) := by
  induction batches with
  | nil => rfl
  | cons rows others inductionHypothesis =>
      have own := parts rows (by simp)
      have later := inductionHypothesis fun batch member => parts batch (by simp [member])
      have nonneg : 0 ≤ (rows.map part).sum :=
        List.sum_nonneg fun amount member => by
          obtain ⟨row, inside, rfl⟩ := List.mem_map.mp member
          exact (own row inside).1
      have nonneg' : 0 ≤ (rows.map rest).sum :=
        List.sum_nonneg fun amount member => by
          obtain ⟨row, inside, rfl⟩ := List.mem_map.mp member
          exact (own row inside).2.1
      have wholes : (rows.map fun row => (whole row).toRat).sum = ((rows.map whole).sum).toRat := by
        rw [toRat_sum, List.map_map]
        rfl
      have share : (rows.map rest).sum = ((rows.map whole).sum).toRat - (rows.map part).sum := by
        rw [← wholes, eq_sub_iff_add_eq', ← List.sum_map_add]
        exact congrArg List.sum (List.map_congr_left fun row inside => (own row inside).2.2)
      have inside : (rows.map part).sum ≤ ((rows.map whole).sum).toRat := by linarith
      have split := units_ofRat_parts nonneg inside
      rw [← share, units_add] at split
      simp only [units_add] at later
      simp only [storeBatches_cons, units_add, wholes, ofRat_toRat, List.countP_cons,
        decide_eq_true_eq, Nat.cast_add, Nat.cast_ite, Nat.cast_one, Nat.cast_zero]
      linarith

end Batches

end ProtocolExplorer.Lib
