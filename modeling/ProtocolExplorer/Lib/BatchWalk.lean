import ProtocolExplorer.Lib.OrderedBatch

/-!
# Walking sorted rows in batches

A reader takes the first `limit` rows, remembers the largest key among them and continues with the
rows past it.  Several rows may share a key.

* `walk_sublist` — no row is taken twice;
* `walk_perm_iff` — **every row is taken once if and only if no multiple of the limit falls between
  two rows of one key**.
-/

set_option autoImplicit false

namespace ProtocolExplorer.Lib

universe u v

variable {Row : Type u} {Key : Type v} [LinearOrder Key]

/-- The rows past a batch. -/
def pastBatch (key : Row → Key) (limit : ℕ) (rows : List Row) : List Row :=
  rows.filter fun row => (rows.take limit).all fun taken => decide (key taken < key row)

/-- The rows taken by some batches. -/
def walk (key : Row → Key) (limit : ℕ) : ℕ → List Row → List Row
  | 0, _ => []
  | batches + 1, rows => rows.take limit ++ walk key limit batches (pastBatch key limit rows)

/-- Rows on both sides of a multiple of the limit have different keys. -/
def CutsNoKey (key : Row → Key) (limit : ℕ) (rows : List Row) : Prop :=
  ∀ batch : ℕ, ∀ row ∈ rows.take (batch * limit), ∀ later ∈ rows.drop (batch * limit),
    key row < key later

variable {key : Row → Key} {limit : ℕ} {rows : List Row}

/-- There are no more batches than rows. -/
theorem cutsNoKey_iff_of_le_length : CutsNoKey key limit rows ↔
    ∀ batch ≤ rows.length, ∀ row ∈ rows.take (batch * limit),
      ∀ later ∈ rows.drop (batch * limit), key row < key later := by
  refine ⟨fun whole batch _ => whole batch, fun whole batch row taken later left => ?_⟩
  by_cases few : batch ≤ rows.length
  · exact whole batch few row taken later left
  · rcases Nat.eq_zero_or_pos limit with rfl | positive
    · simp at taken
    · have beyond : rows.length ≤ batch * limit :=
        le_trans (le_of_not_ge few) (Nat.le_mul_of_pos_right batch positive)
      rw [List.drop_eq_nil_of_le beyond] at left
      exact absurd left List.not_mem_nil

instance : Decidable (CutsNoKey key limit rows) := decidable_of_iff _ cutsNoKey_iff_of_le_length.symm

/-- The first batch cuts no key, and no later one does. -/
theorem cutsNoKey_iff_drop : CutsNoKey key limit rows ↔
    (∀ row ∈ rows.take limit, ∀ later ∈ rows.drop limit, key row < key later) ∧
      CutsNoKey key limit (rows.drop limit) := by
  have split : ∀ batch, rows.take ((batch + 1) * limit) =
      rows.take limit ++ (rows.drop limit).take (batch * limit) := by
    intro batch
    rw [Nat.succ_mul, Nat.add_comm, List.take_add]
  have rest : ∀ batch, rows.drop ((batch + 1) * limit) = (rows.drop limit).drop (batch * limit) := by
    intro batch
    rw [Nat.succ_mul, Nat.add_comm, List.drop_drop]
  constructor
  · intro whole
    refine ⟨by simpa using whole 1, fun batch row taken later left => ?_⟩
    refine whole (batch + 1) row ?_ later (by rwa [rest])
    rw [split]
    exact List.mem_append_right _ taken
  · rintro ⟨first, others⟩ batch row taken later left
    cases batch with
    | zero => simp at taken
    | succ batch =>
        rw [rest] at left
        rw [split] at taken
        rcases List.mem_append.mp taken with inFirst | inOther
        · exact first row inFirst later (List.mem_of_mem_drop left)
        · exact others batch row inOther later left

/-- A batch is not read again, nor is what shares its keys. -/
theorem pastBatch_eq_filter_drop (key : Row → Key) (limit : ℕ) (rows : List Row) :
    pastBatch key limit rows = (rows.drop limit).filter fun row =>
      (rows.take limit).all fun taken => decide (key taken < key row) := by
  have reread : (rows.take limit).filter (fun row =>
      (rows.take limit).all fun taken => decide (key taken < key row)) = [] := by
    refine List.filter_eq_nil_iff.mpr fun row taken past => ?_
    exact absurd (of_decide_eq_true (List.all_eq_true.mp past row taken)) (lt_irrefl _)
  have split := List.filter_append (p := fun row =>
    (rows.take limit).all fun taken => decide (key taken < key row)) (rows.take limit)
    (rows.drop limit)
  rwa [List.take_append_drop, reread, List.nil_append] at split

theorem pastBatch_sublist_drop (key : Row → Key) (limit : ℕ) (rows : List Row) :
    (pastBatch key limit rows).Sublist (rows.drop limit) := by
  rw [pastBatch_eq_filter_drop]
  exact List.filter_sublist

theorem walk_sublist (key : Row → Key) (limit batches : ℕ) (rows : List Row) :
    (walk key limit batches rows).Sublist rows := by
  induction batches generalizing rows with
  | zero => exact List.nil_sublist rows
  | succ batches inductionHypothesis =>
      conv_rhs => rw [← List.take_append_drop limit rows]
      exact (List.Sublist.refl _).append ((inductionHypothesis _).trans (pastBatch_sublist_drop key limit rows))

/-- Nothing is lost after a batch that cuts no key. -/
theorem pastBatch_eq_drop_iff : pastBatch key limit rows = rows.drop limit ↔
    ∀ row ∈ rows.take limit, ∀ later ∈ rows.drop limit, key row < key later := by
  rw [pastBatch_eq_filter_drop, List.filter_eq_self]
  simp only [List.all_eq_true, decide_eq_true_eq]
  exact ⟨fun past row taken later left => past later left row taken,
    fun ordered later left row taken => ordered row taken later left⟩

/-- As many batches as there are rows take each row once exactly when no batch cuts a key. -/
theorem walk_perm_iff (positive : 0 < limit) {batches : ℕ} (enough : rows.length ≤ batches) :
    (walk key limit batches rows).Perm rows ↔ CutsNoKey key limit rows := by
  have perm_iff : ∀ {n : ℕ} {rows : List Row}, (walk key limit n rows).Perm rows ↔
      walk key limit n rows = rows := fun {n rows} =>
    ⟨fun perm => (walk_sublist key limit n rows).eq_of_length perm.length_eq,
      fun same => List.Perm.of_eq same⟩
  rw [perm_iff]
  induction batches generalizing rows with
  | zero =>
      obtain rfl := List.length_eq_zero_iff.mp (Nat.le_zero.mp enough)
      simp [walk, CutsNoKey]
  | succ batches inductionHypothesis =>
      have fewer : (rows.drop limit).length ≤ batches := by
        rw [List.length_drop]
        omega
      have step : walk key limit (batches + 1) rows = rows ↔
          pastBatch key limit rows = rows.drop limit ∧
            walk key limit batches (rows.drop limit) = rows.drop limit := by
        conv_lhs => rw [walk]; rhs; rw [← List.take_append_drop limit rows]
        rw [List.append_right_inj]
        constructor
        · intro same
          have shorter := (walk_sublist key limit batches (pastBatch key limit rows)).length_le
          have kept := (pastBatch_sublist_drop key limit rows).eq_of_length_le (by rwa [same] at shorter)
          exact ⟨kept, by rwa [kept] at same⟩
        · rintro ⟨kept, same⟩
          rw [kept, same]
      rw [step, pastBatch_eq_drop_iff, cutsNoKey_iff_drop]
      exact and_congr_right fun _ => inductionHypothesis fewer

end ProtocolExplorer.Lib
