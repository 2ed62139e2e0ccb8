import ProtocolExplorer.Lib.GroupedTotals

/-!
# Distinct counts

Rows carry one label each.  Counting those whose label occurs for the first time counts the
distinct labels, also when the rows come in several batches.

* `firstCount_eq_distinctCount` — first occurrences are distinct labels;
* `distinctCount_append` — a later batch adds the labels that the earlier ones have not seen;
* `distinctCount_congr` — only equality of labels matters.
-/

set_option autoImplicit false

namespace ProtocolExplorer.Lib

universe u v w

variable {Row : Type u} {Label : Type v} {Other : Type w} [DecidableEq Label] [DecidableEq Other]
  {labelOf : Row → Label}

/-- The number of distinct labels. -/
def distinctCount (labelOf : Row → Label) (rows : List Row) : ℕ :=
  (rows.map labelOf).toFinset.card

/-- The number of rows whose label occurs for the first time. -/
def firstCount (labelOf : Row → Label) (prior : Row → Label → Bool) (seen : List Label)
    (rows : List Row) : ℕ :=
  ((markFirst (fun row => [labelOf row]) prior seen rows).map fun marked => marked.2.length).sum

omit [DecidableEq Label] in
theorem mem_seenAfter_single {seen : List Label} {rows : List Row} {label : Label} :
    label ∈ seenAfter (fun row => [labelOf row]) seen rows ↔
      label ∈ seen ∨ label ∈ rows.map labelOf := by
  rw [mem_seenAfter]
  simp only [List.mem_singleton, List.mem_map, eq_comm]

theorem firstCount_append (prior : Row → Label → Bool) (seen : List Label)
    (first second : List Row) :
    firstCount labelOf prior seen (first ++ second) =
      firstCount labelOf prior seen first +
        firstCount labelOf prior (seenAfter (fun row => [labelOf row]) seen first) second := by
  rw [firstCount, markFirst_append, List.map_append, List.sum_append]
  rfl

theorem distinctCount_snoc (rows : List Row) (row : Row) :
    distinctCount labelOf (rows ++ [row]) =
      distinctCount labelOf rows + if labelOf row ∈ rows.map labelOf then 0 else 1 := by
  have inserted : ((rows ++ [row]).map labelOf).toFinset =
      insert (labelOf row) (rows.map labelOf).toFinset := by
    ext label
    simp [eq_comm]
  rw [distinctCount, inserted, Finset.card_insert_eq_ite]
  simp only [List.mem_toFinset]
  split <;> rfl

/-- **First occurrences are distinct labels.** -/
theorem firstCount_eq_distinctCount (rows : List Row) :
    firstCount labelOf (fun _ _ => false) [] rows = distinctCount labelOf rows := by
  induction rows using List.reverseRecOn with
  | nil => rfl
  | append_singleton rest row inductionHypothesis =>
      rw [firstCount_append, inductionHypothesis, distinctCount_snoc]
      refine congrArg _ ?_
      have asked : labelOf row ∈ seenAfter (fun row => [labelOf row]) [] rest ↔
          labelOf row ∈ rest.map labelOf := by
        rw [mem_seenAfter_single, or_iff_right List.not_mem_nil]
      by_cases known : labelOf row ∈ rest.map labelOf
      · simp [firstCount, markFirst, asked.mpr known, known]
      · simp [firstCount, markFirst, mt asked.mp known, known]

/-- A later batch adds the labels that the earlier rows do not carry. -/
theorem distinctCount_append (first second : List Row) :
    distinctCount labelOf (first ++ second) =
      distinctCount labelOf first +
        firstCount labelOf (fun _ _ => false)
          (seenAfter (fun row => [labelOf row]) [] first) second := by
  rw [← firstCount_eq_distinctCount, firstCount_append, firstCount_eq_distinctCount]

/-- Only equality of labels matters. -/
theorem distinctCount_congr {otherOf : Row → Other} {rows : List Row}
    (same : ∀ a ∈ rows, ∀ b ∈ rows, labelOf a = labelOf b ↔ otherOf a = otherOf b) :
    distinctCount labelOf rows = distinctCount otherOf rows := by
  induction rows using List.reverseRecOn with
  | nil => rfl
  | append_singleton rest row inductionHypothesis =>
      have kept : ∀ {a : Row}, a ∈ rest → a ∈ rest ++ [row] := fun member =>
        List.mem_append_left _ member
      have last : row ∈ rest ++ [row] := List.mem_append_right _ (List.mem_singleton_self row)
      have known : labelOf row ∈ rest.map labelOf ↔ otherOf row ∈ rest.map otherOf := by
        simp only [List.mem_map]
        exact exists_congr fun a => and_congr_right fun member => same a (kept member) row last
      rw [distinctCount_snoc, distinctCount_snoc,
        inductionHypothesis fun a inA b inB => same a (kept inA) b (kept inB)]
      simp only [known]

end ProtocolExplorer.Lib
