import ProtocolExplorer.Lib.OrderedBatch

/-!
# Statements of several rows

An `INSERT` of several rows binds every column of every row.  Rows that are written in chunks make
one statement for each chunk.

* `length_boundBy` — the parameters of a statement, from its width;
* `length_le_of_mem_chunked` — those of a chunk, however many rows there are.
-/

set_option autoImplicit false

namespace ProtocolExplorer.Lib

universe u v

variable {Row : Type u} {Param : Type v} {columns : Row → List Param} {width size : ℕ}

/-- The parameters of one statement. -/
def boundBy (columns : Row → List Param) (rows : List Row) : List Param := rows.flatMap columns

/-- The statements of chunked rows. -/
def chunked (size : ℕ) (columns : Row → List Param) (rows : List Row) : List (List Param) :=
  (rows.toChunks size).map (boundBy columns)

theorem length_boundBy (wide : ∀ row, (columns row).length = width) (rows : List Row) :
    (boundBy columns rows).length = width * rows.length := by
  rw [boundBy, List.length_flatMap, List.map_congr_left fun row _ => wide row, List.map_const',
    List.sum_replicate, smul_eq_mul, mul_comm]

/-- A statement within a limit has at most so many rows. -/
theorem length_boundBy_le_iff (wide : ∀ row, (columns row).length = width) (positive : 0 < width)
    {limit : ℕ} {rows : List Row} :
    (boundBy columns rows).length ≤ limit ↔ rows.length ≤ limit / width := by
  rw [length_boundBy wide, Nat.le_div_iff_mul_le positive, mul_comm]

/-- A chunk is no longer than its size. -/
theorem length_le_of_mem_toChunks (positive : 0 < size) {rows chunk : List Row}
    (member : chunk ∈ rows.toChunks size) : chunk.length ≤ size := by
  -- the open chunk and the closed ones stay short along the loop
  have go : ∀ (rows : List Row) (current : Array Row) (closed : Array (List Row)),
      current.size ≤ size → (∀ chunk ∈ closed.toList, chunk.length ≤ size) →
        ∀ chunk ∈ List.toChunks.go size rows current closed, chunk.length ≤ size := by
    intro rows
    induction rows with
    | nil =>
        intro current closed short all chunk member
        rw [List.toChunks.go, Array.toList_push] at member
        rcases List.mem_append.mp member with earlier | last
        · exact all chunk earlier
        · rw [List.mem_singleton.mp last, Array.length_toList]
          exact short
    | cons row rest inductionHypothesis =>
        intro current closed short all
        unfold List.toChunks.go
        split
        · refine inductionHypothesis _ _ (Nat.succ_le_of_lt positive) fun chunk member => ?_
          rw [Array.toList_push] at member
          rcases List.mem_append.mp member with earlier | last
          · exact all chunk earlier
          · rw [List.mem_singleton.mp last, Array.length_toList]
            exact short
        · next notFull =>
            have below : current.size < size :=
              lt_of_le_of_ne short fun full => notFull (beq_iff_eq.mpr full)
            exact inductionHypothesis _ _ (by rw [Array.size_push]; exact below) all
  unfold List.toChunks at member
  split at member
  · cases member
  · exact absurd positive (lt_irrefl 0)
  · refine go _ _ _ ?_ (fun _ none => absurd none List.not_mem_nil) chunk member
    exact Nat.succ_le_of_lt positive

/-- A chunk of rows stays within a limit that a full chunk stays within. -/
theorem length_le_of_mem_chunked (wide : ∀ row, (columns row).length = width)
    (positive : 0 < size) {limit : ℕ} (within : width * size ≤ limit) {rows : List Row}
    {statement : List Param} (member : statement ∈ chunked size columns rows) :
    statement.length ≤ limit := by
  obtain ⟨chunk, inChunks, rfl⟩ := List.mem_map.mp member
  rw [length_boundBy wide]
  exact (Nat.mul_le_mul_left _ (length_le_of_mem_toChunks positive inChunks)).trans within

end ProtocolExplorer.Lib
