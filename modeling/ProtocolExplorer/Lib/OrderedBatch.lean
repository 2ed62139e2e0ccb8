import Mathlib

/-!
# Ordered, limited batches

`orderBy key rows` is the stable sort of a query's rows and `orderedBatch key limit`
keeps its first `limit` rows.  A reader that walks a table by a progress key needs
two facts about such batches: nothing is left out below a fetched row
(`key_le_of_not_fetched`), and a batch shorter than its limit is the whole
selection (`mem_orderedBatch_of_short`).  Sorting commutes with filtering
(`filter_orderBy`), so a per-group stream read off one sorted query is the sorted
stream of that group.  `distinctOn` keeps the first row of each kind, `latest` is the
largest key of a finite set.
-/

set_option autoImplicit false

namespace ProtocolExplorer.Lib

universe u v

variable {Row : Type u} {Key : Type v} [LinearOrder Key]

/-- Stable sort by a key. -/
def orderBy (key : Row → Key) (rows : List Row) : List Row :=
  rows.insertionSort fun a b => key a ≤ key b

/-- The first `limit` rows in key order. -/
def orderedBatch (key : Row → Key) (limit : ℕ) (rows : List Row) : List Row :=
  (orderBy key rows).take limit

@[simp] theorem mem_orderBy {key : Row → Key} {rows : List Row} {row : Row} :
    row ∈ orderBy key rows ↔ row ∈ rows :=
  List.mem_insertionSort _

theorem orderBy_perm (key : Row → Key) (rows : List Row) : (orderBy key rows).Perm rows :=
  List.perm_insertionSort _ rows

theorem orderBy_pairwise (key : Row → Key) (rows : List Row) :
    (orderBy key rows).Pairwise fun a b => key a ≤ key b := by
  have : Std.Total fun a b : Row => key a ≤ key b := ⟨fun a b => le_total (key a) (key b)⟩
  have : IsTrans Row fun a b => key a ≤ key b := ⟨fun _ _ _ => le_trans⟩
  exact List.pairwise_insertionSort _ rows

theorem orderedInsert_of_forall_le (key : Row → Key) (row : Row) {rows : List Row}
    (least : ∀ b ∈ rows, key row ≤ key b) :
    rows.orderedInsert (fun a b => key a ≤ key b) row = row :: rows := by
  cases rows with
  | nil => rfl
  | cons head rest => exact if_pos (least head (List.mem_cons_self ..))

theorem filter_orderedInsert (key : Row → Key) (p : Row → Bool) (row : Row) {rows : List Row}
    (sorted : rows.Pairwise fun a b => key a ≤ key b) :
    (rows.orderedInsert (fun a b => key a ≤ key b) row).filter p =
      if p row then (rows.filter p).orderedInsert (fun a b => key a ≤ key b) row
      else rows.filter p := by
  induction rows with
  | nil => cases keep : p row <;> simp [keep]
  | cons head rest inductionHypothesis =>
      have ascending := List.pairwise_cons.mp sorted
      by_cases before : key row ≤ key head
      · -- the new row goes first, also among the rows that are kept
        have least : ∀ b ∈ head :: rest, key row ≤ key b := by
          intro b member
          rcases List.mem_cons.mp member with rfl | later
          · exact before
          · exact le_trans before (ascending.1 b later)
        rw [orderedInsert_of_forall_le key row least, orderedInsert_of_forall_le key row
          (fun b kept => least b (List.mem_filter.mp kept).1), List.filter_cons]
      · have later := inductionHypothesis ascending.2
        rw [List.orderedInsert_cons, if_neg before]
        cases keepHead : p head <;> cases keepRow : p row <;>
          simp [keepHead, keepRow, before, later]

/-- Filtering a sorted query is sorting the filtered rows. -/
theorem filter_orderBy (key : Row → Key) (p : Row → Bool) (rows : List Row) :
    (orderBy key rows).filter p = orderBy key (rows.filter p) := by
  induction rows with
  | nil => rfl
  | cons row rest inductionHypothesis =>
      have inserted := filter_orderedInsert key p row (orderBy_pairwise key rest)
      rw [inductionHypothesis] at inserted
      cases keep : p row <;> simpa [orderBy, List.filter_cons, keep] using inserted

/-- A map that keeps the keys commutes with sorting. -/
theorem orderBy_map {Image : Type v} {key : Row → Key} {key' : Image → Key} {f : Row → Image}
    (same : ∀ row, key' (f row) = key row) (rows : List Row) :
    orderBy key' (rows.map f) = (orderBy key rows).map f :=
  (List.map_insertionSort _ _ _ _ fun a _ b _ => by rw [same, same]).symm

/-- A sublist stays one when both lists are sorted. -/
theorem orderBy_sublist {key : Row → Key} {some_ rows : List Row} (sub : some_.Sublist rows) :
    (orderBy key some_).Sublist (orderBy key rows) := by
  have : IsTrans Row fun a b => key a ≤ key b := ⟨fun _ _ _ => le_trans⟩
  induction sub with
  | slnil => exact List.Sublist.refl _
  | cons row _ inductionHypothesis =>
      exact inductionHypothesis.trans (List.sublist_orderedInsert row _)
  | cons_cons row _ inductionHypothesis =>
      exact List.Sublist.orderedInsert_sublist row inductionHypothesis (orderBy_pairwise key _)

/-- A row with a smaller key stands before. -/
theorem mem_left_of_lt {key : Row → Key} {before after : List Row} {row earlier : Row}
    (sorted : (before ++ row :: after).Pairwise fun a b => key a ≤ key b)
    (member : earlier ∈ before ++ row :: after) (lower : key earlier < key row) :
    earlier ∈ before := by
  have later := (List.pairwise_cons.mp (List.pairwise_append.mp sorted).2.1).1
  rcases List.mem_append.mp member with inBefore | fromRow
  · exact inBefore
  · rcases List.mem_cons.mp fromRow with rfl | inAfter
    · exact absurd lower (lt_irrefl _)
    · exact absurd (later earlier inAfter) (not_le.mpr lower)

/-- Rows with a property come before the others if no other row stands before one of them. -/
theorem filter_append_filter_not {p : Row → Bool} {rows : List Row}
    (before : rows.Pairwise fun a b => p b = true → p a = true) :
    rows.filter p ++ rows.filter (fun row => !p row) = rows := by
  induction rows with
  | nil => rfl
  | cons row rest inductionHypothesis =>
      obtain ⟨first, others⟩ := List.pairwise_cons.mp before
      cases holds : p row with
      | true => simpa [holds] using inductionHypothesis others
      | false =>
          have none : ∀ later ∈ rest, p later = false := fun later member =>
            Bool.eq_false_iff.mpr fun true_ => by simp [first later member true_] at holds
          have nothing : rest.filter p = [] :=
            List.filter_eq_nil_iff.mpr fun later member => by simp [none later member]
          have all : rest.filter (fun row => !p row) = rest :=
            List.filter_eq_self.mpr fun later member => by simp [none later member]
          simp [holds, nothing, all]

/-- Sorted rows split at a bound. -/
theorem filter_append_filter_of_pairwise {key : Row → Key} {rows : List Row}
    (sorted : rows.Pairwise fun a b => key a ≤ key b) (bound : Key) :
    (rows.filter fun row => decide (key row ≤ bound)) ++
      (rows.filter fun row => decide (bound < key row)) = rows := by
  have split := @filter_append_filter_not _ (fun row => decide (key row ≤ bound)) rows
    (sorted.imp fun ordered below => decide_eq_true (ordered.trans (of_decide_eq_true below)))
  simpa only [← decide_not, not_le] using split

/-- The rows up to a bound come first. -/
theorem takeWhile_le_eq_filter {key : Row → Key} {rows : List Row}
    (sorted : rows.Pairwise fun a b => key a ≤ key b) (bound : Key) :
    (rows.takeWhile fun e => decide (key e ≤ bound)) =
      rows.filter fun e => decide (key e ≤ bound) := by
  induction rows with
  | nil => rfl
  | cons head rest inductionHypothesis =>
      have ascending := List.pairwise_cons.mp sorted
      by_cases before : key head ≤ bound
      · simp [before, inductionHypothesis ascending.2]
      · have later : ∀ e ∈ rest, ¬ key e ≤ bound := fun e member below =>
          before (le_trans (ascending.1 e member) below)
        simpa [before] using later

/-! ## Batches -/

theorem mem_of_mem_orderedBatch {key : Row → Key} {limit : ℕ} {rows : List Row} {row : Row}
    (fetched : row ∈ orderedBatch key limit rows) : row ∈ rows :=
  mem_orderBy.mp (List.mem_of_mem_take fetched)

/-- A row left out of a batch is not below any fetched row. -/
theorem key_le_of_not_fetched {key : Row → Key} {limit : ℕ} {rows : List Row} {a b : Row}
    (fetched : a ∈ orderedBatch key limit rows) (stored : b ∈ rows)
    (left_out : b ∉ orderedBatch key limit rows) : key a ≤ key b := by
  have sorted := orderBy_pairwise key rows
  rw [← List.take_append_drop limit (orderBy key rows)] at sorted
  refine (List.pairwise_append.mp sorted).2.2 a fetched b ?_
  have everywhere : b ∈ (orderBy key rows).take limit ++ (orderBy key rows).drop limit := by
    rw [List.take_append_drop]
    exact mem_orderBy.mpr stored
  exact (List.mem_append.mp everywhere).resolve_left left_out

/-- With distinct keys, a batch holds every selected row up to its largest key. -/
theorem mem_orderedBatch_of_le {key : Row → Key} {limit : ℕ} {rows : List Row} {a b : Row}
    (distinct : ∀ a ∈ rows, ∀ b ∈ rows, key a = key b → a = b)
    (fetched : a ∈ orderedBatch key limit rows) (stored : b ∈ rows) (below : key b ≤ key a) :
    b ∈ orderedBatch key limit rows := by
  by_contra left_out
  have above := key_le_of_not_fetched fetched stored left_out
  have same := distinct a (mem_of_mem_orderedBatch fetched) b stored (le_antisymm above below)
  exact left_out (same ▸ fetched)

/-- A batch that does not reach its limit is the whole selection. -/
theorem orderedBatch_perm_of_short {key : Row → Key} {limit : ℕ} {rows : List Row}
    (short : rows.length ≤ limit) : (orderedBatch key limit rows).Perm rows := by
  have whole : orderedBatch key limit rows = orderBy key rows :=
    List.take_of_length_le ((orderBy_perm key rows).length_eq ▸ short)
  rw [whole]
  exact orderBy_perm key rows

/-- Only an empty selection has an empty batch, when the limit is positive. -/
theorem orderedBatch_eq_nil {key : Row → Key} {limit : ℕ} (positive : 0 < limit)
    {rows : List Row} : orderedBatch key limit rows = [] ↔ rows = [] := by
  rw [orderedBatch, List.take_eq_nil_iff, ← List.length_eq_zero_iff (l := rows),
    ← (orderBy_perm key rows).length_eq, List.length_eq_zero_iff]
  exact or_iff_right (Nat.pos_iff_ne_zero.mp positive)

/-! ## One row of each kind -/

/-- `DISTINCT ON`: the first row of each key. -/
def distinctOn {Kind : Type v} [DecidableEq Kind] (kind : Row → Kind) : List Row → List Row
  | [] => []
  | row :: rest => row :: (distinctOn kind rest).filter fun other => decide (kind other ≠ kind row)

section DistinctOn

variable {Kind : Type v} [DecidableEq Kind] {kind : Row → Kind} {rows : List Row}

theorem mem_of_mem_distinctOn {row : Row} (kept : row ∈ distinctOn kind rows) : row ∈ rows := by
  induction rows with
  | nil => exact kept
  | cons head rest inductionHypothesis =>
      rcases List.mem_cons.mp kept with rfl | later
      · exact List.mem_cons_self ..
      · exact List.mem_cons_of_mem _ (inductionHypothesis (List.mem_of_mem_filter later))

/-- Every kind keeps a row. -/
theorem exists_mem_distinctOn {row : Row} (member : row ∈ rows) :
    ∃ kept ∈ distinctOn kind rows, kind kept = kind row := by
  induction rows with
  | nil => exact absurd member List.not_mem_nil
  | cons head rest inductionHypothesis =>
      rcases List.mem_cons.mp member with rfl | later
      · exact ⟨row, List.mem_cons_self .., rfl⟩
      · obtain ⟨kept, inRest, same⟩ := inductionHypothesis later
        by_cases first : kind kept = kind head
        · exact ⟨head, List.mem_cons_self .., first.symm.trans same⟩
        · exact ⟨kept, List.mem_cons_of_mem _ (List.mem_filter.mpr ⟨inRest, by simpa using first⟩),
            same⟩

end DistinctOn

/-- The largest key of a finite set. -/
def latest {α : Type v} [LinearOrder α] (keys : Finset α) : Option α := keys.max

theorem latest_eq_some {α : Type v} [LinearOrder α] {keys : Finset α} {key : α} :
    latest keys = some key ↔ key ∈ keys ∧ ∀ other ∈ keys, other ≤ key := by
  constructor
  · intro largest
    exact ⟨Finset.mem_of_max largest, fun other member => Finset.le_max_of_eq member largest⟩
  · rintro ⟨member, bound⟩
    have same : keys.max = (key : WithBot α) :=
      le_antisymm (Finset.max_le fun other inside => WithBot.coe_le_coe.mpr (bound other inside))
        (Finset.le_max member)
    exact same

theorem latest_eq_none {α : Type v} [LinearOrder α] {keys : Finset α} :
    latest keys = none ↔ keys = ∅ :=
  Finset.max_eq_bot

/-! ## The end of a batch -/

/-- Bounds of a running maximum. -/
theorem foldl_max_le_iff {values : List Key} {start bound : Key} :
    values.foldl max start ≤ bound ↔ start ≤ bound ∧ ∀ value ∈ values, value ≤ bound := by
  induction values generalizing start with
  | nil => simp
  | cons value rest inductionHypothesis =>
      rw [List.foldl_cons, inductionHypothesis, max_le_iff, List.forall_mem_cons, and_assoc]

/-! ## The keys of a finite table, in order -/

/-- A finite set as its sorted list.  `Finset.sort` merges by well-founded recursion;
insertion sort is structural, so a query over a concrete table evaluates. -/
def sortKeys {α : Type v} [LinearOrder α] (s : Finset α) : List α :=
  Quot.liftOn s.val (fun rows => rows.insertionSort (· ≤ ·)) fun a b perm =>
    List.Perm.eq_of_pairwise (fun _ _ _ _ => le_antisymm) (List.pairwise_insertionSort _ a)
      (List.pairwise_insertionSort _ b)
      ((List.perm_insertionSort _ a).trans (perm.trans (List.perm_insertionSort _ b).symm))

theorem mem_sortKeys {α : Type v} [LinearOrder α] {s : Finset α} {a : α} :
    a ∈ sortKeys s ↔ a ∈ s := by
  obtain ⟨⟨rows⟩, _⟩ := s
  exact List.mem_insertionSort _

theorem nodup_sortKeys {α : Type v} [LinearOrder α] (s : Finset α) : (sortKeys s).Nodup := by
  obtain ⟨⟨rows⟩, distinct⟩ := s
  exact (List.perm_insertionSort _ rows).nodup_iff.mpr distinct

/-! ## Chunks -/

/-- Chunking loses nothing. -/
theorem flatten_toChunks {α : Type v} (n : ℕ) (xs : List α) : (xs.toChunks n).flatten = xs := by
  have go : ∀ (m : ℕ) (xs : List α) (chunk : Array α) (chunks : Array (List α)),
      (List.toChunks.go m xs chunk chunks).flatten =
        chunks.toList.flatten ++ chunk.toList ++ xs := by
    intro m xs
    induction xs with
    | nil =>
        intro chunk chunks
        simp [List.toChunks.go]
    | cons x rest inductionHypothesis =>
        intro chunk chunks
        unfold List.toChunks.go
        split
        · rw [inductionHypothesis]
          simp
        · rw [inductionHypothesis]
          simp
  unfold List.toChunks
  split
  · rfl
  · simp
  · rw [go]
    simp

end ProtocolExplorer.Lib
