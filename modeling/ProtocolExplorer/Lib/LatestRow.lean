import ProtocolExplorer.Lib.CursorWalk

/-!
# The latest row at or before a place

Of the rows whose key is at most some key, the latest is the one with the largest key.  It is the
last row that an ascending scan passes before it comes to a later row, and the first one of a
descending list.

* `isLatest_unique` — rows with different keys have one latest row;
* `scanRows_latest` — **the ascending scan ends at the latest row**;
* `firstDescending_latest` — **the descending list begins with it**.
-/

set_option autoImplicit false

namespace ProtocolExplorer.Lib

universe u v

variable {Row : Type u} {Key : Type v} [LinearOrder Key]

/-- A row at or before a place that none at or before it is later than. -/
structure IsLatest (key : Row → Key) (rows : List Row) (place : Key) (row : Row) : Prop where
  member : row ∈ rows
  reached : key row ≤ place
  largest : ∀ other ∈ rows, key other ≤ place → key other ≤ key row

/-- The latest row, or none if all rows are after the place. -/
def Latest (key : Row → Key) (rows : List Row) (place : Key) : Option Row → Prop
  | some row => IsLatest key rows place row
  | none => ∀ row ∈ rows, place < key row

/-- A scan that keeps the last row, until it comes to a row after the place. -/
def scanRows (key : Row → Key) (place : Key) : Option Row → List Row → Option Row
  | selected, [] => selected
  | selected, row :: rest =>
      if place < key row then selected else scanRows key place (some row) rest

/-- `ORDER BY … DESC LIMIT 1` of the rows at or before the place. -/
def firstDescending (order : ScanOrder Row) (key : Row → Key) (rows : List Row) (place : Key) :
    Option Row :=
  (order.orderBy (fun row => OrderDual.toDual (key row))
    (rows.filter fun row => decide (key row ≤ place))).head?

section

variable {key : Row → Key} {rows : List Row} {place : Key}

/-- Rows with different keys have one latest row. -/
theorem latest_unique (distinct : (rows.map key).Nodup) {first second : Option Row}
    (one : Latest key rows place first) (two : Latest key rows place second) : first = second := by
  cases first with
  | none =>
      cases second with
      | none => rfl
      | some row => exact absurd two.reached (not_le.mpr (one row two.member))
  | some row =>
      cases second with
      | none => exact absurd one.reached (not_le.mpr (two row one.member))
      | some other =>
          have same : key row = key other :=
            le_antisymm (two.largest row one.member one.reached)
              (one.largest other two.member two.reached)
          exact congrArg some (List.inj_on_of_nodup_map distinct one.member two.member same)

/-- The latest row of rows in another order. -/
theorem Latest.of_perm {other : List Row} {found : Option Row} (perm : rows.Perm other)
    (latest : Latest key rows place found) : Latest key other place found := by
  cases found with
  | none => exact fun row member => latest row (perm.mem_iff.mpr member)
  | some row =>
      exact ⟨perm.mem_iff.mp latest.member, latest.reached,
        fun row' member => latest.largest row' (perm.mem_iff.mpr member)⟩

/-- The scan keeps the last of the rows before the first one after the place. -/
theorem scanRows_eq (selected : Option Row) (rows : List Row) :
    scanRows key place selected rows =
      (rows.takeWhile fun row => decide (key row ≤ place)).getLast?.or selected := by
  induction rows generalizing selected with
  | nil => rfl
  | cons row rest inductionHypothesis =>
      rw [scanRows]
      by_cases after : place < key row
      · rw [if_pos after, List.takeWhile_cons_of_neg (by simpa using after)]
        rfl
      · rw [if_neg after, inductionHypothesis,
          List.takeWhile_cons_of_pos (by simpa using not_lt.mp after), List.getLast?_cons]
        cases (rest.takeWhile fun row => decide (key row ≤ place)).getLast? <;> rfl

/-- The last of ascending rows is the latest one. -/
theorem latest_getLast? {sorted : List Row} (ascending : sorted.Pairwise fun a b => key a ≤ key b) :
    Latest key sorted place
      (sorted.filter fun row => decide (key row ≤ place)).getLast? := by
  cases last : (sorted.filter fun row => decide (key row ≤ place)).getLast? with
  | none =>
      intro row member
      have nothing := List.filter_eq_nil_iff.mp (List.getLast?_eq_none_iff.mp last) row member
      simpa using nothing
  | some row =>
      obtain ⟨before, whole⟩ := List.getLast?_eq_some_iff.mp last
      have listed := List.mem_filter.mp (List.mem_of_getLast? last)
      refine ⟨listed.1, of_decide_eq_true listed.2, fun other member below => ?_⟩
      have kept := ascending.sublist (List.filter_sublist (p := fun row => decide (key row ≤ place)))
      have inside : other ∈ before ++ [row] := by
        rw [← whole]
        exact List.mem_filter.mpr ⟨member, decide_eq_true below⟩
      rw [whole] at kept
      rcases List.mem_append.mp inside with earlier | here
      · exact (List.pairwise_append.mp kept).2.2 other earlier row (List.mem_singleton_self row)
      · rw [List.mem_singleton.mp here]

/-- **The ascending scan ends at the latest row.** -/
theorem scanRows_latest (order : ScanOrder Row) (key : Row → Key) (rows : List Row) (place : Key) :
    Latest key rows place (scanRows key place none (order.orderBy key rows)) := by
  have ascending : (order.orderBy key rows).Pairwise fun a b => key a ≤ key b :=
    orderBy_pairwise key (order.scan rows)
  rw [scanRows_eq, Option.or_none, takeWhile_le_eq_filter ascending]
  exact (latest_getLast? ascending).of_perm (order.orderBy_perm key rows)

/-- **The descending list begins with the latest row.** -/
theorem firstDescending_latest (order : ScanOrder Row) (key : Row → Key) (rows : List Row)
    (place : Key) : Latest key rows place (firstDescending order key rows place) := by
  have perm := order.orderBy_perm (fun row => OrderDual.toDual (key row))
    (rows.filter fun row => decide (key row ≤ place))
  have descending : (order.orderBy (fun row => OrderDual.toDual (key row))
      (rows.filter fun row => decide (key row ≤ place))).Pairwise
        fun a b => OrderDual.toDual (key a) ≤ OrderDual.toDual (key b) :=
    orderBy_pairwise _ _
  rw [firstDescending]
  cases listed : order.orderBy (fun row => OrderDual.toDual (key row))
      (rows.filter fun row => decide (key row ≤ place)) with
  | nil =>
      rw [listed] at perm
      intro row member
      have nothing := List.filter_eq_nil_iff.mp (List.nil_perm.mp perm) row member
      simpa using nothing
  | cons row rest =>
      rw [listed] at perm descending
      have reached := List.mem_filter.mp (perm.mem_iff.mp (List.mem_cons_self ..))
      refine ⟨reached.1, of_decide_eq_true reached.2, fun other member below => ?_⟩
      have inside : other ∈ row :: rest :=
        perm.mem_iff.mpr (List.mem_filter.mpr ⟨member, decide_eq_true below⟩)
      rcases List.mem_cons.mp inside with rfl | later
      · exact le_refl _
      · exact OrderDual.toDual_le_toDual.mp ((List.pairwise_cons.mp descending).1 other later)

end

end ProtocolExplorer.Lib
