import ProtocolExplorer.Lib.BatchWalk
import ProtocolExplorer.Lib.KeysetPaging

/-!
# Paging over rows that share keys

A page is the first rows after a cursor, and the next cursor is the key of its last row.  Rows of
one key are listed in an order of the database's own, which may differ from query to query.

* `map_key_walkPages` — the keys of the pages are those of a walk over the sorted keys;
* `walkPages_subperm`, `walkPages_pairwise` — no row is listed twice, and the rows are in order;
* `walkPages_perm_iff` — **every row is listed once if and only if no page ends between two rows of
  one key**.
-/

set_option autoImplicit false

namespace ProtocolExplorer.Lib

universe u v

variable {Row : Type u} {Key : Type v} [LinearOrder Key]

/-- The order in which the database comes across rows. -/
structure ScanOrder (Row : Type u) where
  scan : List Row → List Row
  perm : ∀ rows, (scan rows).Perm rows

/-- `ORDER BY`: rows of one key come as they are scanned. -/
def ScanOrder.orderBy (order : ScanOrder Row) (key : Row → Key) (rows : List Row) : List Row :=
  Lib.orderBy key (order.scan rows)

/-- The pages from a cursor on; `goesOn` tells from the number of rows after the cursor whether the
page has a next one. -/
def walkPages (order : ScanOrder Row) (key : Row → Key) (limit : ℕ) (goesOn : ℕ → Bool)
    (rows : List Row) : ℕ → Option Key → List Row
  | 0, _ => []
  | pages + 1, cursor =>
      let left := order.orderBy key (afterCursor key cursor rows)
      left.take limit ++
        if goesOn left.length then
          ((left.take limit).getLast?.map key).elim [] fun next =>
            walkPages order key limit goesOn rows pages (some next)
        else []

section

variable {order : ScanOrder Row} {key : Row → Key} {limit : ℕ} {goesOn : ℕ → Bool}
  {rows : List Row} {cursor : Option Key}

theorem ScanOrder.orderBy_perm (order : ScanOrder Row) (key : Row → Key) (rows : List Row) :
    (order.orderBy key rows).Perm rows :=
  (Lib.orderBy_perm key _).trans (order.perm rows)

/-- Fewer rows are left behind a row than before it. -/
theorem length_afterCursor_lt {row : Row} (listed : row ∈ afterCursor key cursor rows) :
    (afterCursor key (some (key row)) rows).length < (afterCursor key cursor rows).length := by
  rw [← afterCursor_afterCursor (mem_afterCursor.mp listed).2]
  refine List.length_filter_lt_length_iff_exists.mpr ⟨row, listed, ?_⟩
  simp

/-- The keys of sorted rows are the sorted keys. -/
theorem map_key_orderBy (key : Row → Key) (rows : List Row) :
    (orderBy key rows).map key = orderBy id (rows.map key) := by
  have mapped : orderBy id (rows.map key) = (orderBy key rows).map key :=
    orderBy_map (fun _ => rfl) rows
  exact mapped.symm

/-- Sorted keys are determined by the keys. -/
theorem orderBy_id_of_perm {keys other : List Key} (perm : keys.Perm other) :
    orderBy id keys = orderBy id other :=
  List.Perm.eq_of_pairwise (fun _ _ _ _ => le_antisymm) (orderBy_pairwise (id : Key → Key) keys)
    (orderBy_pairwise (id : Key → Key) other)
    ((Lib.orderBy_perm id keys).trans (perm.trans (Lib.orderBy_perm id other).symm))

/-- The sorted keys do not depend on the scan. -/
theorem ScanOrder.map_key_orderBy (order : ScanOrder Row) (key : Row → Key) (rows : List Row) :
    (order.orderBy key rows).map key = Lib.orderBy id (rows.map key) := by
  rw [← orderBy_id_of_perm ((order.perm rows).map key)]
  exact Lib.map_key_orderBy key (order.scan rows)

/-- The keys behind the last key of a batch are the sorted keys past the batch. -/
theorem pastBatch_sortedKeys {next : Key}
    (ends : ((orderBy id ((afterCursor key cursor rows).map key)).take limit).getLast? =
      some next) :
    pastBatch id limit (orderBy id ((afterCursor key cursor rows).map key)) =
      orderBy id ((afterCursor key (some next) rows).map key) := by
  have sorted := orderBy_pairwise id ((afterCursor key cursor rows).map key)
  have reached : next ∈ (afterCursor key cursor rows).map key :=
    mem_orderBy.mp (List.mem_of_mem_take (List.mem_of_getLast? ends))
  obtain ⟨last, listed, rfl⟩ := List.mem_map.mp reached
  have later := (mem_afterCursor.mp listed).2
  rw [← afterCursor_afterCursor later]
  generalize afterCursor key cursor rows = left at *
  -- the taken keys are at most the last of them
  have past : ∀ k ∈ orderBy id (left.map key),
      ((orderBy id (left.map key)).take limit).all (fun taken => decide (taken < k)) =
        decide (key last < k) := by
    intro k _
    obtain ⟨before, whole⟩ := List.getLast?_eq_some_iff.mp ends
    have ascending := sorted.sublist (List.take_sublist limit _)
    rw [whole] at ascending ⊢
    refine Bool.eq_iff_iff.mpr ?_
    rw [List.all_eq_true, decide_eq_true_eq]
    constructor
    · exact fun all => of_decide_eq_true
        (all (key last) (List.mem_append_right _ (List.mem_singleton_self _)))
    · intro above taken member
      rcases List.mem_append.mp member with earlier | here
      · have atMost := (List.pairwise_append.mp ascending).2.2 taken earlier (key last)
          (List.mem_singleton_self _)
        exact decide_eq_true (lt_of_le_of_lt atMost above)
      · rw [List.mem_singleton.mp here]
        exact decide_eq_true above
  have filtered : pastBatch id limit (orderBy id (left.map key)) =
      (orderBy id (left.map key)).filter fun k => decide (key last < k) := List.filter_congr past
  rw [filtered, filter_orderBy, List.filter_map]
  rfl

/-- A batch of all keys leaves none. -/
theorem pastBatch_eq_nil {keys : List Key} (short : keys.length ≤ limit) :
    pastBatch id limit keys = [] :=
  List.sublist_nil.mp (List.drop_eq_nil_of_le short ▸ pastBatch_sublist_drop id limit keys)

theorem walk_nil (key : Row → Key) (limit pages : ℕ) : walk key limit pages [] = [] :=
  List.sublist_nil.mp (walk_sublist key limit pages [])

/-- **The keys of the pages are a walk over the sorted keys.** -/
theorem map_key_walkPages (order : ScanOrder Row) (positive : 0 < limit)
    (continues : ∀ n, limit < n → goesOn n = true) (pages : ℕ) :
    (walkPages order key limit goesOn rows pages cursor).map key =
      walk id limit pages (orderBy id ((afterCursor key cursor rows).map key)) := by
  induction pages generalizing cursor with
  | zero => rfl
  | succ pages inductionHypothesis =>
      have keys := order.map_key_orderBy key (afterCursor key cursor rows)
      rw [walkPages, walk]
      rw [List.map_append, List.map_take, keys]
      congr 1
      have sameLength : (order.orderBy key (afterCursor key cursor rows)).length =
          (orderBy id ((afterCursor key cursor rows).map key)).length := by
        rw [← keys, List.length_map]
      split_ifs with more
      · rw [← List.getLast?_map, List.map_take, keys]
        cases ends : ((orderBy id ((afterCursor key cursor rows).map key)).take limit).getLast? with
        | none =>
            have nothing := (List.take_eq_nil_iff.mp (List.getLast?_eq_none_iff.mp ends)).resolve_left
              (Nat.pos_iff_ne_zero.mp positive)
            rw [nothing, pastBatch_eq_nil (Nat.zero_le limit), walk_nil]
            rfl
        | some next =>
            rw [pastBatch_sortedKeys ends]
            exact inductionHypothesis
      · have short : (orderBy id ((afterCursor key cursor rows).map key)).length ≤ limit :=
          sameLength ▸ le_of_not_gt fun longer => more (continues _ longer)
        rw [pastBatch_eq_nil short, walk_nil]
        rfl

/-- No row is listed twice. -/
theorem walkPages_subperm (order : ScanOrder Row) (pages : ℕ) :
    (walkPages order key limit goesOn rows pages cursor).Subperm (afterCursor key cursor rows) := by
  induction pages generalizing cursor with
  | zero => exact List.nil_subperm
  | succ pages inductionHypothesis =>
      have sorted : (order.orderBy key (afterCursor key cursor rows)).Pairwise
          fun a b => key a ≤ key b := orderBy_pairwise key _
      have perm := order.orderBy_perm key (afterCursor key cursor rows)
      rw [walkPages]
      cases ends : ((order.orderBy key (afterCursor key cursor rows)).take limit).getLast? with
      | none =>
          rw [List.getLast?_eq_none_iff.mp ends]
          simp [List.nil_subperm]
      | some last =>
          have taken := List.mem_of_mem_take (List.mem_of_getLast? ends)
          have later := (mem_afterCursor.mp (perm.mem_iff.mp taken)).2
          refine List.Subperm.trans ?_ (List.filter_append_perm
            (fun row => decide (key row ≤ key last)) (afterCursor key cursor rows)).subperm
          refine List.Subperm.append ?_ ?_
          · -- the rows of the page have keys up to the last one
            obtain ⟨before, whole⟩ := List.getLast?_eq_some_iff.mp ends
            have ascending := sorted.sublist (List.take_sublist limit _)
            have low : ((order.orderBy key (afterCursor key cursor rows)).take limit).filter
                (fun row => decide (key row ≤ key last)) =
                (order.orderBy key (afterCursor key cursor rows)).take limit := by
              refine List.filter_eq_self.mpr fun row member => decide_eq_true ?_
              rw [whole] at member ascending
              rcases List.mem_append.mp member with earlier | here
              · exact (List.pairwise_append.mp ascending).2.2 row earlier last
                  (List.mem_singleton_self _)
              · exact le_of_eq (congrArg key (List.mem_singleton.mp here))
            rw [← low]
            exact ((List.take_sublist limit _).filter _).subperm.trans (perm.filter _).subperm
          · have beyond : (afterCursor key cursor rows).filter
                (fun row => !decide (key row ≤ key last)) =
                afterCursor key (some (key last)) rows := by
              rw [← afterCursor_afterCursor later]
              refine List.filter_congr fun row _ => ?_
              rw [← decide_not]
              exact decide_eq_decide.mpr not_le
            rw [beyond]
            split_ifs
            · exact inductionHypothesis
            · exact List.nil_subperm

/-- The rows of the pages are in key order. -/
theorem walkPages_pairwise (order : ScanOrder Row) (positive : 0 < limit)
    (continues : ∀ n, limit < n → goesOn n = true) (pages : ℕ) :
    (walkPages order key limit goesOn rows pages cursor).Pairwise fun a b => key a ≤ key b := by
  rw [← List.pairwise_map (f := key) (R := (· ≤ ·)), map_key_walkPages order positive continues]
  exact (orderBy_pairwise id _).sublist (walk_sublist id limit pages _)

theorem cutsNoKey_map {keys : List Row} :
    CutsNoKey id limit (keys.map key) ↔ CutsNoKey key limit keys := by
  unfold CutsNoKey
  simp only [← List.map_take, ← List.map_drop, List.forall_mem_map]
  rfl

/-- **Each row is listed once exactly when no page boundary falls between rows of one key.** -/
theorem walkPages_perm_iff (order : ScanOrder Row) (positive : 0 < limit)
    (continues : ∀ n, limit < n → goesOn n = true) {pages : ℕ}
    (enough : (afterCursor key cursor rows).length ≤ pages) :
    (walkPages order key limit goesOn rows pages cursor).Perm (afterCursor key cursor rows) ↔
      CutsNoKey key limit (orderBy key (afterCursor key cursor rows)) := by
  have keys := @map_key_walkPages _ _ _ key limit goesOn rows cursor order positive continues pages
  have sorted : (orderBy key (afterCursor key cursor rows)).map key =
      orderBy id ((afterCursor key cursor rows).map key) := Lib.map_key_orderBy key _
  have walked := walk_sublist id limit pages (orderBy id ((afterCursor key cursor rows).map key))
  have length : (orderBy id ((afterCursor key cursor rows).map key)).length =
      (afterCursor key cursor rows).length := by
    rw [← sorted, List.length_map, (Lib.orderBy_perm key _).length_eq]
  rw [← cutsNoKey_map, sorted, ← walk_perm_iff positive (length ▸ enough), ← keys]
  constructor
  · exact fun perm => (perm.map key).trans (Lib.orderBy_perm id _).symm
  · intro perm
    refine (walkPages_subperm order pages).perm_of_length_le ?_
    rw [← length, ← perm.length_eq, List.length_map]

end

end ProtocolExplorer.Lib
