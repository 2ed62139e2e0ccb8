import ProtocolExplorer.Lib.OrderedBatch

/-!
# Keyset paging

A list endpoint answers the first rows after a cursor, in key order, together with the key of
the last one when more rows follow.  A client asks again with that key until there is none.
Some endpoints give the key of the last row with every page; their client asks until a page is
empty.

* `follow_eq`, `followUntilEmpty_eq` — **with distinct keys, following the cursors enumerates
  every row once, in order**.
-/

set_option autoImplicit false

namespace ProtocolExplorer.Lib

universe u v

variable {Row : Type u} {Key : Type v} [LinearOrder Key]

/-- The rows after a cursor. -/
def afterCursor (key : Row → Key) (cursor : Option Key) (rows : List Row) : List Row :=
  rows.filter fun row => cursor.all fun bound => decide (bound < key row)

structure Page (Row : Type u) (Key : Type v) where
  data : List Row
  nextCursor : Option Key
  deriving DecidableEq

/-- One row more than the limit is fetched, to see whether there are more. -/
def page (key : Row → Key) (limit : ℕ) (rows : List Row) (cursor : Option Key) : Page Row Key :=
  let fetched := (orderBy key (afterCursor key cursor rows)).take (limit + 1)
  { data := fetched.take limit
    nextCursor :=
      if limit < fetched.length then (fetched.take limit).getLast?.map key else none }

/-- The rows of the pages from a cursor on; at most so many pages are asked for. -/
def follow (key : Row → Key) (limit : ℕ) (rows : List Row) : ℕ → Option Key → List Row
  | 0, _ => []
  | pages + 1, cursor =>
      let answer := page key limit rows cursor
      answer.data ++ answer.nextCursor.elim [] fun next =>
        follow key limit rows pages (some next)

/-- A page without a look at the next one; its cursor is the key of its last row. -/
def simplePage (key : Row → Key) (limit : ℕ) (rows : List Row) (cursor : Option Key) :
    Page Row Key :=
  let data := (orderBy key (afterCursor key cursor rows)).take limit
  ⟨data, data.getLast?.map key⟩

/-- The rows of the pages up to the first empty one. -/
def followUntilEmpty (key : Row → Key) (limit : ℕ) (rows : List Row) : ℕ → Option Key → List Row
  | 0, _ => []
  | pages + 1, cursor =>
      let answer := simplePage key limit rows cursor
      answer.data ++ answer.nextCursor.elim [] fun next =>
        followUntilEmpty key limit rows pages (some next)

section

variable {key : Row → Key} {limit : ℕ} {rows : List Row} {cursor : Option Key}

theorem mem_afterCursor {row : Row} :
    row ∈ afterCursor key cursor rows ↔ row ∈ rows ∧ ∀ bound ∈ cursor, bound < key row := by
  cases cursor <;> simp [afterCursor]

@[simp] theorem afterCursor_none : afterCursor key none rows = rows :=
  List.filter_eq_self.mpr fun _ _ => rfl

/-- A later cursor leaves out what an earlier one does. -/
theorem afterCursor_afterCursor {next : Key} (later : ∀ bound ∈ cursor, bound < next) :
    afterCursor key (some next) (afterCursor key cursor rows) =
      afterCursor key (some next) rows := by
  unfold afterCursor
  rw [List.filter_filter]
  refine List.filter_congr ?_
  intro row _
  cases cursor with
  | none => simp
  | some bound =>
      by_cases above : next < key row
      · simp [above, lt_trans (later bound rfl) above]
      · simp [above]

/-- With distinct keys, sorted rows ascend strictly. -/
theorem orderBy_pairwise_lt (distinct : (rows.map key).Nodup) :
    (orderBy key rows).Pairwise fun a b => key a < key b := by
  have ascending := orderBy_pairwise key rows
  have apart : ((orderBy key rows).map key).Nodup :=
    ((orderBy_perm key rows).map key).nodup_iff.mpr distinct
  exact (ascending.and (List.pairwise_map.mp apart)).imp fun both => lt_of_le_of_ne both.1 both.2

/-- The rows behind the last row of a page are those left out of it. -/
theorem afterCursor_getLast {sorted : List Row} (ascending : sorted.Pairwise fun a b => key a < key b)
    {last : Row} (ends : (sorted.take limit).getLast? = some last) :
    afterCursor key (some (key last)) sorted = sorted.drop limit := by
  have split := List.take_append_drop limit sorted
  obtain ⟨before, whole⟩ := List.getLast?_eq_some_iff.mp ends
  rw [← split] at ascending
  obtain ⟨inside, _, across⟩ := List.pairwise_append.mp ascending
  have passed : (sorted.take limit).filter
      (fun row => (some (key last)).all fun bound => decide (bound < key row)) = [] := by
    refine List.filter_eq_nil_iff.mpr ?_
    intro row member
    have atMost : key row ≤ key last := by
      rw [whole] at member inside
      rcases List.mem_append.mp member with earlier | here
      · exact le_of_lt
          ((List.pairwise_append.mp inside).2.2 row earlier last (List.mem_singleton_self last))
      · exact le_of_eq (congrArg key (List.mem_singleton.mp here))
    simpa using atMost
  have left : (sorted.drop limit).filter
      (fun row => (some (key last)).all fun bound => decide (bound < key row)) =
        sorted.drop limit := by
    refine List.filter_eq_self.mpr ?_
    intro row member
    simpa using across last (List.mem_of_getLast? ends) row member
  calc afterCursor key (some (key last)) sorted
      = afterCursor key (some (key last)) (sorted.take limit ++ sorted.drop limit) := by rw [split]
    _ = sorted.drop limit := by
        rw [afterCursor, List.filter_append, passed, left, List.nil_append]

/-- The rows behind the cursor of a page that ends with a row. -/
theorem orderBy_afterCursor_getLast (distinct : (rows.map key).Nodup) {last : Row}
    (ends : ((orderBy key (afterCursor key cursor rows)).take limit).getLast? = some last) :
    orderBy key (afterCursor key (some (key last)) rows) =
      (orderBy key (afterCursor key cursor rows)).drop limit := by
  have ascending : (orderBy key (afterCursor key cursor rows)).Pairwise
      fun a b => key a < key b :=
    orderBy_pairwise_lt (distinct.sublist (List.filter_sublist.map key))
  have listed : last ∈ afterCursor key cursor rows :=
    mem_orderBy.mp (List.mem_of_mem_take (List.mem_of_getLast? ends))
  rw [← afterCursor_getLast ascending ends, ← afterCursor_afterCursor
    (mem_afterCursor.mp listed).2]
  exact (filter_orderBy key _ _).symm

/-- A page, and the rows behind its cursor. -/
theorem page_cases (positive : 0 < limit) (distinct : (rows.map key).Nodup) :
    let wanted := orderBy key (afterCursor key cursor rows)
    (wanted.length ≤ limit ∧ page key limit rows cursor = ⟨wanted, none⟩) ∨
      ∃ next, page key limit rows cursor = ⟨wanted.take limit, some next⟩ ∧
        orderBy key (afterCursor key (some next) rows) = wanted.drop limit ∧
        limit < wanted.length := by
  intro wanted
  have taken : (wanted.take (limit + 1)).take limit = wanted.take limit := by
    rw [List.take_take, Nat.min_eq_left (Nat.le_succ limit)]
  by_cases short : wanted.length ≤ limit
  · left
    refine ⟨short, ?_⟩
    have noMore : ¬ limit < (wanted.take (limit + 1)).length := by
      rw [List.length_take]
      omega
    unfold page
    simp only
    rw [if_neg noMore, taken, List.take_of_length_le short]
  · right
    have more : limit < (wanted.take (limit + 1)).length := by
      rw [List.length_take]
      omega
    have nonempty : wanted.take limit ≠ [] := by
      intro nothing
      have none_ := congrArg List.length nothing
      rw [List.length_take, List.length_nil] at none_
      omega
    have ends : (wanted.take limit).getLast? = some ((wanted.take limit).getLast nonempty) :=
      List.getLast?_eq_some_getLast nonempty
    generalize (wanted.take limit).getLast nonempty = last at ends
    refine ⟨key last, ?_, orderBy_afterCursor_getLast distinct ends, by omega⟩
    unfold page
    simp only
    rw [if_pos more, taken]
    exact congrArg (Page.mk _) (congrArg (Option.map key) ends)

/-- **Following the cursors lists the rows after the first one, each once and in order.** -/
theorem follow_eq (positive : 0 < limit) (distinct : (rows.map key).Nodup) {pages : ℕ}
    (enough : (afterCursor key cursor rows).length < pages) :
    follow key limit rows pages cursor = orderBy key (afterCursor key cursor rows) := by
  induction pages generalizing cursor with
  | zero => omega
  | succ pages inductionHypothesis =>
      have sameLength := (orderBy_perm key (afterCursor key cursor rows)).length_eq
      rw [follow]
      rcases page_cases positive distinct with
        ⟨_, answered⟩ | ⟨next, answered, rest, longer⟩
      · rw [answered]
        exact List.append_nil _
      · have fewer : (afterCursor key (some next) rows).length < pages := by
          rw [← (orderBy_perm key (afterCursor key (some next) rows)).length_eq, rest,
            List.length_drop]
          omega
        rw [answered]
        show _ ++ follow key limit rows pages (some next) = _
        rw [inductionHypothesis fewer, rest, List.take_append_drop]

/-- **Asking until a page is empty lists the same rows.** -/
theorem followUntilEmpty_eq (positive : 0 < limit) (distinct : (rows.map key).Nodup) {pages : ℕ}
    (enough : (afterCursor key cursor rows).length < pages) :
    followUntilEmpty key limit rows pages cursor = orderBy key (afterCursor key cursor rows) := by
  induction pages generalizing cursor with
  | zero => omega
  | succ pages inductionHypothesis =>
      rw [followUntilEmpty, simplePage]
      simp only
      cases ends : ((orderBy key (afterCursor key cursor rows)).take limit).getLast? with
      | none =>
          have nothing := List.getLast?_eq_none_iff.mp ends
          have empty : orderBy key (afterCursor key cursor rows) = [] :=
            (List.take_eq_nil_iff.mp nothing).resolve_left (Nat.pos_iff_ne_zero.mp positive)
          rw [empty, List.take_nil]
          rfl
      | some last =>
          have rest := orderBy_afterCursor_getLast distinct ends
          have nonempty : 0 < (orderBy key (afterCursor key cursor rows)).length :=
            List.length_pos_of_mem (List.mem_of_mem_take (List.mem_of_getLast? ends))
          have sameLength := (orderBy_perm key (afterCursor key cursor rows)).length_eq
          have fewer : (afterCursor key (some (key last)) rows).length < pages := by
            rw [← (orderBy_perm key (afterCursor key (some (key last)) rows)).length_eq, rest,
              List.length_drop]
            omega
          show _ ++ followUntilEmpty key limit rows pages (some (key last)) = _
          rw [inductionHypothesis fewer, rest, List.take_append_drop]

end

end ProtocolExplorer.Lib
