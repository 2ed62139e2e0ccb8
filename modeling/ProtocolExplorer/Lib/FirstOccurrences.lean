import ProtocolExplorer.Lib.CursorWalk

/-!
# First occurrences

`distinctOn` keeps the first row of each kind.  A reader that meets the rows one after another and
skips the kinds it has seen keeps the same rows, and what it has kept at any moment is the beginning
of what it keeps in the end.

* `distinctOn_concat`, `distinctOn_prefix` — one more row, and many more rows;
* `nodup_distinctOn` — no kind is kept twice;
* `key_le_of_mem_distinctOn` — **the first row of a kind in a sorted list is the least one**.
-/

set_option autoImplicit false

namespace ProtocolExplorer.Lib

universe u v w

variable {Row : Type u} {Kind : Type v} [DecidableEq Kind] (kind : Row → Kind)

/-- One more row is kept if its kind is new. -/
theorem distinctOn_concat (rows : List Row) (row : Row) : distinctOn kind (rows ++ [row]) =
    if kind row ∈ rows.map kind then distinctOn kind rows else distinctOn kind rows ++ [row] := by
  induction rows with
  | nil => rfl
  | cons head rest inductionHypothesis =>
      rw [List.cons_append, distinctOn, inductionHypothesis, distinctOn, List.map_cons]
      by_cases old : kind row ∈ rest.map kind
      · rw [if_pos old, if_pos (List.mem_cons_of_mem _ old)]
      · by_cases first : kind row = kind head
        · rw [if_neg old, if_pos (first ▸ List.mem_cons_self ..), List.filter_append]
          simp [first]
        · rw [if_neg old, if_neg (List.not_mem_cons_of_ne_of_not_mem first old),
            List.filter_append]
          simp [first]

theorem distinctOn_prefix (before after : List Row) :
    distinctOn kind before <+: distinctOn kind (before ++ after) := by
  induction after using List.reverseRecOn with
  | nil => rw [List.append_nil]
  | append_singleton after row inductionHypothesis =>
      rw [← List.append_assoc, distinctOn_concat]
      split_ifs
      · exact inductionHypothesis
      · exact inductionHypothesis.trans (List.prefix_append _ _)

theorem distinctOn_sublist (rows : List Row) : (distinctOn kind rows).Sublist rows := by
  induction rows with
  | nil => exact List.Sublist.refl _
  | cons head rest inductionHypothesis =>
      exact (List.filter_sublist.trans inductionHypothesis).cons_cons head

/-- No kind is kept twice. -/
theorem nodup_distinctOn (rows : List Row) : ((distinctOn kind rows).map kind).Nodup := by
  induction rows with
  | nil => exact List.nodup_nil
  | cons head rest inductionHypothesis =>
      rw [distinctOn, List.map_cons, List.nodup_cons]
      refine ⟨fun again => ?_, inductionHypothesis.sublist (List.filter_sublist.map kind)⟩
      obtain ⟨other, kept, same⟩ := List.mem_map.mp again
      exact of_decide_eq_true (List.mem_filter.mp kept).2 same

/-- Rows that are first come from rows that are first. -/
theorem distinctOn_map {Source : Type w} (f : Source → Row) (sources : List Source) :
    distinctOn kind (sources.map f) = (distinctOn (fun s => kind (f s)) sources).map f := by
  induction sources with
  | nil => rfl
  | cons head rest inductionHypothesis =>
      rw [List.map_cons, distinctOn, distinctOn, List.map_cons, inductionHypothesis,
        List.filter_map]
      rfl

variable {kind} {rows : List Row}

/-- The first row of a kind is the least. -/
theorem key_le_of_mem_distinctOn {Key : Type w} [LinearOrder Key] {key : Row → Key}
    (sorted : rows.Pairwise fun a b => key a ≤ key b) {kept row : Row}
    (first : kept ∈ distinctOn kind rows) (listed : row ∈ rows) (same : kind row = kind kept) :
    key kept ≤ key row := by
  induction rows with
  | nil => exact absurd listed List.not_mem_nil
  | cons head rest inductionHypothesis =>
      obtain ⟨least, ascending⟩ := List.pairwise_cons.mp sorted
      rcases List.mem_cons.mp first with rfl | later
      · rcases List.mem_cons.mp listed with rfl | tail
        · exact le_refl _
        · exact least row tail
      · obtain ⟨inRest, other⟩ := List.mem_filter.mp later
        rcases List.mem_cons.mp listed with rfl | tail
        · exact absurd same.symm (of_decide_eq_true other)
        · exact inductionHypothesis ascending inRest tail

/-- Sorted by a key that tells the rows' images apart, the images do not depend on the scan. -/
theorem map_orderBy_of_factors {Key : Type w} [LinearOrder Key] {Image : Type v} {key : Row → Key}
    {image : Row → Image} (order other : ScanOrder Row)
    (factors : ∀ a ∈ rows, ∀ b ∈ rows, key a = key b → image a = image b) :
    (order.orderBy key rows).map image = (other.orderBy key rows).map image := by
  have sameKeys : (order.orderBy key rows).map key = (other.orderBy key rows).map key :=
    (order.map_key_orderBy key rows).trans (other.map_key_orderBy key rows).symm
  have inFirst : ∀ a ∈ order.orderBy key rows, a ∈ rows :=
    fun a => (order.orderBy_perm key rows).mem_iff.mp
  have inSecond : ∀ b ∈ other.orderBy key rows, b ∈ rows :=
    fun b => (other.orderBy_perm key rows).mem_iff.mp
  generalize order.orderBy key rows = first at sameKeys inFirst
  generalize other.orderBy key rows = second at sameKeys inSecond
  induction first generalizing second with
  | nil =>
      rw [List.map_nil, eq_comm, List.map_eq_nil_iff] at sameKeys
      rw [sameKeys]
  | cons a rest inductionHypothesis =>
      cases second with
      | nil => cases sameKeys
      | cons b others =>
          rw [List.map_cons, List.map_cons] at sameKeys
          obtain ⟨head, tail⟩ := List.cons.inj sameKeys
          rw [List.map_cons, List.map_cons, factors a (inFirst a (List.mem_cons_self ..)) b
            (inSecond b (List.mem_cons_self ..)) head, inductionHypothesis
            (fun c member => inFirst c (List.mem_cons_of_mem a member)) others tail
            (fun c member => inSecond c (List.mem_cons_of_mem b member))]

end ProtocolExplorer.Lib
