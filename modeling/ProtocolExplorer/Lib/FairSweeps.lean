import ProtocolExplorer.Lib.OrderedBatch

/-!
# Sweeps by age

A sweep serves a limited number of the items that are due, those with the oldest stamps first.
An item whose service fails keeps its stamp, and with it its place.

* `sweepBatch_cases` — a sweep serves all old items, or old items only;
* `card_left_le` — **with fewer failing items than places, every sweep gets rid of old ones**,
  until only failing ones are left.
-/

set_option autoImplicit false

namespace ProtocolExplorer.Lib

universe u v

variable {Item : Type u} {Stamp : Type v} [LinearOrder Item] [LinearOrder Stamp]

/-- The items a sweep serves. -/
def sweepBatch (stamp : Item → Stamp) (limit : ℕ) (due : Finset Item) : List Item :=
  orderedBatch (fun item => toLex (stamp item, item)) limit (sortKeys due)

section Batch

variable {stamp : Item → Stamp} {limit : ℕ} {due old failing : Finset Item}

theorem nodup_sweepBatch : (sweepBatch stamp limit due).Nodup :=
  ((orderBy_perm _ _).nodup_iff.mpr (nodup_sortKeys due)).sublist (List.take_sublist _ _)

theorem mem_due_of_mem_sweepBatch {item : Item} (swept : item ∈ sweepBatch stamp limit due) :
    item ∈ due :=
  mem_sortKeys.mp (mem_of_mem_orderedBatch swept)

theorem length_sortKeys {α : Type v} [LinearOrder α] (s : Finset α) :
    (sortKeys s).length = s.card := by
  have same : (sortKeys s).toFinset = s := Finset.ext fun a => by
    rw [List.mem_toFinset, mem_sortKeys]
  rw [← List.toFinset_card_of_nodup (nodup_sortKeys s), same]

/-- Who is left out is left out because the sweep is full. -/
theorem length_sweepBatch_of_left {item : Item} (isDue : item ∈ due)
    (left : item ∉ sweepBatch stamp limit due) : (sweepBatch stamp limit due).length = limit := by
  unfold sweepBatch orderedBatch at left ⊢
  rw [List.length_take]
  refine min_eq_left (le_of_not_gt fun short => left ?_)
  rw [List.take_of_length_le short.le]
  exact mem_orderBy.mpr (mem_sortKeys.mpr isDue)

/-- **A sweep serves all old items, or nothing but old items.** -/
theorem sweepBatch_cases (included : old ⊆ due)
    (older : ∀ item ∈ old, ∀ other ∈ due, other ∉ old → stamp item < stamp other) :
    (∀ item ∈ old, item ∈ sweepBatch stamp limit due) ∨
      (∀ item ∈ sweepBatch stamp limit due, item ∈ old) ∧
        (sweepBatch stamp limit due).length = limit := by
  by_cases all : ∀ item ∈ old, item ∈ sweepBatch stamp limit due
  · exact Or.inl all
  · push Not at all
    obtain ⟨item, isOld, left⟩ := all
    refine Or.inr ⟨fun other swept => ?_, length_sweepBatch_of_left (included isOld) left⟩
    by_contra young
    have before := key_le_of_not_fetched swept (mem_sortKeys.mpr (included isOld)) left
    have after := older item isOld other (mem_due_of_mem_sweepBatch swept) young
    exact absurd before (not_le.mpr (Prod.Lex.toLex_lt_toLex.mpr (Or.inl after)))

/-- **Old items get fewer with every sweep.**  Those that are neither failing nor served are gone,
or fewer by the places that failing items leave. -/
theorem card_left_le (included : old ⊆ due)
    (older : ∀ item ∈ old, ∀ other ∈ due, other ∉ old → stamp item < stamp other) :
    ((old \ failing) \ (sweepBatch stamp limit due).toFinset).card ≤
      (old \ failing).card - (limit - failing.card) := by
  rcases sweepBatch_cases included older with all | ⟨onlyOld, full⟩
  · have none : (old \ failing) \ (sweepBatch stamp limit due).toFinset = ∅ := by
      refine Finset.sdiff_eq_empty_iff_subset.mpr fun item member => ?_
      exact List.mem_toFinset.mpr (all item (Finset.mem_sdiff.mp member).1)
    rw [none, Finset.card_empty]
    exact Nat.zero_le _
  · have served : ((sweepBatch stamp limit due).toFinset \ failing) ⊆ old \ failing := by
      intro item member
      obtain ⟨swept, fine⟩ := Finset.mem_sdiff.mp member
      exact Finset.mem_sdiff.mpr ⟨onlyOld item (List.mem_toFinset.mp swept), fine⟩
    have same : (old \ failing) \ (sweepBatch stamp limit due).toFinset =
        (old \ failing) \ ((sweepBatch stamp limit due).toFinset \ failing) := by
      ext item
      simp only [Finset.mem_sdiff]
      tauto
    have places := Finset.le_card_sdiff failing (sweepBatch stamp limit due).toFinset
    rw [List.toFinset_card_of_nodup nodup_sweepBatch, full] at places
    rw [same, Finset.card_sdiff_of_subset served]
    omega

end Batch

end ProtocolExplorer.Lib
