import Mathlib

/-!
# Sums that count a thing once

Rows that carry an identity and a share are summed.  Several rows may belong to one identity, and
then the sum may count it more than once.

* `keyedSum_filter` — a sum that is converted key by key does not see shares of zero;
* `sum_eq_sum_distinct_iff` — a charge per occurrence is a charge per identity exactly if every
  identity occurs once or is free;
* `countedOnce_of_single`, `single_of_countedOnce` — **a sum of non-negative shares is a sum over
  rows of distinct identities exactly if no identity has two shares that are not zero.**
-/

set_option autoImplicit false

namespace ProtocolExplorer.Lib

universe u v w

variable {Row : Type u} {Key : Type v} {Id : Type w}

/-! ## Sums by key -/

section KeyedSums

variable {A B : Type*} [AddCommMonoid A] [AddCommMonoid B] [DecidableEq Key]

/-- The share of a key. -/
def shareOfKey (keyOf : Row → Key) (share : Row → A) (rows : List Row) (key : Key) : A :=
  ((rows.filter fun row => decide (keyOf row = key)).map share).sum

/-- The shares of every key, converted, and added up. -/
def keyedSum (convert : A → B) (keyOf : Row → Key) (share : Row → A) (rows : List Row) : B :=
  ∑ key ∈ (rows.map keyOf).toFinset, convert (shareOfKey keyOf share rows key)

variable {convert : A → B} {keyOf : Row → Key} {share : Row → A}

theorem shareOfKey_of_notMem {rows : List Row} {key : Key} (absent : key ∉ rows.map keyOf) :
    shareOfKey keyOf share rows key = 0 := by
  have empty : (rows.filter fun row => decide (keyOf row = key)) = [] := by
    refine List.filter_eq_nil_iff.mpr fun row member same => absent ?_
    exact List.mem_map.mpr ⟨row, member, of_decide_eq_true same⟩
  rw [shareOfKey, empty, List.map_nil, List.sum_nil]

/-- Any set of keys that has those of the rows will do. -/
theorem keyedSum_eq_sum (zero : convert 0 = 0) {rows : List Row} {keys : Finset Key}
    (all : ∀ row ∈ rows, keyOf row ∈ keys) :
    keyedSum convert keyOf share rows = ∑ key ∈ keys, convert (shareOfKey keyOf share rows key) := by
  refine Finset.sum_subset (fun key listed => ?_) fun key _ absent => ?_
  · obtain ⟨row, member, rfl⟩ := List.mem_map.mp (List.mem_toFinset.mp listed)
    exact all row member
  · rw [shareOfKey_of_notMem (fun member => absent (List.mem_toFinset.mpr member)), zero]

/-- Adding up key by key is adding up. -/
theorem keyedSum_id (rows : List Row) : keyedSum id keyOf share rows = (rows.map share).sum := by
  have all : ∀ row ∈ rows, keyOf row ∈ (rows.map keyOf).toFinset := fun row member =>
    List.mem_toFinset.mpr (List.mem_map_of_mem member)
  unfold keyedSum
  generalize (rows.map keyOf).toFinset = keys at all
  induction rows with
  | nil => exact Finset.sum_eq_zero fun key _ => rfl
  | cons row rest inductionHypothesis =>
      have cells : ∀ key, shareOfKey keyOf share (row :: rest) key =
          (if keyOf row = key then share row else 0) + shareOfKey keyOf share rest key := by
        intro key
        by_cases own : keyOf row = key <;> simp [shareOfKey, own]
      have here := all row (List.mem_cons_self ..)
      rw [List.map_cons, List.sum_cons,
        ← inductionHypothesis fun later member => all later (List.mem_cons_of_mem _ member)]
      simp only [id, cells, Finset.sum_add_distrib, Finset.sum_ite_eq, here, if_true]

/-- Dropping rows that contribute nothing keeps a sum. -/
theorem sum_map_filter {keep : Row → Bool} {rows : List Row}
    (nothing : ∀ row ∈ rows, keep row = false → share row = 0) :
    ((rows.filter keep).map share).sum = (rows.map share).sum := by
  induction rows with
  | nil => rfl
  | cons row rest inductionHypothesis =>
      have tail := inductionHypothesis fun later member =>
        nothing later (List.mem_cons_of_mem _ member)
      rw [List.filter_cons]
      split
      · rw [List.map_cons, List.sum_cons, tail, List.map_cons, List.sum_cons]
      · next dropped =>
          rw [tail, List.map_cons, List.sum_cons,
            nothing row (List.mem_cons_self ..) (by simpa using dropped), zero_add]

theorem keyedSum_filter (zero : convert 0 = 0) {keep : Row → Bool} {rows : List Row}
    (nothing : ∀ row ∈ rows, keep row = false → share row = 0) :
    keyedSum convert keyOf share (rows.filter keep) = keyedSum convert keyOf share rows := by
  have all : ∀ row ∈ rows.filter keep, keyOf row ∈ (rows.map keyOf).toFinset := by
    intro row member
    exact List.mem_toFinset.mpr (List.mem_map_of_mem (List.mem_of_mem_filter member))
  rw [keyedSum_eq_sum zero all, keyedSum]
  refine Finset.sum_congr rfl fun key _ => congrArg convert ?_
  unfold shareOfKey
  rw [List.filter_filter]
  have swap : (rows.filter fun row => decide (keyOf row = key) && keep row) =
      (rows.filter fun row => decide (keyOf row = key)).filter keep := by
    rw [List.filter_filter]
    exact List.filter_congr fun row _ => Bool.and_comm ..
  rw [swap]
  exact sum_map_filter fun row member => nothing row (List.mem_of_mem_filter member)

end KeyedSums

/-! ## Charges -/

section Charges

variable [DecidableEq Id]

/-- Charging every occurrence comes to charging every identity exactly if each occurs once or is
free of charge. -/
theorem sum_eq_sum_distinct_iff {ids : List Id} {charge : Id → ℕ} :
    (ids.map charge).sum = ∑ id ∈ ids.toFinset, charge id ↔
      ∀ id ∈ ids, ids.count id = 1 ∨ charge id = 0 := by
  have occurs : ∀ id ∈ ids.toFinset, charge id ≤ ids.count id • charge id := by
    intro id listed
    have positive : 0 < ids.count id := List.count_pos_iff.mpr (List.mem_toFinset.mp listed)
    exact Nat.le_mul_of_pos_left _ positive
  rw [Finset.sum_list_map_count, eq_comm, Finset.sum_eq_sum_iff_of_le occurs]
  simp only [List.mem_toFinset, smul_eq_mul]
  refine forall₂_congr fun id _ => ?_
  rcases eq_or_ne (charge id) 0 with free | costs
  · simp only [free, mul_zero, or_true]
  · rw [eq_comm, mul_eq_right₀ costs]
    simp only [costs, or_false]

end Charges

/-! ## Identities -/

section Identities

variable {A : Type*} [AddCommMonoid A] [DecidableEq A] {idOf : Row → Id} {share : Row → A}

/-- A sum over rows of distinct identities. -/
def CountedOnce (idOf : Row → Id) (share : Row → A) (rows counted : List Row) : Prop :=
  counted.Sublist rows ∧ (counted.map idOf).Nodup ∧ (counted.map share).sum = (rows.map share).sum

/-- No identity has two shares that are not zero. -/
def SingleShares (idOf : Row → Id) (share : Row → A) (rows : List Row) : Prop :=
  rows.Pairwise fun a b => idOf a = idOf b → share a = 0 ∨ share b = 0

/-- The rows that contribute. -/
def contributing (share : Row → A) (rows : List Row) : List Row :=
  rows.filter fun row => decide (share row ≠ 0)

theorem singleShares_iff {rows : List Row} :
    SingleShares idOf share rows ↔ ((contributing share rows).map idOf).Nodup := by
  rw [List.Nodup, List.pairwise_map, contributing, List.pairwise_filter]
  refine Iff.of_eq (congrArg (rows.Pairwise ·) (funext fun a => funext fun b => propext ?_))
  simp only [decide_eq_true_eq]
  tauto

theorem countedOnce_of_single {rows : List Row} (single : SingleShares idOf share rows) :
    CountedOnce idOf share rows (contributing share rows) := by
  refine ⟨List.filter_sublist, singleShares_iff.mp single, sum_map_filter fun row _ dropped => ?_⟩
  simpa using dropped

variable [PartialOrder A] [IsOrderedCancelAddMonoid A]

/-- Rows of a sublist with the whole sum of non-negative shares are all that contribute. -/
theorem contributing_eq_of_sum_eq {counted rows : List Row} (part : counted.Sublist rows)
    (nonneg : ∀ row ∈ rows, 0 ≤ share row)
    (whole : (counted.map share).sum = (rows.map share).sum) :
    contributing share counted = contributing share rows := by
  have below : ∀ {part rows : List Row}, part.Sublist rows → (∀ row ∈ rows, 0 ≤ share row) →
      (part.map share).sum ≤ (rows.map share).sum := by
    intro part rows sub
    induction sub with
    | slnil => exact fun _ => le_refl _
    | cons row _ inductionHypothesis =>
        intro nonneg
        rw [List.map_cons, List.sum_cons]
        exact le_trans (inductionHypothesis fun later member =>
          nonneg later (List.mem_cons_of_mem _ member))
          (le_add_of_nonneg_left (nonneg row (List.mem_cons_self ..)))
    | cons_cons row _ inductionHypothesis =>
        intro nonneg
        rw [List.map_cons, List.sum_cons, List.map_cons, List.sum_cons]
        exact add_le_add_right (inductionHypothesis fun later member =>
          nonneg later (List.mem_cons_of_mem _ member)) _
  induction part with
  | slnil => rfl
  | @cons counted rows row sub inductionHypothesis =>
      have later : ∀ other ∈ rows, 0 ≤ share other := fun other member =>
        nonneg other (List.mem_cons_of_mem _ member)
      rw [List.map_cons, List.sum_cons] at whole
      -- a row left out leaves no room for a share of its own
      have bounded : share row + (rows.map share).sum ≤ 0 + (rows.map share).sum := by
        rw [zero_add, ← whole]
        exact below sub later
      have none : share row = 0 :=
        le_antisymm (le_of_add_le_add_right bounded) (nonneg row (List.mem_cons_self ..))
      rw [none, zero_add] at whole
      rw [inductionHypothesis later whole, contributing, contributing, List.filter_cons_of_neg]
      simpa using none
  | @cons_cons counted rows row sub inductionHypothesis =>
      have later : ∀ other ∈ rows, 0 ≤ share other := fun other member =>
        nonneg other (List.mem_cons_of_mem _ member)
      rw [List.map_cons, List.sum_cons, List.map_cons, List.sum_cons] at whole
      have rest := inductionHypothesis later (add_left_cancel whole)
      unfold contributing at rest ⊢
      rw [List.filter_cons, List.filter_cons, rest]

/-- **A sum of non-negative shares over distinct identities has no second share to an
identity.** -/
theorem single_of_countedOnce {rows counted : List Row} (nonneg : ∀ row ∈ rows, 0 ≤ share row)
    (once : CountedOnce idOf share rows counted) : SingleShares idOf share rows := by
  obtain ⟨part, distinct, whole⟩ := once
  rw [singleShares_iff, ← contributing_eq_of_sum_eq part nonneg whole]
  exact distinct.sublist (List.filter_sublist.map idOf)

end Identities

end ProtocolExplorer.Lib
