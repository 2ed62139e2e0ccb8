import ProtocolExplorer.Lib.KeyedTable

/-!
# Grouped totals

Rows that carry a key, a serial number and a vector of summands are totalled per key: the
sums add up and the serial numbers keep their maximum.  A batch is folded into a table of
totals by one additive write per key.

* `rebuild_append` — the totals of two batches merge into the totals of both;
* `lookup_addTotals` — **what a table holds after the batch's keys have been written, in any
  order and also when only some of them have been**;
* `markFirst_append`, `markFirst_eq_of_seen` — counting first occurrences batch by batch
  agrees with counting them at once when the earlier batches are known.
-/

set_option autoImplicit false

namespace ProtocolExplorer.Lib

universe u v w

/-- A row's contribution to the total of its key. -/
structure Entry (Key : Type u) (Sums : Type v) where
  key : Key
  serial : ℤ
  sums : Sums

/-- A total, with the largest serial number that went into it. -/
structure Total (Sums : Type v) where
  sums : Sums
  latest : ℤ
  deriving DecidableEq

namespace Total

variable {Sums : Type v} {Stored : Type w}

instance [Add Sums] : Add (Total Sums) := ⟨fun a b => ⟨a.sums + b.sums, max a.latest b.latest⟩⟩

@[simp] theorem add_sums [Add Sums] (a b : Total Sums) : (a + b).sums = a.sums + b.sums := rfl

@[simp] theorem add_latest [Add Sums] (a b : Total Sums) :
    (a + b).latest = max a.latest b.latest := rfl

instance [AddCommMonoid Sums] : AddCommSemigroup (Total Sums) where
  add_assoc _ _ _ := congrArg₂ mk (add_assoc ..) (max_assoc ..)
  add_comm _ _ := congrArg₂ mk (add_comm ..) (max_comm ..)

/-- The total of no row. -/
def zero [Zero Sums] : Total Sums := ⟨0, 0⟩

theorem zero_add_zero [AddCommMonoid Sums] : (zero + zero : Total Sums) = zero :=
  congrArg₂ mk (add_zero 0) (max_self 0)

/-- Store the sums in another type. -/
def map (store : Sums → Stored) (total : Total Sums) : Total Stored :=
  ⟨store total.sums, total.latest⟩

end Total

/-! ## Totals of entries -/

section Totals

variable {Key : Type u} {Sums : Type v} {Stored : Type w} [AddCommMonoid Sums]

/-- Add up entries, starting from nothing. -/
def total (entries : List (Entry Key Sums)) : Total Sums :=
  entries.foldl (fun sum entry => sum + ⟨entry.sums, entry.serial⟩) Total.zero

theorem foldl_add_total (start : Total Sums) (entries : List (Entry Key Sums)) :
    entries.foldl (fun sum entry => sum + ⟨entry.sums, entry.serial⟩) (start + Total.zero) =
      start + total entries := by
  induction entries using List.reverseRecOn with
  | nil => rfl
  | append_singleton rest entry inductionHypothesis =>
      simp only [total, List.foldl_append, List.foldl_cons, List.foldl_nil]
      rw [inductionHypothesis, total, add_assoc]

theorem total_append (first second : List (Entry Key Sums)) :
    total (first ++ second) = total first + total second := by
  have absorbed : total first + Total.zero = total first := by
    have again := foldl_add_total Total.zero first
    rw [Total.zero_add_zero] at again
    rw [total, again, add_comm, ← add_assoc, Total.zero_add_zero]
  rw [total, List.foldl_append, ← foldl_add_total, absorbed]
  rfl

theorem total_sums (entries : List (Entry Key Sums)) :
    (total entries).sums = (entries.map Entry.sums).sum := by
  induction entries using List.reverseRecOn with
  | nil => rfl
  | append_singleton rest entry inductionHypothesis =>
      rw [total_append, Total.add_sums, inductionHypothesis, List.map_append, List.sum_append]
      simp [total, Total.zero]

/-- An additive column of a total. -/
theorem map_total_sums {Column : Type w} [AddCommMonoid Column] (column : Sums →+ Column)
    (entries : List (Entry Key Sums)) :
    column (total entries).sums = (entries.map fun entry => column entry.sums).sum := by
  rw [total_sums, map_list_sum, List.map_map]
  rfl

end Totals

section Rebuild

variable {Key : Type u} {Sums : Type v} {Stored : Type w} [DecidableEq Key]

/-- The entries of a key. -/
def entriesOf (key : Key) (entries : List (Entry Key Sums)) : List (Entry Key Sums) :=
  entries.filter fun entry => decide (entry.key = key)

/-- The keys of a batch. -/
def keysOf (entries : List (Entry Key Sums)) : List Key := (entries.map Entry.key).dedup

theorem mem_keysOf {key : Key} {entries : List (Entry Key Sums)} :
    key ∈ keysOf entries ↔ entriesOf key entries ≠ [] := by
  simp [keysOf, entriesOf, List.filter_eq_nil_iff]

variable [AddCommMonoid Sums]

/-- The total of a key, if it has entries. -/
def rebuild (key : Key) (entries : List (Entry Key Sums)) : Option (Total Sums) :=
  if entriesOf key entries = [] then none else some (total (entriesOf key entries))

theorem mem_keysOf_of_rebuild {key : Key} {entries : List (Entry Key Sums)} {sum : Total Sums}
    (present : sum ∈ rebuild key entries) : key ∈ keysOf entries := by
  rw [mem_keysOf]
  intro empty
  rw [rebuild, if_pos empty] at present
  cases present

theorem rebuild_nil (key : Key) : rebuild key ([] : List (Entry Key Sums)) = none := rfl

/-- **The totals of two batches merge.** -/
theorem rebuild_append (key : Key) (first second : List (Entry Key Sums)) :
    rebuild key (first ++ second) =
      Option.merge (· + ·) (rebuild key first) (rebuild key second) := by
  have split : entriesOf key (first ++ second) = entriesOf key first ++ entriesOf key second :=
    List.filter_append ..
  unfold rebuild
  rw [split]
  cases one : entriesOf key first with
  | nil => simp
  | cons entry rest =>
      cases two : entriesOf key second with
      | nil => simp
      | cons entry' rest' => simp [← total_append]

/-- Stored totals of two batches merge, when storing them apart loses nothing. -/
theorem map_rebuild_append [Add Stored] {store : Sums → Stored} {key : Key}
    {first second : List (Entry Key Sums)}
    (rounds : ∀ before ∈ rebuild key first, ∀ gained ∈ rebuild key second,
      store (before.sums + gained.sums) = store before.sums + store gained.sums) :
    (rebuild key (first ++ second)).map (Total.map store) =
      Option.merge (· + ·) ((rebuild key first).map (Total.map store))
        ((rebuild key second).map (Total.map store)) := by
  rw [rebuild_append]
  cases one : rebuild key first with
  | none => simp
  | some before =>
      cases two : rebuild key second with
      | none => simp
      | some gained => exact congrArg some (congrArg₂ Total.mk (rounds before one gained two) rfl)

end Rebuild

section Writes

variable {Key : Type u} {Stored : Type w} [DecidableEq Key] [Add Stored]

/-! ## Additive writes -/

/-- Insert a total, or add it to the stored one. -/
def addTotal (table : Table Key (Total Stored)) (key : Key) (sum : Total Stored) :
    Table Key (Total Stored) :=
  table.upsert key fun stored => stored.elim sum (· + sum)

/-- Write the totals of some keys, one statement each. -/
def addTotals (sums : Key → Total Stored) (keys : List Key) (table : Table Key (Total Stored)) :
    Table Key (Total Stored) :=
  keys.foldl (fun table key => addTotal table key (sums key)) table

/-- **The written keys gain their total, the others keep what they had.** -/
theorem lookup_addTotals (sums : Key → Total Stored) {keys : List Key} (distinct : keys.Nodup)
    (table : Table Key (Total Stored)) (key : Key) :
    (addTotals sums keys table).lookup key =
      Option.merge (· + ·) (table.lookup key) (if key ∈ keys then some (sums key) else none) := by
  induction keys generalizing table with
  | nil => simp [addTotals]
  | cons head rest inductionHypothesis =>
      have fresh := List.nodup_cons.mp distinct
      rw [addTotals, List.foldl_cons]
      refine (inductionHypothesis fresh.2 _).trans ?_
      rw [addTotal, Table.lookup_upsert]
      by_cases here : key = head
      · subst here
        rw [if_pos rfl, if_neg fresh.1, if_pos (List.mem_cons_self ..)]
        cases table.lookup key <;> rfl
      · rw [if_neg here]
        simp [here]

end Writes

/-! ## First occurrences -/

section FirstOccurrences

variable {Row : Type u} {Label : Type v} {labelsOf : Row → List Label}

/-- The labels seen after a list of rows. -/
def seenAfter (labelsOf : Row → List Label) (seen : List Label) (rows : List Row) : List Label :=
  rows.foldl (fun seen row => labelsOf row ++ seen) seen

theorem mem_seenAfter {seen : List Label} {rows : List Row} {label : Label} :
    label ∈ seenAfter labelsOf seen rows ↔
      label ∈ seen ∨ ∃ row ∈ rows, label ∈ labelsOf row := by
  induction rows generalizing seen with
  | nil => simp [seenAfter]
  | cons row rest inductionHypothesis =>
      rw [seenAfter, List.foldl_cons]
      refine (inductionHypothesis).trans ?_
      simp only [List.mem_append, List.mem_cons, exists_eq_or_imp]
      tauto

variable [DecidableEq Label]

/-- Pair every row with those of its labels that occur for the first time: neither on an
earlier row of the list, nor among `seen`, nor earlier according to `prior`. -/
def markFirst (labelsOf : Row → List Label) (prior : Row → Label → Bool) :
    List Label → List Row → List (Row × List Label)
  | _, [] => []
  | seen, row :: rest =>
      (row, (labelsOf row).filter fun label => !decide (label ∈ seen) && !prior row label) ::
        markFirst labelsOf prior (labelsOf row ++ seen) rest

theorem markFirst_append (prior : Row → Label → Bool) (seen : List Label)
    (first second : List Row) :
    markFirst labelsOf prior seen (first ++ second) =
      markFirst labelsOf prior seen first ++
        markFirst labelsOf prior (seenAfter labelsOf seen first) second := by
  induction first generalizing seen with
  | nil => rfl
  | cons row rest inductionHypothesis =>
      rw [List.cons_append, markFirst, markFirst, inductionHypothesis, List.cons_append]
      rfl

theorem mem_of_mem_markFirst {prior : Row → Label → Bool} {rows : List Row}
    {marked : Row × List Label} :
    ∀ {seen : List Label}, marked ∈ markFirst labelsOf prior seen rows → marked.1 ∈ rows := by
  induction rows with
  | nil => exact fun member => absurd member List.not_mem_nil
  | cons row rest inductionHypothesis =>
      intro seen member
      rcases List.mem_cons.mp member with rfl | later
      · exact List.mem_cons_self ..
      · exact List.mem_cons_of_mem _ (inductionHypothesis later)

theorem markFirst_nil (prior : Row → Label → Bool) (seen : List Label) :
    markFirst labelsOf prior seen [] = [] := rfl

/-- Marking some of the labels is part of marking all of them. -/
theorem map_filter_markFirst (counts : Label → Bool) (prior : Row → Label → Bool)
    (rows : List Row) :
    ∀ seen : List Label,
      (markFirst labelsOf prior seen rows).map
          (fun marked => (marked.1, marked.2.filter counts)) =
        markFirst (fun row => (labelsOf row).filter counts) prior (seen.filter counts) rows := by
  induction rows with
  | nil => exact fun _ => rfl
  | cons row rest inductionHypothesis =>
      intro seen
      rw [markFirst, markFirst, List.map_cons, inductionHypothesis, List.filter_append]
      refine congrArg₂ List.cons (congrArg (Prod.mk row) ?_) rfl
      rw [List.filter_filter, List.filter_filter]
      refine List.filter_congr fun label _ => ?_
      cases counted : counts label <;> simp [counted]

/-- Asking a predicate about the earlier rows is as good as having seen them, if it is right
about every label that the batch has not seen itself. -/
theorem markFirst_eq_of_seen {prior : Row → Label → Bool} {earlier : List Label}
    {rows : List Row} :
    ∀ {seen : List Label},
      (∀ before row after, rows = before ++ row :: after → ∀ label ∈ labelsOf row,
        label ∉ seen → (∀ other ∈ before, label ∉ labelsOf other) →
          (prior row label = true ↔ label ∈ earlier)) →
      markFirst labelsOf prior seen rows =
        markFirst labelsOf (fun _ _ => false) (seen ++ earlier) rows := by
  induction rows with
  | nil => exact fun _ => rfl
  | cons row rest inductionHypothesis =>
      intro seen right
      rw [markFirst, markFirst, ← List.append_assoc]
      refine congrArg₂ List.cons (congrArg (Prod.mk row) ?_) ?_
      · refine List.filter_congr fun label carried => ?_
        by_cases known : label ∈ seen
        · simp [known]
        · have agrees := right [] row rest rfl label carried known (by simp)
          cases asked : prior row label <;> simp_all
      · refine inductionHypothesis fun before other after split label carried new unseen => ?_
        refine right (row :: before) other after (by rw [split]; rfl) label carried
          (fun known => new (List.mem_append_right _ known)) fun earlierRow member => ?_
        rcases List.mem_cons.mp member with rfl | later
        · exact fun labelled => new (List.mem_append_left _ labelled)
        · exact unseen earlierRow later

/-- Restricted to the rows of one group, first occurrences are those of the group, when no
label is shared between groups. -/
theorem filter_markFirst {prior : Row → Label → Bool} {group : Row → Bool}
    (separate : ∀ a b : Row, ∀ label ∈ labelsOf a, label ∈ labelsOf b → group a = group b)
    {rows : List Row} :
    ∀ {seen seen' : List Label},
      (∀ row : Row, group row = true → ∀ label ∈ labelsOf row, (label ∈ seen ↔ label ∈ seen')) →
      (markFirst labelsOf prior seen rows).filter (fun marked => group marked.1) =
        markFirst labelsOf prior seen' (rows.filter group) := by
  induction rows with
  | nil => exact fun _ => rfl
  | cons row rest inductionHypothesis =>
      intro seen seen' agree
      rw [markFirst, List.filter_cons, List.filter_cons]
      cases inGroup : group row with
      | true =>
          rw [if_pos rfl, if_pos rfl, markFirst]
          refine congrArg₂ List.cons (congrArg (Prod.mk row) ?_) (inductionHypothesis ?_)
          · refine List.filter_congr fun label carried => ?_
            simp [agree row inGroup label carried]
          · intro other otherGroup label carried
            simp [agree other otherGroup label carried]
      | false =>
          rw [if_neg (by simp), if_neg (by simp)]
          refine inductionHypothesis fun other otherGroup label carried => ?_
          have foreign : label ∉ labelsOf row := by
            intro shared
            have same := separate row other label shared carried
            rw [inGroup, otherGroup] at same
            cases same
          rw [List.mem_append, or_iff_right foreign]
          exact agree other otherGroup label carried

end FirstOccurrences

end ProtocolExplorer.Lib
