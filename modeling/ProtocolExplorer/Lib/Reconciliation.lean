import ProtocolExplorer.Lib.KeyedTable

/-!
# Two tables compared

The keys of a table are those whose row another table has too, those whose row it has in another
form and those that it does not have.  A loop over the entries of a table, in any order, counts
keys.

* `card_keys_eq` — the three kinds of keys;
* `Listing.countP_eq` — a count of entries is a number of keys;
* `lookup_insertAll` — of several writes to one key the last one stays.
-/

set_option autoImplicit false

namespace ProtocolExplorer.Lib

namespace Table

variable {Key Row : Type} [DecidableEq Key]

/-! ## The kinds of keys -/

section Kinds

variable [DecidableEq Row] (left right : Table Key Row)

/-- The keys of both tables with one row. -/
def agreeing : Finset Key :=
  (left.keys ∩ right.keys).filter fun key => left.lookup key = right.lookup key

/-- The keys of both tables with different rows. -/
def differing : Finset Key :=
  (left.keys ∩ right.keys).filter fun key => left.lookup key ≠ right.lookup key

theorem agreeing_comm : agreeing left right = agreeing right left := by
  simp only [agreeing, Finset.inter_comm left.keys, eq_comm]

theorem differing_comm : differing left right = differing right left := by
  simp only [differing, Finset.inter_comm left.keys, ne_comm]

theorem mem_differing {left right : Table Key Row} {key : Key} :
    key ∈ differing left right ↔
      ∃ a b, left.lookup key = some a ∧ right.lookup key = some b ∧ a ≠ b := by
  simp only [differing, Finset.mem_filter, Finset.mem_inter, Finmap.mem_keys,
    ← Finmap.lookup_isSome]
  cases left.lookup key <;> cases right.lookup key <;> simp

/-- **Every key of a table** is one with the same row, a missing one or one with another row. -/
theorem card_keys_eq : left.keys.card =
    (agreeing left right).card + (left.keys \ right.keys).card + (differing left right).card := by
  have both : (agreeing left right).card + (differing left right).card =
      (left.keys ∩ right.keys).card :=
    Finset.card_filter_add_card_filter_not _
  have all := Finset.card_sdiff_add_card_inter left.keys right.keys
  omega

end Kinds

/-! ## Loops over the entries -/

/-- The entries of a table, in some order. -/
structure Listing (entries : List (Key × Row)) (table : Table Key Row) : Prop where
  nodup : (entries.map Prod.fst).Nodup
  mem_iff : ∀ key row, (key, row) ∈ entries ↔ table.lookup key = some row

variable {entries : List (Key × Row)} {table : Table Key Row}

/-- Every table has an order. -/
theorem exists_listing (table : Table Key Row) : ∃ entries, Listing entries table := by
  refine ⟨table.keys.toList.filterMap fun key => (table.lookup key).map fun row => (key, row),
    ?_, fun key row => ?_⟩
  · rw [List.map_filterMap]
    refine List.Nodup.filterMap (fun first second key here there => ?_) (Finset.nodup_toList _)
    simp only [Option.map_map, Option.mem_def, Option.map_eq_some_iff, Function.comp_apply]
      at here there
    obtain ⟨_, _, rfl⟩ := here
    obtain ⟨_, _, rfl⟩ := there
    rfl
  · simp only [List.mem_filterMap, Finset.mem_toList, Finmap.mem_keys, ← Finmap.lookup_isSome,
      Option.map_eq_some_iff, Prod.mk.injEq]
    constructor
    · rintro ⟨key, _, row, found, rfl, rfl⟩
      exact found
    · exact fun found => ⟨key, by rw [found]; rfl, row, found, rfl, rfl⟩

/-- The keys that some entries name. -/
theorem Listing.countP_eq (listing : Listing entries table) (p : Key × Row → Bool) :
    entries.countP p =
      (table.keys.filter fun key => (table.lookup key).any fun row => p (key, row)).card := by
  have distinct : ((entries.filter p).map Prod.fst).Nodup :=
    listing.nodup.sublist (List.filter_sublist.map _)
  have same : ((entries.filter p).map Prod.fst).toFinset =
      table.keys.filter fun key => (table.lookup key).any fun row => p (key, row) := by
    ext key
    simp only [List.mem_toFinset, List.mem_map, List.mem_filter, Prod.exists, exists_and_right,
      exists_eq_right, listing.mem_iff, Finset.mem_filter, Finmap.mem_keys,
      ← Finmap.lookup_isSome]
    cases table.lookup key <;> simp
  rw [List.countP_eq_length_filter, ← same, List.toFinset_card_of_nodup distinct, List.length_map]

/-- The entries whose row another table has too. -/
theorem Listing.countP_agreeing [DecidableEq Row] (listing : Listing entries table)
    (other : Table Key Row) :
    entries.countP (fun entry => decide (other.lookup entry.1 = some entry.2)) =
      (agreeing table other).card := by
  rw [listing.countP_eq]
  congr 1
  ext key
  simp only [agreeing, Finset.mem_filter, Finset.mem_inter, Finmap.mem_keys,
    ← Finmap.lookup_isSome, Option.any_eq_true, decide_eq_true_eq]
  constructor
  · rintro ⟨_, row, here, there⟩
    exact ⟨⟨by rw [here]; rfl, by rw [there]; rfl⟩, here.trans there.symm⟩
  · rintro ⟨⟨present, _⟩, same⟩
    obtain ⟨row, here⟩ := Option.isSome_iff_exists.mp present
    exact ⟨present, row, here, same ▸ here⟩

/-- The entries that another table does not have. -/
theorem Listing.countP_missing (listing : Listing entries table) (other : Table Key Row) :
    entries.countP (fun entry => decide (entry.1 ∉ other)) = (table.keys \ other.keys).card := by
  rw [listing.countP_eq]
  congr 1
  ext key
  simp only [Finset.mem_filter, Finset.mem_sdiff, Finmap.mem_keys, ← Finmap.lookup_isSome]
  cases table.lookup key <;> simp

/-! ## Writes in a row -/

/-- Some entries, written one after the other. -/
def insertAll (entries : List (Key × Row)) : Table Key Row :=
  entries.foldl (fun map entry => map.upsert entry.1 fun _ => entry.2) ∅

/-- The last row of a key. -/
def lastRow (entries : List (Key × Row)) (key : Key) : Option Row :=
  (entries.filter fun entry => entry.1 = key).getLast?.map Prod.snd

/-- Of several writes to one key the last one stays. -/
theorem lookup_insertAll (entries : List (Key × Row)) (key : Key) :
    (insertAll entries).lookup key = lastRow entries key := by
  induction entries using List.reverseRecOn with
  | nil => rfl
  | append_singleton front entry inductionHypothesis =>
      rw [insertAll, List.foldl_append, List.foldl_cons, List.foldl_nil, lookup_upsert, lastRow,
        List.filter_append]
      by_cases same : key = entry.1
      · subst same
        simp
      · have other : entry.1 ≠ key := Ne.symm same
        rw [if_neg same, List.filter_cons_of_neg (by simpa using other), List.filter_nil,
          List.append_nil]
        exact inductionHypothesis

/-- Written entries with a key each are the entries of the table. -/
theorem listing_insertAll (distinct : (entries.map Prod.fst).Nodup) :
    Listing entries (insertAll entries) where
  nodup := distinct
  mem_iff key row := by
    rw [lookup_insertAll, lastRow, Option.map_eq_some_iff]
    constructor
    · intro member
      have named : (key, row) ∈ entries.filter fun entry => entry.1 = key :=
        List.mem_filter.mpr ⟨member, decide_eq_true rfl⟩
      obtain ⟨last, isLast⟩ :=
        Option.isSome_iff_exists.mp (List.getLast?_isSome.mpr (List.ne_nil_of_mem named))
      obtain ⟨listed, own⟩ := List.mem_filter.mp (List.mem_of_getLast? isLast)
      have same : last = (key, row) :=
        List.inj_on_of_nodup_map distinct listed member (of_decide_eq_true own)
      exact ⟨last, isLast, congrArg Prod.snd same⟩
    · rintro ⟨last, isLast, rfl⟩
      obtain ⟨listed, own⟩ := List.mem_filter.mp (List.mem_of_getLast? isLast)
      obtain rfl := of_decide_eq_true own
      exact listed

end Table

end ProtocolExplorer.Lib
