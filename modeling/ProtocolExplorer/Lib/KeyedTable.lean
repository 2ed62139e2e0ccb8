import Mathlib

/-!
# Keyed tables

A table with a primary key is a finite map from keys to rows.  The write statements
are `upsert` (insert, or update the row that is there), `insertNew` (insert, do
nothing on conflict) and `modify` (update the row that is there, if there is one).  The lemmas say what one key holds afterwards;
a batch of writes is a fold, and `lookup_foldl_upsert_of_notMem` is its frame rule.
-/

set_option autoImplicit false

namespace ProtocolExplorer.Lib

universe u v w

/-- Rows of type `Row` under a primary key. -/
abbrev Table (Key : Type u) (Row : Type v) := Finmap fun _ : Key => Row

namespace Table

variable {Key : Type u} {Row : Type v} [DecidableEq Key]

/-- `INSERT … ON CONFLICT DO UPDATE`: the new row may depend on the stored one. -/
def upsert (table : Table Key Row) (key : Key) (write : Option Row → Row) : Table Key Row :=
  table.insert key (write (table.lookup key))

/-- `INSERT … ON CONFLICT DO NOTHING`. -/
def insertNew (table : Table Key Row) (key : Key) (row : Row) : Table Key Row :=
  table.upsert key fun stored => stored.getD row

/-- `UPDATE … WHERE` the key: nothing happens when there is no such row. -/
def modify (table : Table Key Row) (key : Key) (write : Row → Row) : Table Key Row :=
  match table.lookup key with
  | none => table
  | some stored => table.insert key (write stored)

theorem lookup_upsert (table : Table Key Row) (key other : Key) (write : Option Row → Row) :
    (table.upsert key write).lookup other =
      if other = key then some (write (table.lookup key)) else table.lookup other := by
  split
  · next same => rw [same, upsert, Finmap.lookup_insert]
  · next different => rw [upsert, Finmap.lookup_insert_of_ne _ different]

@[simp] theorem lookup_upsert_self (table : Table Key Row) (key : Key)
    (write : Option Row → Row) :
    (table.upsert key write).lookup key = some (write (table.lookup key)) := by
  simp [lookup_upsert]

theorem lookup_upsert_of_ne {table : Table Key Row} {key other : Key}
    {write : Option Row → Row} (different : other ≠ key) :
    (table.upsert key write).lookup other = table.lookup other := by
  simp [lookup_upsert, different]

theorem lookup_modify (table : Table Key Row) (key other : Key) (write : Row → Row) :
    (table.modify key write).lookup other =
      if other = key then (table.lookup key).map write else table.lookup other := by
  unfold modify
  by_cases same : other = key
  · subst same
    cases present : table.lookup other <;> simp [present]
  · cases table.lookup key <;> simp [same, Finmap.lookup_insert_of_ne]

/-- A conflicting insert changes nothing. -/
theorem insertNew_of_lookup {table : Table Key Row} {key : Key} {stored : Row}
    (present : table.lookup key = some stored) (row : Row) :
    table.insertNew key row = table := by
  refine Finmap.ext_lookup fun other => ?_
  rw [insertNew, lookup_upsert]
  split
  · next same => rw [same, present, Option.getD_some]
  · rfl

theorem mem_upsert {table : Table Key Row} {key other : Key} {write : Option Row → Row} :
    other ∈ table.upsert key write ↔ other = key ∨ other ∈ table :=
  Finmap.mem_insert

/-! ## Batches of writes -/

variable {Write : Type w}

/-- The keys after a batch of conflict-free inserts. -/
theorem mem_foldl_insertNew (keyOf : Write → Key) (rowOf : Write → Row) {writes : List Write}
    {key : Key} (table : Table Key Row) :
    key ∈ writes.foldl (fun t w => t.insertNew (keyOf w) (rowOf w)) table ↔
      key ∈ table ∨ ∃ w ∈ writes, keyOf w = key := by
  induction writes generalizing table with
  | nil => simp
  | cons w rest inductionHypothesis =>
      rw [List.foldl_cons, inductionHypothesis, insertNew, mem_upsert]
      constructor
      · rintro ((rfl | stored) | ⟨w', member, same⟩)
        · exact Or.inr ⟨w, List.mem_cons_self .., rfl⟩
        · exact Or.inl stored
        · exact Or.inr ⟨w', List.mem_cons_of_mem _ member, same⟩
      · rintro (stored | ⟨w', member, rfl⟩)
        · exact Or.inl (Or.inr stored)
        · rcases List.mem_cons.mp member with rfl | later
          · exact Or.inl (Or.inl rfl)
          · exact Or.inr ⟨w', later, rfl⟩

/-- A stored row survives a batch of inserts. -/
theorem lookup_foldl_insertNew_of_lookup (keyOf : Write → Key) (rowOf : Write → Row)
    {writes : List Write} {key : Key} {stored : Row} {table : Table Key Row}
    (present : table.lookup key = some stored) :
    (writes.foldl (fun t w => t.insertNew (keyOf w) (rowOf w)) table).lookup key =
      some stored := by
  induction writes generalizing table with
  | nil => exact present
  | cons w rest inductionHypothesis =>
      have kept : (table.insertNew (keyOf w) (rowOf w)).lookup key = some stored := by
        rw [insertNew, lookup_upsert]
        split
        · next same => rw [← same, present, Option.getD_some]
        · exact present
      exact inductionHypothesis kept

/-- Inserts under keys that are there change nothing. -/
theorem foldl_insertNew_eq_self (keyOf : Write → Key) (rowOf : Write → Row) {writes : List Write}
    {table : Table Key Row} (present : ∀ w ∈ writes, keyOf w ∈ table) :
    writes.foldl (fun t w => t.insertNew (keyOf w) (rowOf w)) table = table := by
  induction writes with
  | nil => rfl
  | cons w rest inductionHypothesis =>
      obtain ⟨stored, found⟩ := Finmap.mem_iff.mp (present w (List.mem_cons_self ..))
      rw [List.foldl_cons, insertNew_of_lookup found]
      exact inductionHypothesis fun w' member => present w' (List.mem_cons_of_mem _ member)

/-- Keys that no write of a batch names keep their rows. -/
theorem lookup_foldl_upsert_of_notMem (keyOf : Write → Key) (rowOf : Write → Option Row → Row)
    {writes : List Write} {key : Key} (untouched : ∀ w ∈ writes, keyOf w ≠ key)
    (table : Table Key Row) :
    (writes.foldl (fun t w => t.upsert (keyOf w) (rowOf w)) table).lookup key =
      table.lookup key := by
  induction writes generalizing table with
  | nil => rfl
  | cons w rest inductionHypothesis =>
      rw [List.foldl_cons, inductionHypothesis
        (fun w' member => untouched w' (List.mem_cons_of_mem _ member))]
      exact lookup_upsert_of_ne (untouched w (List.mem_cons_self ..)).symm

/-! ## Growing a table -/

/-- Every row of the first table is in the second, whose other rows are as stated. -/
structure Grown (offered : Key → Row → Prop) (before after : Table Key Row) : Prop where
  kept : ∀ key row, before.lookup key = some row → after.lookup key = some row
  fresh : ∀ key row, after.lookup key = some row →
    before.lookup key = some row ∨ before.lookup key = none ∧ offered key row

section Grown

variable {offered : Key → Row → Prop} {before middle after : Table Key Row}

theorem Grown.refl (table : Table Key Row) : Grown offered table table :=
  ⟨fun _ _ found => found, fun _ _ found => Or.inl found⟩

theorem Grown.trans (first : Grown offered before middle) (second : Grown offered middle after) :
    Grown offered before after := by
  refine ⟨fun key row found => second.kept key row (first.kept key row found),
    fun key row found => ?_⟩
  rcases second.fresh key row found with earlier | ⟨absent, isOffered⟩
  · exact first.fresh key row earlier
  · refine Or.inr ⟨?_, isOffered⟩
    cases present : before.lookup key with
    | none => rfl
    | some old =>
        rw [first.kept key old present] at absent
        cases absent

theorem Grown.mono {offered' : Key → Row → Prop} (grown : Grown offered before after)
    (weaker : ∀ key row, offered key row → offered' key row) : Grown offered' before after :=
  ⟨grown.kept, fun key row found => (grown.fresh key row found).imp_right
    (And.imp_right (weaker key row))⟩

theorem Grown.mem (grown : Grown offered before after) {key : Key} (member : key ∈ before) :
    key ∈ after := by
  obtain ⟨row, found⟩ := Finmap.mem_iff.mp member
  exact Finmap.mem_iff.mpr ⟨row, grown.kept key row found⟩

/-- A key for which nothing is offered keeps what it has. -/
theorem Grown.lookup_eq (grown : Grown offered before after) {key : Key}
    (nothing : ∀ row, ¬ offered key row) : after.lookup key = before.lookup key := by
  cases found : after.lookup key with
  | none =>
      cases stored : before.lookup key with
      | none => rfl
      | some row =>
          rw [grown.kept key row stored] at found
          cases found
  | some row =>
      rcases grown.fresh key row found with stored | ⟨_, isOffered⟩
      · exact stored.symm
      · exact absurd isOffered (nothing row)

theorem grown_insertNew {key : Key} {row : Row} (isOffered : offered key row)
    (table : Table Key Row) : Grown offered table (table.insertNew key row) := by
  refine ⟨fun other old found => ?_, fun other new found => ?_⟩
  · rw [insertNew, lookup_upsert]
    split
    · next same => rw [← same, found, Option.getD_some]
    · exact found
  · rw [insertNew, lookup_upsert] at found
    split at found
    · next same =>
        subst same
        cases stored : table.lookup other with
        | none =>
            rw [stored] at found
            cases found
            exact Or.inr ⟨rfl, isOffered⟩
        | some old =>
            rw [stored] at found
            exact Or.inl found
    · exact Or.inl found

/-- A batch of inserts grows a table by what it offers. -/
theorem grown_foldl_insertNew (keyOf : Write → Key) (rowOf : Write → Row) {writes : List Write}
    (areOffered : ∀ w ∈ writes, offered (keyOf w) (rowOf w)) (table : Table Key Row) :
    Grown offered table (writes.foldl (fun t w => t.insertNew (keyOf w) (rowOf w)) table) := by
  induction writes generalizing table with
  | nil => exact Grown.refl table
  | cons w rest inductionHypothesis =>
      rw [List.foldl_cons]
      exact (grown_insertNew (areOffered w (List.mem_cons_self ..)) table).trans
        (inductionHypothesis (fun w' member => areOffered w' (List.mem_cons_of_mem _ member)) _)

/-- A batch stores what it offers under a fresh key, when it offers one row per key. -/
theorem lookup_foldl_insertNew_of_fresh (keyOf : Write → Key) (rowOf : Write → Row)
    {writes : List Write} {table : Table Key Row} {w : Write}
    (functional : ∀ w' ∈ writes, keyOf w' = keyOf w → rowOf w' = rowOf w) (member : w ∈ writes)
    (fresh : keyOf w ∉ table) :
    (writes.foldl (fun t w => t.insertNew (keyOf w) (rowOf w)) table).lookup (keyOf w) =
      some (rowOf w) := by
  obtain ⟨row, found⟩ := Finmap.mem_iff.mp
    ((mem_foldl_insertNew keyOf rowOf table).mpr (Or.inr ⟨w, member, rfl⟩))
  rw [found]
  have grown : Grown (fun key row => ∃ w ∈ writes, keyOf w = key ∧ rowOf w = row) table _ :=
    grown_foldl_insertNew keyOf rowOf (fun w' member' => ⟨w', member', rfl, rfl⟩) table
  rcases grown.fresh _ row found with stored | ⟨_, w', member', same, rfl⟩
  · exact absurd (Finmap.mem_of_lookup_eq_some stored) fresh
  · rw [functional w' member' same]

/-- **Two tables grown from one, with the same keys, have the same contents**, when the
contents of what is offered depend on the key alone. -/
theorem Grown.map_lookup_eq {Content : Type w} (content : Row → Content) {other : Table Key Row}
    (functional : ∀ key row row', offered key row → offered key row' → content row = content row')
    (first : Grown offered before after) (second : Grown offered before other)
    (sameKeys : ∀ key, key ∈ after ↔ key ∈ other) (key : Key) :
    (after.lookup key).map content = (other.lookup key).map content := by
  cases one : after.lookup key with
  | none =>
      have absent : key ∉ other := by
        rw [← sameKeys, ← Finmap.lookup_eq_none]
        exact one
      rw [Finmap.lookup_eq_none.mpr absent]
  | some row =>
      obtain ⟨row', two⟩ := Finmap.mem_iff.mp ((sameKeys key).mp (Finmap.mem_iff.mpr ⟨row, one⟩))
      rw [two]
      refine congrArg some ?_
      rcases first.fresh key row one with old | ⟨absent, isOffered⟩
      · rw [second.kept key row old] at two
        cases two
        rfl
      · rcases second.fresh key row' two with old | ⟨_, isOffered'⟩
        · rw [absent] at old
          cases old
        · exact functional key row row' isOffered isOffered'

end Grown

/-! ## Rewriting a set of keys -/

/-- Replace the row of a key, or delete it. -/
def rewriteKey (row : Key → Option Row) (key : Key) (table : Table Key Row) : Table Key Row :=
  (row key).elim (table.erase key) fun new => table.insert key new

theorem lookup_rewriteKey (row : Key → Option Row) (key other : Key) (table : Table Key Row) :
    (rewriteKey row key table).lookup other = if other = key then row key else table.lookup other := by
  unfold rewriteKey
  by_cases same : other = key
  · subst same
    cases row other <;> simp
  · cases row key <;> simp [same, Finmap.lookup_insert_of_ne, Finmap.lookup_erase_ne]

instance (row : Key → Option Row) : LeftCommutative (rewriteKey row) where
  left_comm a b table := by
    refine Finmap.ext_lookup fun key => ?_
    simp only [lookup_rewriteKey]
    by_cases atA : key = a <;> by_cases atB : key = b <;> simp_all

/-- Replace or delete the rows of a set of keys, in any order. -/
def rewriteKeys (row : Key → Option Row) (keys : Finset Key) (table : Table Key Row) :
    Table Key Row :=
  keys.val.foldr (rewriteKey row) table

theorem lookup_rewriteKeys (row : Key → Option Row) (keys : Finset Key) (table : Table Key Row)
    (key : Key) :
    (rewriteKeys row keys table).lookup key =
      if key ∈ keys then row key else table.lookup key := by
  have perMultiset : ∀ written : Multiset Key, (written.foldr (rewriteKey row) table).lookup key =
      if key ∈ written then row key else table.lookup key := by
    intro written
    induction written using Multiset.induction with
    | empty => simp
    | cons head rest inductionHypothesis =>
        rw [Multiset.foldr_cons, lookup_rewriteKey, inductionHypothesis]
        by_cases here : key = head <;> simp [here]
  exact perMultiset keys.val

end Table

end ProtocolExplorer.Lib
