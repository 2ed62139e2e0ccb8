import ProtocolExplorer.Lib.KeyedTable

/-!
# Updates from a list of sources

`UPDATE … FROM` joins the rows of a table with the rows of a source.  When several sources match a
row, one of them is written and it is not specified which: the statement is a relation between the
table before and the table after.  It is compared with applying the sources one after the other.

* `lookup_joinUpdates` — after a sequence of statements a row is written by one of its *deciding*
  sources, those of the last statement that matches it;
* `exists_joinUpdates` — each of them can be the one;
* `joinUpdates_exact` — **the outcome is that of the single updates exactly if the deciding
  sources of every stored row write the same**;
* `countJoins_eq` — when every source has a row of its own, each is counted once.
-/

set_option autoImplicit false

namespace ProtocolExplorer.Lib

universe u v w

variable {Key : Type u} {Row : Type v} {Source : Type w} [DecidableEq Key]

/-- The sources that match a key. -/
def matching (keyOf : Source → Key) (sources : List Source) (key : Key) : List Source :=
  sources.filter fun source => decide (keyOf source = key)

/-- `UPDATE … FROM`: every matched row is written by one of its sources. -/
def JoinUpdate (keyOf : Source → Key) (write : Source → Row → Row) (sources : List Source)
    (table table' : Table Key Row) : Prop :=
  ∀ key, matching keyOf sources key = [] ∧ table'.lookup key = table.lookup key ∨
    ∃ source ∈ matching keyOf sources key,
      table'.lookup key = (table.lookup key).map (write source)

/-- One statement for each list of sources. -/
def JoinUpdates (keyOf : Source → Key) (write : Source → Row → Row) :
    List (List Source) → Table Key Row → Table Key Row → Prop
  | [], table, table' => table' = table
  | sources :: rest, table, table' => ∃ middle,
      JoinUpdate keyOf write sources table middle ∧ JoinUpdates keyOf write rest middle table'

/-- How many rows a statement updates. -/
def rowsAffected (keyOf : Source → Key) (sources : List Source) (table : Table Key Row) : ℕ :=
  (table.keys.filter fun key => matching keyOf sources key ≠ []).card

/-- One statement for each list of sources, and the rows that they update in all. -/
def CountJoins (keyOf : Source → Key) (write : Source → Row → Row) :
    List (List Source) → Table Key Row → ℕ → Table Key Row → ℕ → Prop
  | [], table, total, table', total' => table' = table ∧ total' = total
  | sources :: rest, table, total, table', total' => ∃ middle,
      JoinUpdate keyOf write sources table middle ∧
        CountJoins keyOf write rest middle (total + rowsAffected keyOf sources table) table' total'

/-- One update for each source. -/
def applyUpdates (keyOf : Source → Key) (write : Source → Row → Row) (sources : List Source)
    (table : Table Key Row) : Table Key Row :=
  sources.foldl (fun t source => t.modify (keyOf source) (write source)) table

/-- The sources of a key in the last statement that matches it. -/
def deciding (keyOf : Source → Key) (key : Key) : List (List Source) → List Source
  | [] => []
  | sources :: rest =>
      match deciding keyOf key rest with
      | [] => matching keyOf sources key
      | source :: later => source :: later

section

variable {keyOf : Source → Key} {write : Source → Row → Row} {table table' : Table Key Row}
  {key : Key}

theorem applyUpdates_append (earlier later : List Source) (table : Table Key Row) :
    applyUpdates keyOf write (earlier ++ later) table =
      applyUpdates keyOf write later (applyUpdates keyOf write earlier table) :=
  List.foldl_append

theorem mem_matching {sources : List Source} {source : Source} :
    source ∈ matching keyOf sources key ↔ source ∈ sources ∧ keyOf source = key := by
  simp [matching]

theorem mem_of_mem_deciding {source : Source} : ∀ {chunks : List (List Source)},
    source ∈ deciding keyOf key chunks → source ∈ chunks.flatten ∧ keyOf source = key
  | [], member => by cases member
  | sources :: rest, member => by
      rw [deciding] at member
      cases later : deciding keyOf key rest with
      | nil =>
          rw [later] at member
          obtain ⟨listed, keyed⟩ := mem_matching.mp member
          exact ⟨List.mem_append_left _ listed, keyed⟩
      | cons head tail =>
          rw [later] at member
          have decides : source ∈ deciding keyOf key rest := by
            rw [later]
            exact member
          obtain ⟨listed, keyed⟩ := mem_of_mem_deciding decides
          exact ⟨List.mem_append_right _ listed, keyed⟩

/-- The last source of a key is the last of its deciding ones. -/
theorem getLast_deciding (chunks : List (List Source)) :
    (deciding keyOf key chunks).getLast? = (matching keyOf chunks.flatten key).getLast? := by
  induction chunks with
  | nil => rfl
  | cons sources rest inductionHypothesis =>
      rw [List.flatten_cons, matching, List.filter_append, ← matching, ← matching,
        List.getLast?_append, ← inductionHypothesis, deciding]
      cases deciding keyOf key rest with
      | nil => rfl
      | cons source later =>
          rw [List.getLast?_cons]
          rfl

/-- After single updates a row has been written by its last source. -/
theorem lookup_applyUpdates
    (overwrites : ∀ earlier later row, write later (write earlier row) = write later row)
    (sources : List Source) (table : Table Key Row) (key : Key) :
    (applyUpdates keyOf write sources table).lookup key =
      (matching keyOf sources key).getLast?.elim (table.lookup key)
        fun source => (table.lookup key).map (write source) := by
  induction sources using List.reverseRecOn with
  | nil => rfl
  | append_singleton earlier source inductionHypothesis =>
      have last : applyUpdates keyOf write [source] (applyUpdates keyOf write earlier table) =
          (applyUpdates keyOf write earlier table).modify (keyOf source) (write source) := rfl
      rw [applyUpdates_append, last, Table.lookup_modify, matching, List.filter_append, ← matching]
      by_cases same : key = keyOf source
      · subst same
        rw [if_pos rfl, inductionHypothesis]
        simp only [decide_true, List.filter_cons_of_pos, List.filter_nil, List.getLast?_append,
          List.getLast?_singleton, Option.some_or, Option.elim_some]
        cases (matching keyOf earlier (keyOf source)).getLast? with
        | none => rfl
        | some before =>
            rw [Option.elim_some, Option.map_map]
            exact congrArg (Option.map · _) (funext fun row => overwrites before source row)
      · have other : ¬ keyOf source = key := fun equal => same equal.symm
        rw [if_neg same, inductionHypothesis]
        simp [other]

/-- Any source may come last: repeating some of the sources is one of the outcomes. -/
theorem joinUpdate_append
    (overwrites : ∀ earlier later row, write later (write earlier row) = write later row)
    (sources extra : List Source) (repeated : ∀ source ∈ extra, source ∈ sources)
    (table : Table Key Row) :
    JoinUpdate keyOf write sources table (applyUpdates keyOf write (sources ++ extra) table) := by
  intro key
  rw [lookup_applyUpdates overwrites]
  cases last : (matching keyOf (sources ++ extra) key).getLast? with
  | none =>
      refine .inl ⟨?_, rfl⟩
      rw [List.getLast?_eq_none_iff, matching, List.filter_append, List.append_eq_nil_iff] at last
      exact last.1
  | some source =>
      obtain ⟨member, keyed⟩ := mem_matching.mp (List.mem_of_getLast? last)
      have listed : source ∈ sources := by
        rcases List.mem_append.mp member with first | again
        · exact first
        · exact repeated source again
      exact .inr ⟨source, mem_matching.mpr ⟨listed, keyed⟩, rfl⟩

/-- The single updates are one of the outcomes. -/
theorem joinUpdates_applyUpdates
    (overwrites : ∀ earlier later row, write later (write earlier row) = write later row)
    (chunks : List (List Source)) (table : Table Key Row) :
    JoinUpdates keyOf write chunks table (applyUpdates keyOf write chunks.flatten table) := by
  induction chunks generalizing table with
  | nil => rfl
  | cons sources rest inductionHypothesis =>
      refine ⟨applyUpdates keyOf write sources table, ?_, ?_⟩
      · have once : JoinUpdate keyOf write sources table
            (applyUpdates keyOf write (sources ++ []) table) :=
          joinUpdate_append overwrites sources [] nofun table
        rwa [List.append_nil] at once
      · rw [List.flatten_cons, applyUpdates_append]
        exact inductionHypothesis _

/-- **A row is written by one of its deciding sources.** -/
theorem lookup_joinUpdates
    (overwrites : ∀ earlier later row, write later (write earlier row) = write later row)
    {chunks : List (List Source)} (updated : JoinUpdates keyOf write chunks table table')
    (key : Key) :
    deciding keyOf key chunks = [] ∧ table'.lookup key = table.lookup key ∨
      ∃ source ∈ deciding keyOf key chunks,
        table'.lookup key = (table.lookup key).map (write source) := by
  induction chunks generalizing table with
  | nil => exact .inl ⟨rfl, congrArg (Finmap.lookup key) updated⟩
  | cons sources rest inductionHypothesis =>
      obtain ⟨middle, first, later⟩ := updated
      rw [deciding]
      rcases inductionHypothesis later with ⟨none, kept⟩ | ⟨source, member, written⟩
      · rw [none, kept]
        exact first key
      · cases decides : deciding keyOf key rest with
        | nil => simp [decides] at member
        | cons head tail =>
            rw [decides] at member
            refine .inr ⟨source, member, ?_⟩
            rw [written]
            rcases first key with ⟨-, same⟩ | ⟨before, -, same⟩
            · rw [same]
            · rw [same, Option.map_map]
              exact congrArg (Option.map · _) (funext fun row => overwrites before source row)

/-- **Each of the deciding sources can be the one that is written.** -/
theorem exists_joinUpdates
    (overwrites : ∀ earlier later row, write later (write earlier row) = write later row)
    {chunks : List (List Source)} (table : Table Key Row) {source : Source}
    (decides : source ∈ deciding keyOf key chunks) :
    ∃ table', JoinUpdates keyOf write chunks table table' ∧
      table'.lookup key = (table.lookup key).map (write source) := by
  induction chunks generalizing table with
  | nil => cases decides
  | cons sources rest inductionHypothesis =>
      rw [deciding] at decides
      cases later : deciding keyOf key rest with
      | nil =>
          -- this statement decides: let the source come last in it
          rw [later] at decides
          obtain ⟨listed, keyed⟩ := mem_matching.mp decides
          have first : JoinUpdate keyOf write sources table
              (applyUpdates keyOf write (sources ++ [source]) table) :=
            joinUpdate_append overwrites sources [source] (by simpa using listed) table
          have others : JoinUpdates keyOf write rest
              (applyUpdates keyOf write (sources ++ [source]) table) _ :=
            joinUpdates_applyUpdates overwrites rest _
          refine ⟨_, ⟨_, first, others⟩, ?_⟩
          rcases lookup_joinUpdates overwrites others key with ⟨-, kept⟩ | ⟨other, member, -⟩
          · rw [kept, lookup_applyUpdates overwrites]
            simp [matching, keyed]
          · simp [later] at member
      | cons head tail =>
          rw [later] at decides
          have first : JoinUpdates keyOf write [sources] table
              (applyUpdates keyOf write [sources].flatten table) :=
            joinUpdates_applyUpdates overwrites [sources] table
          obtain ⟨middle, joined, rfl⟩ := first
          obtain ⟨table', updated, written⟩ := inductionHypothesis _ (later ▸ decides)
          refine ⟨table', ⟨_, joined, updated⟩, ?_⟩
          rw [written, lookup_applyUpdates overwrites]
          cases (matching keyOf [sources].flatten key).getLast? with
          | none => rfl
          | some before =>
              rw [Option.elim_some, Option.map_map]
              exact congrArg (Option.map · _) (funext fun row => overwrites before source row)

/-- **The outcome is that of the single updates exactly if the deciding sources of every stored
row write the same.** -/
theorem joinUpdates_exact
    (overwrites : ∀ earlier later row, write later (write earlier row) = write later row)
    (chunks : List (List Source)) (table : Table Key Row) :
    (∀ table', JoinUpdates keyOf write chunks table table' →
        table' = applyUpdates keyOf write chunks.flatten table) ↔
      ∀ key row, table.lookup key = some row → ∀ source ∈ deciding keyOf key chunks,
        ∀ last ∈ (deciding keyOf key chunks).getLast?, write source row = write last row := by
  constructor
  · intro determined key row stored source member last isLast
    obtain ⟨table', updated, written⟩ := exists_joinUpdates overwrites table member
    rw [determined table' updated, lookup_applyUpdates overwrites, ← getLast_deciding, isLast,
      Option.elim_some, stored] at written
    exact (Option.some.inj written).symm
  · intro alike table' updated
    refine Finmap.ext_lookup fun key => ?_
    rw [lookup_applyUpdates overwrites, ← getLast_deciding]
    rcases lookup_joinUpdates overwrites updated key with
      ⟨none, kept⟩ | ⟨source, member, written⟩
    · rw [none, kept]
      rfl
    · obtain ⟨last, isLast⟩ :=
        Option.isSome_iff_exists.mp (List.getLast?_isSome.mpr (List.ne_nil_of_mem member))
      rw [isLast, written, Option.elim_some]
      cases stored : table.lookup key with
      | none => rfl
      | some row => exact congrArg some (alike key row stored source member last isLast)

/-- Sources of different rows cannot be told from single updates. -/
theorem joinUpdates_of_nodup
    (overwrites : ∀ earlier later row, write later (write earlier row) = write later row)
    {chunks : List (List Source)} (distinct : (chunks.flatten.map keyOf).Nodup)
    (updated : JoinUpdates keyOf write chunks table table') :
    table' = applyUpdates keyOf write chunks.flatten table := by
  refine (joinUpdates_exact overwrites chunks table).mpr ?_ table' updated
  intro key row _ source member last isLast
  obtain ⟨listed, keyed⟩ := mem_of_mem_deciding member
  obtain ⟨lastListed, lastKeyed⟩ := mem_of_mem_deciding (List.mem_of_getLast? isLast)
  rw [List.inj_on_of_nodup_map distinct listed lastListed (keyed.trans lastKeyed.symm)]

/-- No source decides a row that none matches. -/
theorem deciding_eq_nil_iff {chunks : List (List Source)} :
    deciding keyOf key chunks = [] ↔ ∀ source ∈ chunks.flatten, keyOf source ≠ key := by
  rw [← List.getLast?_eq_none_iff, getLast_deciding, List.getLast?_eq_none_iff, matching,
    List.filter_eq_nil_iff]
  simp

/-! ## Counting rows -/

section Counting

variable {total total' : ℕ}

theorem joinUpdates_of_countJoins {chunks : List (List Source)}
    (counted : CountJoins keyOf write chunks table total table' total') :
    JoinUpdates keyOf write chunks table table' := by
  induction chunks generalizing table total with
  | nil => exact counted.1
  | cons sources rest inductionHypothesis =>
      obtain ⟨middle, joined, others⟩ := counted
      exact ⟨middle, joined, inductionHypothesis others⟩

/-- Statements can be counted. -/
theorem exists_countJoins {chunks : List (List Source)}
    (joined : JoinUpdates keyOf write chunks table table') (total : ℕ) :
    ∃ total', CountJoins keyOf write chunks table total table' total' := by
  induction chunks generalizing table total with
  | nil => exact ⟨total, joined, rfl⟩
  | cons sources rest inductionHypothesis =>
      obtain ⟨middle, first, others⟩ := joined
      obtain ⟨total', counted⟩ := inductionHypothesis others (total + rowsAffected keyOf sources table)
      exact ⟨total', middle, first, counted⟩

/-- A statement keeps the keys of a table. -/
theorem mem_joinUpdate {sources : List Source} (joined : JoinUpdate keyOf write sources table table')
    (key : Key) : key ∈ table' ↔ key ∈ table := by
  rw [← Finmap.lookup_isSome, ← Finmap.lookup_isSome]
  rcases joined key with ⟨_, same⟩ | ⟨source, _, written⟩
  · rw [same]
  · rw [written, Option.isSome_map]

/-- A statement whose sources have rows of their own updates one for each. -/
theorem rowsAffected_eq {sources : List Source} (distinct : (sources.map keyOf).Nodup) :
    rowsAffected keyOf sources table = sources.countP fun source => decide (keyOf source ∈ table) := by
  have kept : ((sources.filter fun source => decide (keyOf source ∈ table)).map keyOf).Nodup :=
    distinct.sublist (List.filter_sublist.map _)
  have same : ((sources.filter fun source => decide (keyOf source ∈ table)).map keyOf).toFinset =
      table.keys.filter fun key => matching keyOf sources key ≠ [] := by
    ext key
    simp only [List.mem_toFinset, List.mem_map, List.mem_filter, decide_eq_true_eq,
      Finset.mem_filter, Finmap.mem_keys, ne_eq, List.eq_nil_iff_forall_not_mem, mem_matching]
    constructor
    · rintro ⟨source, ⟨listed, present⟩, rfl⟩
      exact ⟨present, fun none => none source ⟨listed, rfl⟩⟩
    · rintro ⟨present, some_⟩
      push Not at some_
      obtain ⟨source, listed, rfl⟩ := some_
      exact ⟨source, ⟨listed, present⟩, rfl⟩
  rw [rowsAffected, ← same, List.toFinset_card_of_nodup kept, List.length_map,
    List.countP_eq_length_filter]

/-- **When every source has a row of its own, the rows counted are the sources whose row is
there.** -/
theorem countJoins_eq {chunks : List (List Source)} (distinct : (chunks.flatten.map keyOf).Nodup)
    (counted : CountJoins keyOf write chunks table total table' total') :
    total' = total + chunks.flatten.countP fun source => decide (keyOf source ∈ table) := by
  induction chunks generalizing table total with
  | nil => exact counted.2
  | cons sources rest inductionHypothesis =>
      obtain ⟨middle, joined, others⟩ := counted
      rw [List.flatten_cons, List.map_append] at distinct
      obtain ⟨here, there, _⟩ := List.nodup_append.mp distinct
      rw [inductionHypothesis there others, rowsAffected_eq here, List.flatten_cons,
        List.countP_append, Nat.add_assoc]
      simp only [mem_joinUpdate joined]

end Counting

end

end ProtocolExplorer.Lib
