import ProtocolExplorer.Lib.KeyedTable
import ProtocolExplorer.Lib.OrderedBatch

/-!
# Logs numbered by key

Rows are numbered within their key, from 1 on.  A batch reads the last number of each key and
numbers its own rows after it; the insert does nothing where a number is taken.

* `holdsLog_insertNumbered` — **a batch appends its rows of a key to the log of the key**;
* `numbers_of_holdsLog` — the numbers of a log are those from 1 to its length.
-/

set_option autoImplicit false

namespace ProtocolExplorer.Lib

universe u v

variable {Key : Type u} {Row : Type v} [DecidableEq Key]

/-- `COALESCE(MAX(number), 0)` of a key. -/
def lastNumber (table : Table (Key × ℕ) Row) (key : Key) : ℕ :=
  (table.keys.filter fun stored => stored.1 = key).sup Prod.snd

/-- The rows of a batch with their numbers: within a key they are ranked, and numbered after the
stored ones. -/
def numberRows (keyOf : Row → Key) (ranked : List Row → List Row) (rows : List Row)
    (table : Table (Key × ℕ) Row) : List ((Key × ℕ) × Row) :=
  (rows.map keyOf).dedup.flatMap fun key =>
    (ranked (rows.filter fun row => decide (keyOf row = key))).zipIdx.map
      fun (row, rank) => ((key, lastNumber table key + (rank + 1)), row)

/-- One batch: `ON CONFLICT DO NOTHING`. -/
def insertNumbered (keyOf : Row → Key) (ranked : List Row → List Row) (rows : List Row)
    (table : Table (Key × ℕ) Row) : Table (Key × ℕ) Row :=
  (numberRows keyOf ranked rows table).foldl (fun t write => t.insertNew write.1 write.2) table

/-- The rows of a key are those of a log, numbered from 1 on. -/
def HoldsLog (table : Table (Key × ℕ) Row) (key : Key) (log : List Row) : Prop :=
  table.lookup (key, 0) = none ∧ ∀ n, table.lookup (key, n + 1) = log[n]?

section

variable {keyOf : Row → Key} {ranked : List Row → List Row} {rows : List Row}
  {table : Table (Key × ℕ) Row} {key : Key} {log : List Row}

theorem mem_numberRows {write : (Key × ℕ) × Row} :
    write ∈ numberRows keyOf ranked rows table ↔ ∃ key ∈ rows.map keyOf, ∃ rank,
      (ranked (rows.filter fun row => decide (keyOf row = key)))[rank]? = some write.2 ∧
        write.1 = (key, lastNumber table key + (rank + 1)) := by
  simp only [numberRows, List.mem_flatMap, List.mem_dedup, List.mem_map]
  constructor
  · rintro ⟨key, listed, ⟨row, rank⟩, atRank, rfl⟩
    exact ⟨key, listed, rank, List.mem_zipIdx_iff_getElem?.mp atRank, rfl⟩
  · rintro ⟨key, listed, rank, atRank, numbered⟩
    exact ⟨key, listed, (write.2, rank), List.mem_zipIdx_iff_getElem?.mpr atRank,
      Prod.ext numbered.symm rfl⟩

theorem holdsLog_empty (key : Key) : HoldsLog (∅ : Table (Key × ℕ) Row) key [] :=
  ⟨rfl, fun _ => rfl⟩

theorem mem_of_holdsLog (holds : HoldsLog table key log) {number : ℕ} :
    (key, number) ∈ table ↔ number ∈ Finset.Icc 1 log.length := by
  rw [← Finmap.lookup_isSome, Finset.mem_Icc]
  cases number with
  | zero =>
      rw [holds.1]
      simp
  | succ n =>
      rw [holds.2, Option.isSome_iff_ne_none, ne_eq, List.getElem?_eq_none_iff]
      omega

/-- **The numbers of a log are those from 1 to its length.** -/
theorem numbers_of_holdsLog (holds : HoldsLog table key log) :
    (table.keys.filter fun stored => stored.1 = key).image Prod.snd =
      Finset.Icc 1 log.length := by
  ext number
  rw [← mem_of_holdsLog holds, Finset.mem_image]
  constructor
  · rintro ⟨⟨stored, _⟩, member, rfl⟩
    obtain ⟨present, rfl⟩ := Finset.mem_filter.mp member
    exact Finmap.mem_keys.mp present
  · intro present
    exact ⟨(key, number), Finset.mem_filter.mpr ⟨Finmap.mem_keys.mpr present, rfl⟩, rfl⟩

theorem lastNumber_of_holdsLog (holds : HoldsLog table key log) :
    lastNumber table key = log.length := by
  have numbers := numbers_of_holdsLog holds
  refine le_antisymm (Finset.sup_le fun stored member => ?_) ?_
  · have listed : stored.2 ∈ Finset.Icc 1 log.length :=
      numbers ▸ Finset.mem_image_of_mem Prod.snd member
    exact (Finset.mem_Icc.mp listed).2
  · cases length : log.length with
    | zero => exact Nat.zero_le _
    | succ n =>
        have listed : n + 1 ∈ Finset.Icc 1 log.length := Finset.mem_Icc.mpr (by omega)
        obtain ⟨stored, member, same⟩ := Finset.mem_image.mp (numbers ▸ listed)
        exact same ▸ Finset.le_sup (f := Prod.snd) member

/-- A new number is past the stored ones. -/
theorem notMem_of_lastNumber_lt {number : ℕ} (later : lastNumber table key < number) :
    (key, number) ∉ table := by
  intro stored
  have counted : (key, number) ∈ table.keys.filter fun stored => stored.1 = key :=
    Finset.mem_filter.mpr ⟨Finmap.mem_keys.mpr stored, rfl⟩
  have bounded : number ≤ lastNumber table key := Finset.le_sup (f := Prod.snd) counted
  omega

/-- What a number holds after a batch. -/
theorem lookup_insertNumbered (perm : ∀ rows, (ranked rows).Perm rows) (number : ℕ) :
    (insertNumbered keyOf ranked rows table).lookup (key, number) =
      if number ≤ lastNumber table key then table.lookup (key, number)
      else (ranked (rows.filter fun row => decide (keyOf row = key)))[
        number - lastNumber table key - 1]? := by
  unfold insertNumbered
  have own : ∀ write ∈ numberRows keyOf ranked rows table, write.1 = (key, number) →
      lastNumber table key < number ∧
        (ranked (rows.filter fun row => decide (keyOf row = key)))[
          number - lastNumber table key - 1]? = some write.2 := by
    intro write listed same
    obtain ⟨key', _, rank, atRank, numbered⟩ := mem_numberRows.mp listed
    rw [numbered, Prod.mk.injEq] at same
    obtain ⟨rfl, rfl⟩ := same
    refine ⟨by omega, ?_⟩
    rw [← atRank]
    congr 1
    omega
  split_ifs with old
  · -- no row of the batch has a stored number
    cases stored : table.lookup (key, number) with
    | some row => exact Table.lookup_foldl_insertNew_of_lookup Prod.fst Prod.snd stored
    | none =>
        rw [Finmap.lookup_eq_none, Table.mem_foldl_insertNew Prod.fst Prod.snd]
        rintro (present | ⟨write, listed, same⟩)
        · exact Finmap.lookup_eq_none.mp stored present
        · exact absurd (own write listed same).1 (not_lt.mpr old)
  · have fresh := notMem_of_lastNumber_lt (not_le.mp old)
    cases atRank : (ranked (rows.filter fun row => decide (keyOf row = key)))[
        number - lastNumber table key - 1]? with
    | some row =>
        have member : row ∈ rows.filter fun row => decide (keyOf row = key) :=
          (perm _).mem_iff.mp (List.mem_of_getElem? atRank)
        obtain ⟨offered, hasKey⟩ := List.mem_filter.mp member
        have write : ((key, number), row) ∈ numberRows keyOf ranked rows table := by
          refine mem_numberRows.mpr ⟨key, ?_, _, atRank, Prod.ext rfl ?_⟩
          · exact List.mem_map.mpr ⟨row, offered, of_decide_eq_true hasKey⟩
          · show number = _
            omega
        have functional : ∀ other ∈ numberRows keyOf ranked rows table,
            other.1 = (key, number) → other.2 = row := by
          intro other listed same
          have found := (own other listed same).2
          rw [atRank] at found
          exact (Option.some.inj found).symm
        exact Table.lookup_foldl_insertNew_of_fresh Prod.fst Prod.snd functional write fresh
    | none =>
        rw [Finmap.lookup_eq_none, Table.mem_foldl_insertNew Prod.fst Prod.snd]
        rintro (present | ⟨write, listed, same⟩)
        · exact fresh present
        · rw [(own write listed same).2] at atRank
          cases atRank

/-- **A batch appends its rows of a key to the log of the key.** -/
theorem holdsLog_insertNumbered (keyOf : Row → Key) (rows : List Row)
    (perm : ∀ rows, (ranked rows).Perm rows)
    (holds : HoldsLog table key log) : HoldsLog (insertNumbered keyOf ranked rows table) key
      (log ++ ranked (rows.filter fun row => decide (keyOf row = key))) := by
  constructor
  · rw [lookup_insertNumbered perm, if_pos (Nat.zero_le _)]
    exact holds.1
  · intro n
    rw [lookup_insertNumbered perm, lastNumber_of_holdsLog holds]
    split_ifs with old
    · rw [holds.2, List.getElem?_append_left old]
    · rw [List.getElem?_append_right (by omega)]
      congr 1
      omega

end

end ProtocolExplorer.Lib
