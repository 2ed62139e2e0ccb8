import ProtocolExplorer.Rollups.RowCounts

/-!
# Rebuilds and batches

`process_reorg_mutations` recomputes a key from all its eligible rows, a batch adds to a key the
rows past the checkpoint.  Both write the same row of the table.  Between two calls the source
tables may change in any way, and mutations are recorded.

* `Settled` — every key that no pending mutation reaches holds the fold of its rows up to the
  checkpoint;
* `upToDate_processReorgMutations` — a rebuild whose keys have no row past the checkpoint agrees
  with the fold;
* `rebuildsFolded_of_upToDate` — any other rebuild counts a row that a batch counts again;
* `rebuilds_agree_iff` — **for each of the four rollups, after a run whose changes are recorded, a
  call leaves every key at the fold of its rows up to the new checkpoint if and only if no rebuilt
  key has a row past the old one**;
* `rebuilt_row_counted_twice` — a reward that is counted twice.
-/

set_option autoImplicit false

namespace ProtocolExplorer.Store

/-- Other writers have changed the source tables and recorded mutations. -/
def Db.changed (tables : SourceTables) (mutations : List ReorgMutation) (db : Db) : Db :=
  { db with
    rawProtocolEvents := tables.rawProtocolEvents
    eventValuations := tables.eventValuations
    broadcasterClassifications := tables.broadcasterClassifications
    reorgMutations := db.reorgMutations ++ mutations }

end ProtocolExplorer.Store

namespace ProtocolExplorer.Rollups

open ProtocolExplorer.Lib
open ProtocolExplorer.Store

/-- A call of `run_once`, or what happens between two calls. -/
inductive ReorgAction where
  | change (tables : SourceTables) (mutations : List ReorgMutation)
  | runOnce (limit : ℕ)

namespace DailyRollup

variable {Row Key Label Sums Stored : Type} [AddCommMonoid Sums] [AddCommMonoid Stored]
  [DecidableEq Label] [DecidableEq Key] (r : DailyRollup Row Key Label Sums Stored)
  (includeTentative : Bool)

def reorgStep (db : Db) : ReorgAction → Option Db
  | .change tables mutations =>
      if ∀ e ∈ tables.rawProtocolEvents, 0 < e.id then some (db.changed tables mutations)
      else none
  | .runOnce limit => some (r.runOnce includeTentative limit db)

/-- The fold of a key's rows up to the checkpoint. -/
def foldedTotal (db : Db) (key : Key) : Option (Total Stored) :=
  (rebuild key (r.rebuildEntries db.sourceTables (r.foldedRows includeTentative db))).map
    (Total.map r.store)

/-- Pending mutations reach every key whose fold has changed. -/
def Recorded (before after : Db) : Prop :=
  ∀ key, key ∉ r.affectedKeys includeTentative after →
    key ∉ r.affectedKeys includeTentative before ∧
      r.foldedTotal includeTentative after key = r.foldedTotal includeTentative before key

/-- No key that is to be rebuilt has a row past the checkpoint. -/
def RebuildsFolded (db : Db) : Prop :=
  ∀ row ∈ r.pendingRows includeTentative db, r.keyOf row ∉ r.affectedKeys includeTentative db

instance (db : Db) : Decidable (r.RebuildsFolded includeTentative db) :=
  inferInstanceAs (Decidable (∀ row ∈ r.pendingRows includeTentative db,
    r.keyOf row ∉ r.affectedKeys includeTentative db))

/-- The batch of a call is whole and rounds together. -/
def WholeRound (limit : ℕ) (db : Db) : Prop :=
  r.WholeBatch includeTentative limit (r.processReorgMutations includeTentative db) ∧
    r.RoundsTogether includeTentative limit (r.processReorgMutations includeTentative db)

instance [DecidableEq Stored] (limit : ℕ) (db : Db) :
    Decidable (r.WholeRound includeTentative limit db) :=
  inferInstanceAs (Decidable (_ ∧ _))

/-- Changes are recorded. -/
def records (db : Db) : ReorgAction → Prop
  | .change tables mutations => r.Recorded includeTentative db (db.changed tables mutations)
  | .runOnce _ => True

/-- Changes are recorded, and calls rebuild only keys without a row past the checkpoint. -/
def rebuildsFolded (db : Db) : ReorgAction → Prop
  | .change tables mutations => r.Recorded includeTentative db (db.changed tables mutations)
  | .runOnce limit =>
      r.RebuildsFolded includeTentative db ∧ r.WholeRound includeTentative limit db

/-- Every key that no pending mutation reaches holds the fold of its rows. -/
structure Settled (db : Db) : Prop where
  positive : ∀ row ∈ r.sourceRows includeTentative db.sourceTables, 0 < r.eventId row
  folded : ∀ key, key ∉ r.affectedKeys includeTentative db →
    (r.table db).lookup key = r.foldedTotal includeTentative db key

variable {r includeTentative} {db : Db} {limit : ℕ}

/-! ## Deciding whether a change is recorded -/

theorem foldedTotal_of_notMem {key : Key}
    (absent : ∀ row ∈ r.foldedRows includeTentative db, r.keyOf row ≠ key) :
    r.foldedTotal includeTentative db key = none := by
  have nothing : entriesOf key
      (r.rebuildEntries db.sourceTables (r.foldedRows includeTentative db)) = [] := by
    refine List.filter_eq_nil_iff.mpr fun entry member own => ?_
    obtain ⟨marked, listed, rfl⟩ := List.mem_map.mp member
    exact absent marked.1 (mem_of_mem_markFirst listed) (of_decide_eq_true own)
  rw [foldedTotal, rebuild, if_pos nothing, Option.map_none]

/-- The keys that a change may concern. -/
def concernedKeys (r : DailyRollup Row Key Label Sums Stored) (includeTentative : Bool)
    (before after : Db) : Finset Key :=
  r.affectedKeys includeTentative before ∪
    ((r.foldedRows includeTentative before ++ r.foldedRows includeTentative after).map
      r.keyOf).toFinset

theorem recorded_iff {before after : Db} : r.Recorded includeTentative before after ↔
    ∀ key ∈ r.concernedKeys includeTentative before after,
      key ∉ r.affectedKeys includeTentative after →
        key ∉ r.affectedKeys includeTentative before ∧
          r.foldedTotal includeTentative after key =
            r.foldedTotal includeTentative before key := by
  constructor
  · exact fun recorded key _ => recorded key
  · intro recorded key unreached
    by_cases concerned : key ∈ r.concernedKeys includeTentative before after
    · exact recorded key concerned unreached
    · simp only [concernedKeys, Finset.mem_union, List.mem_toFinset, List.mem_map,
        List.mem_append, not_or, not_exists, not_and] at concerned
      refine ⟨concerned.1, ?_⟩
      rw [foldedTotal_of_notMem fun row folded => concerned.2 row (Or.inr folded),
        foldedTotal_of_notMem fun row folded => concerned.2 row (Or.inl folded)]

section Decisions

variable [DecidableEq Stored]

instance (before after : Db) : Decidable (r.Recorded includeTentative before after) :=
  decidable_of_iff _ recorded_iff.symm

instance (db : Db) : ∀ a, Decidable (r.records includeTentative db a)
  | .change tables mutations =>
      inferInstanceAs (Decidable (r.Recorded includeTentative db (db.changed tables mutations)))
  | .runOnce _ => inferInstanceAs (Decidable True)

instance (db : Db) : ∀ a, Decidable (r.rebuildsFolded includeTentative db a)
  | .change tables mutations =>
      inferInstanceAs (Decidable (r.Recorded includeTentative db (db.changed tables mutations)))
  | .runOnce limit =>
      inferInstanceAs (Decidable (r.RebuildsFolded includeTentative db ∧
        r.WholeRound includeTentative limit db))

end Decisions

/-! ## The reorg part -/

omit [DecidableEq Label] in
theorem affectedKeys_of_none (nothing : r.pendingMutations db = []) :
    r.affectedKeys includeTentative db = ∅ := by
  simp [affectedKeys, nothing]

/-- Affected keys are rebuilt from all rows, the others keep what they had. -/
theorem lookup_processReorgMutations (db : Db) (key : Key) :
    (r.table (r.processReorgMutations includeTentative db)).lookup key =
      if key ∈ r.affectedKeys includeTentative db then
        (r.rebuildAggregateForKey includeTentative db.sourceTables key).map (Total.map r.store)
      else (r.table db).lookup key := by
  unfold processReorgMutations
  cases nothing : (r.pendingMutations db).isEmpty with
  | true =>
      rw [if_pos rfl, affectedKeys_of_none (List.isEmpty_iff.mp nothing),
        if_neg (Finset.notMem_empty key)]
  | false =>
      rw [if_neg Bool.false_ne_true, Db.advanceCheckpoint, r.table_congr, lookup_rebuildKeys]

theorem foldedRows_processReorgMutations (db : Db) :
    r.foldedRows includeTentative (r.processReorgMutations includeTentative db) =
      r.foldedRows includeTentative db := by
  rw [foldedRows, foldedRows, checkpoint_processReorgMutations, processReorgMutations_sourceTables]

theorem foldedTotal_processReorgMutations (db : Db) (key : Key) :
    r.foldedTotal includeTentative (r.processReorgMutations includeTentative db) key =
      r.foldedTotal includeTentative db key := by
  rw [foldedTotal, foldedTotal, foldedRows_processReorgMutations,
    processReorgMutations_sourceTables]

/-- A key without a row past the checkpoint is rebuilt to the fold of its rows up to it. -/
theorem rebuildAggregateForKey_of_folded {key : Key}
    (folded : ∀ row ∈ r.pendingRows includeTentative db, r.keyOf row ≠ key) :
    (r.rebuildAggregateForKey includeTentative db.sourceTables key).map (Total.map r.store) =
      r.foldedTotal includeTentative db key := by
  have nothing : entriesOf key (r.entries db.sourceTables (markFirst r.labelsOf (fun _ _ => false)
      (seenAfter r.labelsOf [] (r.foldedRows includeTentative db))
        (r.pendingRows includeTentative db))) = [] := by
    refine List.filter_eq_nil_iff.mpr fun entry member own => ?_
    obtain ⟨marked, listed, rfl⟩ := List.mem_map.mp member
    exact folded marked.1 (mem_of_mem_markFirst listed) (of_decide_eq_true own)
  have split : r.rebuildEntries db.sourceTables (r.foldedRows includeTentative db ++
      r.pendingRows includeTentative db) =
        r.rebuildEntries db.sourceTables (r.foldedRows includeTentative db) ++
          r.entries db.sourceTables (markFirst r.labelsOf (fun _ _ => false)
            (seenAfter r.labelsOf [] (r.foldedRows includeTentative db))
              (r.pendingRows includeTentative db)) := by
    rw [rebuildEntries, markFirst_append, entries, List.map_append]
    rfl
  rw [rebuildAggregateForKey_eq, ← foldedRows_append_pendingRows, split, rebuild_append]
  rw [rebuild, rebuild, if_pos nothing, Option.merge_none_right]
  rfl

/-- **A rebuild of keys without a row past the checkpoint agrees with the fold.** -/
theorem upToDate_processReorgMutations (settled : r.Settled includeTentative db)
    (folded : r.RebuildsFolded includeTentative db) :
    r.UpToDate includeTentative (r.processReorgMutations includeTentative db) := by
  intro key
  refine Eq.trans ?_ (foldedTotal_processReorgMutations db key).symm
  rw [lookup_processReorgMutations]
  split
  · next reached =>
      refine rebuildAggregateForKey_of_folded fun row pending own => ?_
      subst own
      exact folded row pending reached
  · next unreached => exact settled.folded key unreached

/-! ## One call -/

theorem upToDate_runOnce (settled : r.Settled includeTentative db)
    (folded : r.RebuildsFolded includeTentative db)
    (round : r.WholeRound includeTentative limit db) :
    r.UpToDate includeTentative (r.runOnce includeTentative limit db) := by
  refine upToDate_foldBatch (upToDate_processReorgMutations settled folded) round.1 round.2 ?_
  rw [processReorgMutations_sourceTables]
  exact settled.positive

/-- A call leaves no mutation pending. -/
theorem affectedKeys_runOnce (limit : ℕ) (db : Db) :
    r.affectedKeys includeTentative (r.runOnce includeTentative limit db) = ∅ :=
  affectedKeys_of_none ((pendingMutations_foldBatch ..).trans
    (r.pendingMutations_processReorgMutations _ db))

theorem UpToDate.countsFolded (upToDate : r.UpToDate includeTentative db) :
    r.CountsFolded includeTentative db := by
  intro key
  rw [storedRowCount, upToDate key, count_rebuildEntries]

theorem countOf_injective {a b : ℕ} (same : countOf a = countOf b) : a = b := by
  unfold countOf at same
  split at same <;> split at same
  · omega
  · cases same
  · cases same
  · exact_mod_cast Option.some.inj same

/-- The count of a key that has been rebuilt. -/
theorem storedRowCount_processReorgMutations {key : Key}
    (reached : key ∈ r.affectedKeys includeTentative db) :
    r.storedRowCount (r.processReorgMutations includeTentative db) key =
      countOf (r.rowCount (r.sourceRows includeTentative db.sourceTables) key) := by
  rw [storedRowCount, lookup_processReorgMutations, if_pos reached, rebuildAggregateForKey_eq,
    count_rebuildEntries]

/-- **A rebuild that counts a row past the checkpoint counts it once more than the fold.** -/
theorem rebuildsFolded_of_upToDate
    (positive : ∀ row ∈ r.sourceRows includeTentative db.sourceTables, 0 < r.eventId row)
    (whole : r.EndsBetweenEvents includeTentative limit
      (r.processReorgMutations includeTentative db))
    (upToDate : r.UpToDate includeTentative (r.runOnce includeTentative limit db)) :
    r.RebuildsFolded includeTentative db := by
  intro row pending reached
  have counted := upToDate.countsFolded (r.keyOf row)
  have ids : ∀ row ∈ r.sourceRows includeTentative
      (r.processReorgMutations includeTentative db).sourceTables, 0 < r.eventId row := by
    rw [processReorgMutations_sourceTables]
    exact positive
  rw [runOnce, storedRowCount_foldBatch, storedRowCount_processReorgMutations reached,
    foldedRows_foldBatch whole ids, foldedRows_processReorgMutations, rowCount_append,
    merge_countOf] at counted
  -- the batch is on both sides, what is left is the rows past the checkpoint
  have same := countOf_injective counted
  rw [← foldedRows_append_pendingRows, rowCount_append] at same
  have some_row : 0 < r.rowCount (r.pendingRows includeTentative db) (r.keyOf row) :=
    List.countP_pos_iff.mpr ⟨row, pending, decide_eq_true rfl⟩
  omega

/-! ## Runs -/

section Runs

variable (empty : r.table Db.empty = ∅)
  (keeps : ∀ tables mutations db, r.table (db.changed tables mutations) = r.table db)

theorem settled_of_upToDate
    (positive : ∀ row ∈ r.sourceRows includeTentative db.sourceTables, 0 < r.eventId row)
    (upToDate : r.UpToDate includeTentative db) : r.Settled includeTentative db where
  positive := positive
  folded key _ := upToDate key

include empty in
theorem settled_empty : r.Settled includeTentative Db.empty := by
  have nothing : r.sourceRows includeTentative Db.empty.sourceTables = [] := rfl
  refine settled_of_upToDate (by simp [nothing]) fun key => ?_
  rw [empty, foldedRows, nothing]
  rfl

include keeps in
/-- A recorded change leaves the other keys as they were. -/
theorem settled_changed {tables : SourceTables} {mutations : List ReorgMutation}
    (settled : r.Settled includeTentative db)
    (ids : ∀ e ∈ tables.rawProtocolEvents, 0 < e.id)
    (recorded : r.Recorded includeTentative db (db.changed tables mutations)) :
    r.Settled includeTentative (db.changed tables mutations) where
  positive row source := by
    obtain ⟨e, stored, joined⟩ := (r.mem_sourceRows includeTentative).mp source
    rw [r.eventId_of_mem joined]
    exact ids e stored
  folded key unreached := by
    obtain ⟨unreachedBefore, same⟩ := recorded key unreached
    rw [keeps, same]
    exact settled.folded key unreachedBefore

include keeps in
theorem settled_step (db : Db) (a : ReorgAction) (db' : Db)
    (settled : r.Settled includeTentative db)
    (allowed : r.rebuildsFolded includeTentative db a)
    (stepped : r.reorgStep includeTentative db a = some db') : r.Settled includeTentative db' := by
  cases a with
  | change tables mutations =>
      simp only [reorgStep, Option.ite_none_right_eq_some, Option.some.injEq] at stepped
      obtain ⟨ids, rfl⟩ := stepped
      exact settled_changed keeps settled ids allowed
  | runOnce limit =>
      cases stepped
      refine settled_of_upToDate ?_ (upToDate_runOnce settled allowed.1 allowed.2)
      rw [sourceTables_runOnce]
      exact settled.positive

/-- After a run whose changes are recorded and whose calls rebuilt no key with a row past the
checkpoint, the next call agrees with the fold if and only if it rebuilds no such key. -/
def AgreesUnlessRebuiltAhead (r : DailyRollup Row Key Label Sums Stored)
    (includeTentative : Bool) : Prop :=
  ∀ (db : Db) (limit : ℕ),
    GuardedRun (r.reorgStep includeTentative) (r.rebuildsFolded includeTentative) Db.empty db →
      r.WholeRound includeTentative limit db →
        (r.UpToDate includeTentative (r.runOnce includeTentative limit db) ↔
          r.RebuildsFolded includeTentative db)

include empty keeps in
theorem agreesUnlessRebuiltAhead_of_laws : r.AgreesUnlessRebuiltAhead includeTentative := by
  intro db limit run round
  have settled : r.Settled includeTentative db :=
    run.invariant (settled_step keeps) (settled_empty empty)
  constructor
  · exact rebuildsFolded_of_upToDate settled.positive round.1.events
  · exact fun folded => upToDate_runOnce settled folded round

end Runs

end DailyRollup

/-- **Rebuilds and batches agree in each of the four rollups if and only if no rebuilt key has a
row past the checkpoint.** -/
theorem rebuilds_agree_iff (includeTentative : Bool) :
    eventMetrics.AgreesUnlessRebuiltAhead includeTentative ∧
      orchPayouts.AgreesUnlessRebuiltAhead includeTentative ∧
      orchRewards.AgreesUnlessRebuiltAhead includeTentative ∧
      tickets.AgreesUnlessRebuiltAhead includeTentative :=
  ⟨DailyRollup.agreesUnlessRebuiltAhead_of_laws rfl fun _ _ _ => rfl,
    DailyRollup.agreesUnlessRebuiltAhead_of_laws rfl fun _ _ _ => rfl,
    DailyRollup.agreesUnlessRebuiltAhead_of_laws rfl fun _ _ _ => rfl,
    DailyRollup.agreesUnlessRebuiltAhead_of_laws rfl fun _ _ _ => rfl⟩

/-! ## Two rewards -/

/-- A finalized reward of 1 LPT. -/
def rewardEvent (id : ℤ) (timestamp : Timestamp) (canonical : Bool) : RawEvent where
  txHash := "0xr"
  logIndex := id.toNat
  blockNumber := id
  blockHash := "0xb"
  blockTimestamp := timestamp
  contractName := .BondingManager
  eventName := .Reward
  asset := some .LPT
  amountNormalized := some ⟨10 ^ 18⟩
  isValuable := true
  fromAddress := none
  toAddress := some "0xo"
  decoded := .none
  amount_of_asset := by decide
  id := id
  finality := .finalized
  isCanonical := canonical
  finalizedAt := some 0

/-- The valuation of such a reward. -/
def rewardValuation (eventId : ℤ) : ValuationRow where
  eventId := eventId
  valuationVersion := "v1"
  asset := .LPT
  pricingMethod := "lpt_usd_seed"
  source := "seed"
  status := .priced
  blockNumber := eventId
  amountNative := ⟨10 ^ 18⟩
  nativeUsdPrice := some ⟨5 * 10 ^ 18⟩
  amountUsd := some ⟨5 * 10 ^ 18⟩
  pricingChain := "seed"

/-- The source tables of some rewards, with their valuations. -/
def rewardTables (events : List RawEvent) : SourceTables where
  rawProtocolEvents := events
  eventValuations := events.foldl (fun table e =>
    table.insert (e.id, "v1", .LPT) (rewardValuation e.id)) ∅
  broadcasterClassifications := ∅

/-- The first reward has been rolled up and is then found to be off the canonical chain, when a
reward of the next day is waiting. -/
def replacedReward : List ReorgAction :=
  [.change (rewardTables [rewardEvent 1 0 true]) [], .runOnce 10,
    .change (rewardTables [rewardEvent 1 0 false, rewardEvent 2 (toTimestamp 86400) true])
      [⟨1, 1⟩]]

/-- The rebuild of the first day and the batch of the second agree. -/
theorem replacedReward_agrees :
    ∃ db, execute (orchRewards.reorgStep false) Db.empty replacedReward = some db ∧
      orchRewards.UpToDate false (orchRewards.runOnce false 10 db) := by
  have executed : execute (orchRewards.reorgStep false) Db.empty replacedReward =
      some ((execute (orchRewards.reorgStep false) Db.empty replacedReward).get
        (by decide +kernel)) := (Option.some_get _).symm
  have run : GuardedRun (orchRewards.reorgStep false) (orchRewards.rebuildsFolded false) _ _ :=
    execute_guardedRun executed (by decide +kernel)
  exact ⟨_, executed,
    ((rebuilds_agree_iff false).2.2.1 _ 10 run (by decide +kernel)).mpr (by decide +kernel)⟩

/-- The first reward has been rolled up and is mutated, when a reward of the same day is
waiting. -/
def sameDayReward : List ReorgAction :=
  [.change (rewardTables [rewardEvent 1 0 true]) [], .runOnce 10,
    .change (rewardTables [rewardEvent 1 0 true, rewardEvent 2 0 true]) [⟨1, 1⟩]]

/-- **The rebuild counts the waiting reward, and the batch counts it again.** -/
theorem rebuilt_row_counted_twice : ¬ ∀ (db : Db) (limit : ℕ),
    GuardedRun (orchRewards.reorgStep false) (orchRewards.records false) Db.empty db →
      orchRewards.UpToDate false (orchRewards.runOnce false limit db) := by
  intro law
  have executed : execute (orchRewards.reorgStep false) Db.empty sameDayReward =
      some ((execute (orchRewards.reorgStep false) Db.empty sameDayReward).get
        (by decide +kernel)) := (Option.some_get _).symm
  have run : GuardedRun (orchRewards.reorgStep false) (orchRewards.records false) _ _ :=
    execute_guardedRun executed (by decide +kernel)
  exact absurd (law _ 10 run ⟨0, "0xo", "v1"⟩) (by decide +kernel)

end ProtocolExplorer.Rollups
