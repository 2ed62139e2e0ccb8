import ProtocolExplorer.Lib.Numerals
import ProtocolExplorer.Lib.OrderedBatch
import ProtocolExplorer.Valuator.LptPricing
import ProtocolExplorer.Valuator.OutcomeAtomicity

/-!
# The seed pass

`seeded_event_prices` holds trusted historical prices by transaction and asset.  The seed pass
joins them with the events that have no valuation yet and stores what it finds in batches.  A
marker keeps the number of seed rows of the last pass; while the number stays the same the pass
returns before it looks at the events.

* `matching_unique` — an event matches at most one row of the migrator;
* `grown_insertSeedBatch` — a batch stores nothing but seed valuations of events that match;
* `noSeedCandidates_of_last` — a pass that gets beyond its batches has left nothing;
* `unseeded_of_noSeedCandidates` — nor then does an on-chain pass fetch an event with a seed.
-/

set_option autoImplicit false

namespace ProtocolExplorer.Valuator

open ProtocolExplorer.Lib
open ProtocolExplorer.Store

/-! ## The seed rows -/

/-- `SEED_LOG_INDEX_SENTINEL`. -/
def seedLogIndexSentinel : ℤ := -1

/-- A row of `seeded_event_prices`. -/
structure SeededPrice where
  txHash : TxHash
  logIndex : ℤ
  asset : Asset
  amountUsd : Numeric
  assetUsdPrice : Numeric
  /-- The imported row, as JSON. -/
  raw : String
  deriving DecidableEq

namespace SeededPrice

/-- The primary key. -/
def key (seed : SeededPrice) : TxHash × ℤ × Asset := (seed.txHash, seed.logIndex, seed.asset)

/-- The condition of the join: the transaction and the asset are those of the event. -/
def matchesEvent (seed : SeededPrice) (e : RawEvent) : Bool :=
  decide (seed.txHash = e.txHash) && decide (e.asset = some seed.asset)

theorem matchesEvent_iff {seed : SeededPrice} {e : RawEvent} :
    seed.matchesEvent e = true ↔ seed.txHash = e.txHash ∧ e.asset = some seed.asset := by
  simp [matchesEvent]

/-- Only the decoded row matters. -/
theorem matchesEvent_congr {e e' : RawEvent} (same : e.toPreparedRow = e'.toPreparedRow)
    (seed : SeededPrice) : seed.matchesEvent e = seed.matchesEvent e' := by
  unfold matchesEvent
  rw [same]

end SeededPrice

/-- The two tables of the SQLite source. -/
inductive SeedTable where
  | payout
  | reward
  deriving DecidableEq

/-- What either table prices. -/
def SeedTable.asset : SeedTable → Asset
  | .payout => .ETH
  | .reward => .LPT

/-- A row of the source, its transaction id in lower case and its prices as decimals. -/
structure SourceRow where
  table : SeedTable
  transactionId : TxHash
  usd : Numeric
  price : Numeric
  json : String

/-- What is bound into the insert. -/
def SourceRow.seeded (row : SourceRow) : SeededPrice where
  txHash := row.transactionId
  logIndex := seedLogIndexSentinel
  asset := row.table.asset
  amountUsd := row.usd
  assetUsdPrice := row.price
  raw := row.json

/-- `ON CONFLICT (chain_id, tx_hash, log_index, asset) DO NOTHING`. -/
def insertSeed (seeds : List SeededPrice) (seed : SeededPrice) : List SeededPrice :=
  if seeds.any fun stored => decide (stored.key = seed.key) then seeds else seeds ++ [seed]

/-- `import_payouts` and `import_rewards`. -/
def importSeeds (rows : List SourceRow) (seeds : List SeededPrice) : List SeededPrice :=
  (rows.map SourceRow.seeded).foldl insertSeed seeds

/-- The primary key holds, and every row is one of the migrator's. -/
structure SeedsValid (seeds : List SeededPrice) : Prop where
  nodup : (seeds.map SeededPrice.key).Nodup
  sentinel : ∀ seed ∈ seeds, seed.logIndex = seedLogIndexSentinel

theorem mem_insertSeed {seeds : List SeededPrice} {seed stored : SeededPrice}
    (member : stored ∈ insertSeed seeds seed) : stored ∈ seeds ∨ stored = seed := by
  unfold insertSeed at member
  split at member
  · exact Or.inl member
  · exact (List.mem_append.mp member).imp_right List.mem_singleton.mp

theorem subset_insertSeed (seeds : List SeededPrice) (seed : SeededPrice) :
    seeds ⊆ insertSeed seeds seed := by
  intro stored member
  unfold insertSeed
  split
  · exact member
  · exact List.mem_append_left _ member

theorem seedsValid_insertSeed {seeds : List SeededPrice} (valid : SeedsValid seeds)
    {seed : SeededPrice} (sentinel : seed.logIndex = seedLogIndexSentinel) :
    SeedsValid (insertSeed seeds seed) := by
  refine ⟨?_, fun stored member => ?_⟩
  · unfold insertSeed
    split
    · exact valid.nodup
    · next free =>
        rw [List.map_append]
        refine List.nodup_append.mpr ⟨valid.nodup, List.nodup_singleton _, ?_⟩
        intro key old key' new same
        obtain ⟨stored, member, rfl⟩ := List.mem_map.mp old
        rw [List.mem_singleton.mp new] at same
        exact free (List.any_eq_true.mpr ⟨stored, member, decide_eq_true same⟩)
  · rcases mem_insertSeed member with old | rfl
    · exact valid.sentinel stored old
    · exact sentinel

theorem mem_importSeeds {rows : List SourceRow} {seeds : List SeededPrice} {seed : SeededPrice}
    (member : seed ∈ importSeeds rows seeds) :
    seed ∈ seeds ∨ ∃ row ∈ rows, seed = row.seeded := by
  induction rows generalizing seeds with
  | nil => exact Or.inl member
  | cons row rest inductionHypothesis =>
      have imported : seed ∈ importSeeds rest (insertSeed seeds row.seeded) := member
      rcases inductionHypothesis imported with earlier | ⟨other, later, same⟩
      · exact (mem_insertSeed earlier).imp_right fun same => ⟨row, List.mem_cons_self .., same⟩
      · exact Or.inr ⟨other, List.mem_cons_of_mem _ later, same⟩

theorem subset_importSeeds (rows : List SourceRow) (seeds : List SeededPrice) :
    seeds ⊆ importSeeds rows seeds := by
  induction rows generalizing seeds with
  | nil => exact List.Subset.refl _
  | cons row rest inductionHypothesis =>
      intro seed member
      exact inductionHypothesis _ (subset_insertSeed seeds row.seeded member)

theorem seedsValid_importSeeds {seeds : List SeededPrice} (valid : SeedsValid seeds)
    (rows : List SourceRow) : SeedsValid (importSeeds rows seeds) := by
  induction rows generalizing seeds with
  | nil => exact valid
  | cons row rest inductionHypothesis =>
      have one : SeedsValid (insertSeed seeds row.seeded) := seedsValid_insertSeed valid rfl
      exact inductionHypothesis one

/-- **An event matches at most one row.** -/
theorem matching_unique {seeds : List SeededPrice} (valid : SeedsValid seeds) {e : RawEvent}
    {seed seed' : SeededPrice} (member : seed ∈ seeds) (member' : seed' ∈ seeds)
    (matched : seed.matchesEvent e = true) (matched' : seed'.matchesEvent e = true) :
    seed = seed' := by
  obtain ⟨tx, asset⟩ := SeededPrice.matchesEvent_iff.mp matched
  obtain ⟨tx', asset'⟩ := SeededPrice.matchesEvent_iff.mp matched'
  apply List.inj_on_of_nodup_map valid.nodup member member'
  unfold SeededPrice.key
  rw [tx, tx', valid.sentinel seed member, valid.sentinel seed' member',
    Option.some.inj (asset.symm.trans asset')]

/-- Is there a seed for the event? -/
def isSeeded (seeds : List SeededPrice) (e : RawEvent) : Bool :=
  seeds.any fun seed => seed.matchesEvent e

theorem isSeeded_iff {seeds : List SeededPrice} {e : RawEvent} :
    isSeeded seeds e = true ↔ ∃ seed ∈ seeds, seed.matchesEvent e = true :=
  List.any_eq_true

/-! ## Candidates -/

/-- `SEED_BATCH_SIZE`. -/
def seedBatchSize : ℕ := 100000

section Candidates

variable (version : Version) (includeTentative : Bool) (seeds : List SeededPrice) (db : Db)

/-- The filter of the candidates: an event, a seed that matches it, and no valuation yet. -/
def isSeedCandidate (e : RawEvent) (seed : SeededPrice) : Bool :=
  e.isValuable && e.eligible includeTentative && e.asset.isSome && e.amountNormalized.isSome &&
    seed.matchesEvent e && !decide ((e.id, version, seed.asset) ∈ db.eventValuations.keys)

/-- `has_seed_candidates`. -/
def hasSeedCandidates : Bool :=
  db.rawProtocolEvents.any fun e => seeds.any (isSeedCandidate version includeTentative db e)

/-- The join of the batch statement. -/
def seedJoin : List (RawEvent × SeededPrice) :=
  db.rawProtocolEvents.flatMap fun e =>
    (seeds.filter (isSeedCandidate version includeTentative db e)).map fun seed => (e, seed)

/-- `ORDER BY r.block_number, r.log_index, r.id`. -/
def seedRank (candidate : RawEvent × SeededPrice) : Lex (Lex (ℤ × ℕ) × ℤ) :=
  toLex (candidate.1.position, candidate.1.id)

/-- The rows `candidate` of the batch statement. -/
def seedBatch : List (RawEvent × SeededPrice) :=
  (orderBy seedRank (seedJoin version includeTentative seeds db)).take seedBatchSize

variable {version includeTentative seeds db}

theorem isSeedCandidate_iff {e : RawEvent} {seed : SeededPrice} :
    isSeedCandidate version includeTentative db e seed = true ↔
      e.isValuable = true ∧ e.eligible includeTentative = true ∧
        e.amountNormalized.isSome = true ∧ seed.matchesEvent e = true ∧
          (e.id, version, seed.asset) ∉ db.eventValuations := by
  have named : seed.matchesEvent e = true → e.asset.isSome = true := by
    intro matched
    rw [(SeededPrice.matchesEvent_iff.mp matched).2]
    rfl
  simp only [isSeedCandidate, Bool.and_eq_true, Bool.not_eq_true', decide_eq_false_iff_not,
    Finmap.mem_keys]
  tauto

theorem hasSeedCandidates_iff :
    hasSeedCandidates version includeTentative seeds db = true ↔
      ∃ e ∈ db.rawProtocolEvents, ∃ seed ∈ seeds,
        isSeedCandidate version includeTentative db e seed = true := by
  simp only [hasSeedCandidates, List.any_eq_true]

theorem mem_seedJoin {candidate : RawEvent × SeededPrice} :
    candidate ∈ seedJoin version includeTentative seeds db ↔
      candidate.1 ∈ db.rawProtocolEvents ∧ candidate.2 ∈ seeds ∧
        isSeedCandidate version includeTentative db candidate.1 candidate.2 = true := by
  obtain ⟨e, seed⟩ := candidate
  simp only [seedJoin, List.mem_flatMap, List.mem_map, List.mem_filter, Prod.mk.injEq]
  constructor
  · rintro ⟨_, stored, _, ⟨listed, passes⟩, rfl, rfl⟩
    exact ⟨stored, listed, passes⟩
  · rintro ⟨stored, listed, passes⟩
    exact ⟨e, stored, seed, ⟨listed, passes⟩, rfl, rfl⟩

theorem mem_seedBatch {candidate : RawEvent × SeededPrice}
    (member : candidate ∈ seedBatch version includeTentative seeds db) :
    candidate.1 ∈ db.rawProtocolEvents ∧ candidate.2 ∈ seeds ∧
      isSeedCandidate version includeTentative db candidate.1 candidate.2 = true :=
  mem_seedJoin.mp (mem_orderBy.mp (List.mem_of_mem_take member))

/-- A batch is empty when there are no candidates, and only then. -/
theorem seedBatch_eq_nil_iff :
    seedBatch version includeTentative seeds db = [] ↔
      hasSeedCandidates version includeTentative seeds db = false := by
  have positive : seedBatchSize ≠ 0 := by decide
  rw [seedBatch, List.take_eq_nil_iff, or_iff_right positive, ← Bool.not_eq_true,
    hasSeedCandidates_iff, List.eq_nil_iff_forall_not_mem]
  constructor
  · rintro nothing ⟨e, stored, seed, listed, passes⟩
    exact nothing (e, seed) (mem_orderBy.mpr (mem_seedJoin.mpr ⟨stored, listed, passes⟩))
  · intro nothing candidate member
    obtain ⟨stored, listed, passes⟩ := mem_seedJoin.mp (mem_orderBy.mp member)
    exact nothing ⟨_, stored, _, listed, passes⟩

end Candidates

/-! ## The batch statement -/

/-- `SOURCE`. -/
def sourceSeed : String := "trusted_historical_seed_v1"

/-- `pricing_chain`: the price with the row it was imported from, and the result. -/
def seedPricingChain (blockNumber : ℤ) (amount : Numeric) (seed : SeededPrice) : String :=
  let asset := match seed.asset with
    | .LPT => jsonText "LPT"
    | .ETH => jsonText "ETH"
  let price := jsonText (numericText 18 seed.assetUsdPrice.units)
  jsonFields
    [("steps", jsonArray [jsonFields
        [("asset", asset), ("quote", jsonText "USD"), ("price", price),
          ("source", jsonText sourceSeed), ("block_number", toString blockNumber),
          ("raw_seed", seed.raw),
          ("note", jsonText ("amount_native re-derived from chain per SPEC §8.7 / Q-OD-1; " ++
            "price + amount_usd_authoritative_for_seed_only fields from SQLite seed"))]]),
      ("result", jsonFields
        [("asset", asset), ("quote", jsonText "USD"), ("price", price),
          ("amount_native", jsonText (numericText 18 amount.units)),
          ("amount_usd", jsonText (numericText 36 (amount.units * seed.assetUsdPrice.units)))]),
      ("_seed_amount_usd_for_audit", jsonText (numericText 18 seed.amountUsd.units))]

/-- The inserted row of a candidate, from the id and the decoded row of its event. -/
def seedValuation (version : Version) (id : ℤ) (row : PreparedRow) (seed : SeededPrice) :
    ValuationRow :=
  let amount := row.amountNormalized.getD 0
  { eventId := id
    valuationVersion := version
    asset := seed.asset
    pricingMethod := pricingMethodSeed
    source := sourceSeed
    status := .priced
    blockNumber := row.blockNumber
    amountNative := amount
    nativeUsdPrice := some seed.assetUsdPrice
    amountUsd := some (Decimal.ofRat (amount.toRat * seed.assetUsdPrice.toRat))
    pricingChain := seedPricingChain row.blockNumber amount seed }

/-- The attempt of an inserted row. -/
def seedAttempt (key : ValuationKey) : AttemptRow where
  eventId := key.1
  valuationVersion := key.2.1
  asset := key.2.2
  resultStatus := .priced
  errorDetail := none

section Batch

variable (version : Version) (includeTentative : Bool) (seeds : List SeededPrice) (db : Db)

/-- The rows offered by the batch statement. -/
def seedRows : List ValuationRow :=
  (seedBatch version includeTentative seeds db).map fun (e, seed) =>
    seedValuation version e.id e.toPreparedRow seed

/-- The keys of `inserted`; no candidate has a stored valuation. -/
def seedInserted : List ValuationKey :=
  ((seedRows version includeTentative seeds db).map ValuationRow.key).dedup

/-- The batch statement, with its `COUNT(*)`. -/
def insertSeedBatch : ℕ × Db :=
  let inserted := seedInserted version includeTentative seeds db
  (inserted.length,
    insertAttempts (inserted.map seedAttempt)
      (insertValuations (seedRows version includeTentative seeds db) db))

variable {version includeTentative seeds db}

theorem mem_seedRows {row : ValuationRow}
    (member : row ∈ seedRows version includeTentative seeds db) :
    ∃ e ∈ db.rawProtocolEvents, ∃ seed ∈ seeds, seed.matchesEvent e = true ∧
      row = seedValuation version e.id e.toPreparedRow seed := by
  obtain ⟨⟨e, seed⟩, batched, rfl⟩ := List.mem_map.mp member
  obtain ⟨stored, listed, passes⟩ := mem_seedBatch batched
  exact ⟨e, stored, seed, listed, (isSeedCandidate_iff.mp passes).2.2.2.1, rfl⟩

/-- **A batch stores nothing but seed valuations of events that match.** -/
theorem grown_insertSeedBatch :
    Table.Grown (fun key row => key = row.key ∧
        ∃ e ∈ db.rawProtocolEvents, ∃ seed ∈ seeds, seed.matchesEvent e = true ∧
          row = seedValuation version e.id e.toPreparedRow seed)
      db.eventValuations
      (insertSeedBatch version includeTentative seeds db).2.eventValuations :=
  Table.grown_foldl_insertNew ValuationRow.key id
    (fun _ member => ⟨rfl, mem_seedRows member⟩) db.eventValuations

/-- A batch that inserts nothing had no candidate. -/
theorem hasSeedCandidates_of_drained
    (drained : (insertSeedBatch version includeTentative seeds db).1 = 0) :
    hasSeedCandidates version includeTentative seeds db = false := by
  apply seedBatch_eq_nil_iff.mp
  have noKeys : seedInserted version includeTentative seeds db = [] :=
    List.length_eq_zero_iff.mp drained
  have noRows := List.map_eq_nil_iff.mp ((List.dedup_eq_nil _).mp noKeys)
  exact List.map_eq_nil_iff.mp noRows

end Batch

/-! ## The pass, statement by statement -/

/-- `record_seed_marker`. -/
def recordSeedMarker (now : Timestamp) (version : Version) (count : ℤ) (db : Db) : Db :=
  { db with
    valuatorCursors := Table.upsert db.valuatorCursors (version, .SEED) fun _ =>
      { watermark := now, seedMaxId := some count } }

/-- Where a seed pass stands between two statements; `count` is `cur_seed_count`. -/
inductive SeedPhase where
  | counted (count : ℤ)
  | compared (count : ℤ) (stored : Option ℤ)
  /-- The gate is passed. -/
  | searching (count : ℤ)
  | inserting (count : ℤ)
  | recording (count : ℤ)
  deriving DecidableEq

structure SeedPass where
  version : Version
  includeTentative : Bool
  phase : SeedPhase
  deriving DecidableEq

namespace SeedPass

/-- After the count; a pass that includes tentative rows bypasses the gate. -/
def begin (version : Version) (includeTentative : Bool) (seeds : List SeededPrice) : SeedPass where
  version := version
  includeTentative := includeTentative
  phase := if includeTentative then .searching seeds.length else .counted seeds.length

/-- The marker is the last statement, unless tentative rows are included. -/
def last (pass : SeedPass) (count : ℤ) : Option SeedPhase :=
  if pass.includeTentative then none else some (.recording count)

/-- The next statement, with the database it leaves; no phase is left when the pass returns. -/
def next (pass : SeedPass) (now : Timestamp) (seeds : List SeededPrice) (db : Db) :
    Option SeedPhase × Db :=
  match pass.phase with
  | .counted count =>
      (some (.compared count
        ((db.valuatorCursors.lookup (pass.version, .SEED)).bind Cursor.seedMaxId)), db)
  | .compared count stored =>
      (if hasValuations pass.version db && decide (stored = some count) then none
        else some (.searching count), db)
  | .searching count =>
      (if hasSeedCandidates pass.version pass.includeTentative seeds db then
          some (.inserting count)
        else pass.last count, db)
  | .inserting count =>
      let (inserted, written) := insertSeedBatch pass.version pass.includeTentative seeds db
      (if inserted = 0 then pass.last count else some (.inserting count), written)
  | .recording count => (none, recordSeedMarker now pass.version count db)

variable {pass : SeedPass} {now : Timestamp} {seeds : List SeededPrice} {db : Db}

/-- What a statement of the pass does to the database. -/
theorem next_cases (pass : SeedPass) (now : Timestamp) (seeds : List SeededPrice) (db : Db) :
    (pass.next now seeds db).2 = db ∨
      (pass.next now seeds db).2 =
        (insertSeedBatch pass.version pass.includeTentative seeds db).2 ∨
      ∃ count, (pass.next now seeds db).2 = recordSeedMarker now pass.version count db := by
  obtain ⟨version, includeTentative, phase⟩ := pass
  cases phase with
  | counted count => exact Or.inl rfl
  | compared count stored => exact Or.inl rfl
  | searching count => exact Or.inl rfl
  | inserting count => exact Or.inr (Or.inl rfl)
  | recording count => exact Or.inr (Or.inr ⟨count, rfl⟩)

/-- **A pass that gets beyond its batches has left no candidate.** -/
theorem noSeedCandidates_of_last {count : ℤ}
    (working : pass.phase = .searching count ∨ pass.phase = .inserting count)
    (ends : (pass.next now seeds db).1 = pass.last count) :
    hasSeedCandidates pass.version pass.includeTentative seeds db = false := by
  obtain ⟨version, includeTentative, phase⟩ := pass
  have notLast : ∀ count', some (SeedPhase.inserting count') ≠
      last ⟨version, includeTentative, phase⟩ count := by
    intro count' same
    unfold last at same
    split at same <;> cases same
  rcases working with rfl | rfl
  · by_contra found
    simp only [next, Bool.not_eq_false _ ▸ found, if_true] at ends
    exact notLast _ ends
  · apply hasSeedCandidates_of_drained
    by_contra inserted
    simp only [next, if_neg inserted] at ends
    exact notLast _ ends

end SeedPass

/-! ## What the on-chain passes see -/

/-- **An on-chain pass that starts when the seed pass has left nothing fetches no event with a
seed.** -/
theorem unseeded_of_noSeedCandidates {pass : PassName} {version : Version}
    {includeTentative : Bool} {floor : Timestamp} {seeds : List SeededPrice} {db : Db}
    (nothing : hasSeedCandidates version includeTentative seeds db = false) {e : RawEvent}
    (fetched : e ∈ fetchCandidatesOf pass version includeTentative floor db) :
    isSeeded seeds e = false := by
  obtain ⟨stored, selected⟩ := List.mem_filter.mp (mem_orderBy.mp fetched)
  simp only [Bool.and_eq_true] at selected
  obtain ⟨⟨⟨about, eligible⟩, _⟩, waiting⟩ := selected
  by_contra seeded
  obtain ⟨seed, listed, matched⟩ := isSeeded_iff.mp (Bool.not_eq_false _ ▸ seeded)
  obtain ⟨_, named⟩ := SeededPrice.matchesEvent_iff.mp matched
  have amount : e.amountNormalized.isSome = true := e.amount_of_asset (by rw [named]; rfl)
  have valuable : e.isValuable = true := by
    simp only [inUniverse, Bool.and_eq_true] at about
    exact about.1.1
  refine Bool.eq_false_iff.mp nothing
    (hasSeedCandidates_iff.mpr ⟨e, stored, seed, listed, isSeedCandidate_iff.mpr
      ⟨valuable, eligible, amount, matched, fun valued => ?_⟩⟩)
  have known : ∀ versions, version ∈ versions →
      hasOutcome versions seed.asset db e.id = true := fun versions member =>
    hasOutcome_eq_true.mpr ⟨version, member, Or.inl valued⟩
  cases pass with
  | ETH =>
      simp only [inUniverse, Bool.and_eq_true, decide_eq_true_eq] at about
      have ether : seed.asset = .ETH := Option.some.inj (named.symm.trans about.2)
      rw [ether] at known
      simp [needsWork, known [version] (List.mem_cons_self ..)] at waiting
  | LPT =>
      simp only [inUniverse, Bool.and_eq_true, decide_eq_true_eq] at about
      have token : seed.asset = .LPT := Option.some.inj (named.symm.trans about.2)
      rw [token] at known
      simp [needsWork, known [version, degradedVersion] (List.mem_cons_self ..)] at waiting
  | MULTI =>
      simp [inUniverse, named] at about
  | SEED => cases waiting

end ProtocolExplorer.Valuator
