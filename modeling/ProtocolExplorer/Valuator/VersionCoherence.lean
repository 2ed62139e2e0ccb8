import ProtocolExplorer.Valuator.LptPricing
import ProtocolExplorer.Valuator.OutcomeAtomicity

/-!
# The versions of the LPT pass

The LPT pass is asked for a version.  Its candidate query looks for outcomes under that version
and under `degradedVersion`; failures are stored under the requested version, degraded prices
under `degradedVersion`, but a time-weighted price under `twapVersion`, whatever was requested.

* `stores_runOnchainPassLpt` — what a pass writes, for every order in which its jobs finish;
* `lptPass_coherent_iff` — **a pass is coherent with its candidate query exactly when it was
  asked for `twapVersion`, or no candidate gets a time-weighted price**;
* `otherVersion_is_incoherent` — a pass under another version and its candidate.
-/

set_option autoImplicit false

namespace ProtocolExplorer.Valuator

open ProtocolExplorer.Lib
open ProtocolExplorer.Store

/-! ## The pass -/

/-- The state of the loop over the finished jobs. -/
structure LptLoop where
  buffers : BulkBuffers
  minUnresolved : Option Timestamp
  db : Db

/-- `maybe_flush`. -/
def maybeFlush (buffers : BulkBuffers) (db : Db) : BulkBuffers × Db :=
  if buffers.full then (BulkBuffers.new, flush buffers db) else (buffers, db)

/-- The loop body on a finished job. -/
def joinNext (version : Version) (results : RawEvent → PricingResults) (loop : LptLoop)
    (e : RawEvent) : LptLoop :=
  let recorded := recordEvent .LPT version (results e) e loop.buffers
  let flushed := maybeFlush recorded.1 loop.db
  { buffers := flushed.1
    minUnresolved := pin recorded.2 e.finalizedAt loop.minUnresolved
    db := flushed.2 }

/-- The loop body of any pass. -/
def recordNext (pass : PassName) (version : Version) (results : RawEvent → PricingResults)
    (loop : LptLoop) (e : RawEvent) : LptLoop :=
  let recorded := recordEvent pass version (results e) e loop.buffers
  let flushed := maybeFlush recorded.1 loop.db
  { buffers := flushed.1
    minUnresolved := pin recorded.2 e.finalizedAt loop.minUnresolved
    db := flushed.2 }

/-- The candidates of `run_onchain_pass_lpt`. -/
def lptCandidates (version : Version) (includeTentative : Bool) (db : Db) : List RawEvent :=
  fetchLptCandidates version includeTentative
    (scanFloor version (version, .LPT) defaultLookback includeTentative db) db

/-- `run_onchain_pass_lpt`, on the candidates in the order in which their jobs finish. -/
def runOnchainPassLpt (version : Version) (includeTentative : Bool)
    (results : RawEvent → PricingResults) (joined : List RawEvent) (db : Db) : Db :=
  let loop := joined.foldl (joinNext version results) ⟨BulkBuffers.new, none, db⟩
  let flushed := flush loop.buffers loop.db
  advance (version, .LPT) loop.minUnresolved (frontierForAsset .LPT flushed) includeTentative
    flushed

/-- The jobs' results: `price_lpt_amount` on what the archive answers. -/
def lptResults (lib : DecimalLibrary) (feeds : PriceFeeds) (reads : RawEvent → LptReads)
    (e : RawEvent) : PricingResults where
  eth := .error "not read by this pass"
  lpt := priceLptAmount lib feeds e.blockNumber e.blockHash e.blockTimestamp
    (e.amountNormalized.getD 0).toRat (reads e)

/-! ## What is written -/

/-- The second database holds the first and the rows offered, and nothing else. -/
structure Stores (valuations : List ValuationRow) (attempts : List AttemptRow) (db db' : Db) :
    Prop where
  valuationsGrow : Table.Grown (fun key row => row ∈ valuations ∧ row.key = key)
    db.eventValuations db'.eventValuations
  attemptsGrow : Table.Grown (fun key row => row ∈ attempts ∧ row.key = key.1)
    db.valuationAttempts db'.valuationAttempts
  valued : ∀ row ∈ valuations, row.key ∈ db'.eventValuations
  attempted : ∀ row ∈ attempts, ∃ n, (row.key, n) ∉ db.valuationAttempts ∧
    (row.key, n) ∈ db'.valuationAttempts

section Stores

variable {valuations valuations' : List ValuationRow} {attempts attempts' : List AttemptRow}
  {db db' db'' : Db}

theorem Stores.refl (db : Db) : Stores [] [] db db where
  valuationsGrow := Table.Grown.refl _
  attemptsGrow := Table.Grown.refl _
  valued _ member := absurd member List.not_mem_nil
  attempted _ member := absurd member List.not_mem_nil

theorem Stores.trans (first : Stores valuations attempts db db')
    (second : Stores valuations' attempts' db' db'') :
    Stores (valuations ++ valuations') (attempts ++ attempts') db db'' where
  valuationsGrow :=
    (first.valuationsGrow.mono fun _ _ => And.imp_left (List.mem_append_left _)).trans
      (second.valuationsGrow.mono fun _ _ => And.imp_left (List.mem_append_right _))
  attemptsGrow :=
    (first.attemptsGrow.mono fun _ _ => And.imp_left (List.mem_append_left _)).trans
      (second.attemptsGrow.mono fun _ _ => And.imp_left (List.mem_append_right _))
  valued row member := by
    rcases List.mem_append.mp member with early | late
    · exact second.valuationsGrow.mem (first.valued row early)
    · exact second.valued row late
  attempted row member := by
    rcases List.mem_append.mp member with early | late
    · obtain ⟨n, fresh, written⟩ := first.attempted row early
      exact ⟨n, fresh, second.attemptsGrow.mem written⟩
    · obtain ⟨n, fresh, written⟩ := second.attempted row late
      exact ⟨n, fun earlier => fresh (first.attemptsGrow.mem earlier), written⟩

theorem stores_insertValuations (rows : List ValuationRow) (db : Db) :
    Stores rows [] db (insertValuations rows db) where
  valuationsGrow :=
    Table.grown_foldl_insertNew ValuationRow.key id (fun _ member => ⟨member, rfl⟩) _
  attemptsGrow := Table.Grown.refl _
  valued row member := (Table.mem_foldl_insertNew ValuationRow.key id _).mpr
    (Or.inr ⟨row, member, rfl⟩)
  attempted _ member := absurd member List.not_mem_nil

theorem stores_insertPrices (rows : List PriceRow) (db : Db) :
    Stores [] [] db (insertPrices rows db) where
  valuationsGrow := Table.Grown.refl _
  attemptsGrow := Table.Grown.refl _
  valued _ member := absurd member List.not_mem_nil
  attempted _ member := absurd member List.not_mem_nil

theorem stores_insertAttempts (rows : List AttemptRow) (db : Db) :
    Stores [] rows db (insertAttempts rows db) where
  valuationsGrow := Table.Grown.refl _
  attemptsGrow := by
    refine Table.grown_foldl_insertNew Prod.fst Prod.snd (fun write numbered => ?_) _
    obtain ⟨key, _, rank, ranked, number⟩ := mem_numberAttempts.mp numbered
    have chosen := List.mem_filter.mp (mem_orderBy.mp (List.mem_of_getElem? ranked))
    rw [number]
    exact ⟨chosen.1, of_decide_eq_true chosen.2⟩
  valued _ member := absurd member List.not_mem_nil
  attempted row member := by
    obtain ⟨n, fresh, found⟩ := lookup_insertAttempts member db
    exact ⟨n, fresh, Finmap.mem_of_lookup_eq_some found⟩

/-- Writing chunk after chunk stores what the chunks hold. -/
theorem stores_foldl {Row : Type} (valuationsOf : List Row → List ValuationRow)
    (attemptsOf : List Row → List AttemptRow) {write : Db → List Row → Db}
    (stores : ∀ db rows, Stores (valuationsOf rows) (attemptsOf rows) db (write db rows))
    (chunks : List (List Row)) (db : Db) :
    Stores (chunks.flatMap valuationsOf) (chunks.flatMap attemptsOf) db
      (chunks.foldl write db) := by
  induction chunks generalizing db with
  | nil => exact Stores.refl db
  | cons chunk rest inductionHypothesis =>
      rw [List.foldl_cons, List.flatMap_cons, List.flatMap_cons]
      exact (stores db chunk).trans (inductionHypothesis _)

/-- A flush stores what is buffered. -/
theorem stores_flush (buffers : BulkBuffers) (db : Db) :
    Stores buffers.valuations buffers.attempts db (flush buffers db) := by
  have valued := stores_foldl id (fun _ => []) (fun db rows => stores_insertValuations rows db)
    (buffers.valuations.toChunks flushThreshold) db
  have quoted := stores_foldl (fun _ => []) (fun _ => []) (fun db rows => stores_insertPrices rows db)
    (buffers.prices.toChunks flushThreshold)
  have tried := stores_foldl (fun _ => []) id (fun db rows => stores_insertAttempts rows db)
    (buffers.attempts.toChunks flushThreshold)
  have nothing : ∀ {Chunk Row : Type} (chunks : List Chunk),
      chunks.flatMap (fun _ => ([] : List Row)) = [] :=
    fun _ => List.flatMap_eq_nil_iff.mpr fun _ _ => rfl
  have all := (valued.trans (quoted _)).trans (tried _)
  simp only [nothing, List.flatMap_id, flatten_toChunks, List.append_nil, List.nil_append] at all
  exact all

end Stores

/-! ## What a pass writes -/

section Pass

variable {version : Version} {results : RawEvent → PricingResults} {db : Db}

/-- The outcomes pushed for the finished jobs. -/
def jobOutcomes (version : Version) (results : RawEvent → PricingResults)
    (joined : List RawEvent) : List Outcome :=
  joined.flatMap fun e => outcomesOf version e (results e) .LPT

/-- The outcomes pushed so far are stored or buffered. -/
def LoopHolds (db : Db) (pushed : List Outcome) (loop : LptLoop) : Prop :=
  ∃ flushed pending, pushed = flushed ++ pending ∧ loop.buffers = Outcome.buffersOf pending ∧
    Stores (flushed.map Outcome.valuation) (flushed.map Outcome.attempt) db loop.db

/-- A loop body that buffers some outcomes and flushes when the buffers are full. -/
theorem LoopHolds.record {pushed outcomes : List Outcome} {loop : LptLoop}
    (holds : LoopHolds db pushed loop) (record : BulkBuffers → BulkBuffers)
    (records : ∀ pending, record (Outcome.buffersOf pending) =
      Outcome.buffersOf (pending ++ outcomes)) (minUnresolved : Option Timestamp) :
    LoopHolds db (pushed ++ outcomes)
      { buffers := (maybeFlush (record loop.buffers) loop.db).1
        minUnresolved
        db := (maybeFlush (record loop.buffers) loop.db).2 } := by
  obtain ⟨flushed, pending, rfl, buffered, stores⟩ := holds
  rw [buffered, records]
  unfold maybeFlush
  split
  · have more : Stores (flushed.map Outcome.valuation ++ List.map Outcome.valuation _)
        (flushed.map Outcome.attempt ++ List.map Outcome.attempt _) db _ :=
      stores.trans (stores_flush (Outcome.buffersOf (pending ++ outcomes)) loop.db)
    rw [← List.map_append, ← List.map_append] at more
    exact ⟨_, [], by simp, rfl, more⟩
  · exact ⟨flushed, _, List.append_assoc .., rfl, stores⟩

theorem loopHolds_recordNext {pass : PassName} {pushed : List Outcome} {loop : LptLoop}
    (holds : LoopHolds db pushed loop) (e : RawEvent) :
    LoopHolds db (pushed ++ outcomesOf version e (results e) pass)
      (recordNext pass version results loop e) :=
  holds.record (fun buffers => (recordEvent pass version (results e) e buffers).1)
    (fun _ => recordEvent_eq pass) _

theorem loopHolds_foldl {body : LptLoop → RawEvent → LptLoop}
    {outcomes : RawEvent → List Outcome}
    (records : ∀ {pushed loop}, LoopHolds db pushed loop → ∀ e,
      LoopHolds db (pushed ++ outcomes e) (body loop e))
    (joined : List RawEvent) {pushed : List Outcome} {loop : LptLoop}
    (holds : LoopHolds db pushed loop) :
    LoopHolds db (pushed ++ joined.flatMap outcomes) (joined.foldl body loop) := by
  induction joined generalizing pushed loop with
  | nil =>
      rw [List.flatMap_nil, List.append_nil]
      exact holds
  | cons e rest inductionHypothesis =>
      rw [List.foldl_cons, List.flatMap_cons, ← List.append_assoc]
      exact inductionHypothesis (records holds e)

/-- The last flush stores what is still buffered. -/
theorem LoopHolds.flush {pushed : List Outcome} {loop : LptLoop}
    (holds : LoopHolds db pushed loop) :
    Stores (pushed.map Outcome.valuation) (pushed.map Outcome.attempt) db
      (flush loop.buffers loop.db) := by
  obtain ⟨flushed, pending, rfl, buffered, stores⟩ := holds
  have all := stores.trans (stores_flush loop.buffers loop.db)
  rw [List.map_append, List.map_append]
  rw [buffered] at all ⊢
  exact all

/-- **The loop and the last flush store the outcomes of the events and nothing else.** -/
theorem stores_flush_recordNext (pass : PassName) (version : Version)
    (results : RawEvent → PricingResults) (joined : List RawEvent) (db : Db) :
    let loop := joined.foldl (recordNext pass version results) ⟨BulkBuffers.new, none, db⟩
    let pushed := joined.flatMap fun e => outcomesOf version e (results e) pass
    Stores (pushed.map Outcome.valuation) (pushed.map Outcome.attempt) db
      (flush loop.buffers loop.db) := by
  have start : LoopHolds db [] ⟨BulkBuffers.new, none, db⟩ := ⟨[], [], rfl, rfl, Stores.refl db⟩
  exact (loopHolds_foldl loopHolds_recordNext joined start).flush

theorem Stores.advance {valuations : List ValuationRow} {attempts : List AttemptRow} {db' : Db}
    (stores : Stores valuations attempts db db') (key : PassKey)
    (minUnresolved frontier : Option Timestamp) (includeTentative : Bool) :
    Stores valuations attempts db
      (Valuator.advance key minUnresolved frontier includeTentative db') := by
  unfold Valuator.advance
  split
  · exact ⟨stores.valuationsGrow, stores.attemptsGrow, stores.valued, stores.attempted⟩
  · exact stores

/-- **A pass stores the outcomes of its jobs and nothing else**, in whatever order they finish. -/
theorem stores_runOnchainPassLpt (version : Version) (includeTentative : Bool)
    (results : RawEvent → PricingResults) (joined : List RawEvent) (db : Db) :
    Stores ((jobOutcomes version results joined).map Outcome.valuation)
      ((jobOutcomes version results joined).map Outcome.attempt) db
      (runOnchainPassLpt version includeTentative results joined db) :=
  (stores_flush_recordNext .LPT version results joined db).advance ..

end Pass

/-! ## The law -/

/-- Outcomes stay outcomes. -/
def OutcomesKept (db later : Db) : Prop :=
  ∀ versions asset eventId, hasOutcome versions asset db eventId = true →
    hasOutcome versions asset later eventId = true

/-- What a pass stored is under a version its candidate query checks, and what it resolved never
comes back as a candidate. -/
structure VersionCoherent (version : Version) (results : RawEvent → PricingResults)
    (joined : List RawEvent) (db after : Db) : Prop where
  valuations : ∀ key ∈ after.eventValuations, key ∉ db.eventValuations →
    key.2.1 ∈ [version, degradedVersion]
  attempts : ∀ key ∈ after.valuationAttempts, key ∉ db.valuationAttempts →
    key.1.2.1 ∈ [version, degradedVersion]
  settled : ∀ e ∈ joined, outcomesOf version e (results e) .LPT ≠ [] →
    ∀ later, OutcomesKept after later → ∀ includeTentative floor,
      ∀ candidate ∈ fetchLptCandidates version includeTentative floor later, candidate.id ≠ e.id

variable {version : Version} {e : RawEvent} {results : RawEvent → PricingResults}
  {includeTentative : Bool} {joined : List RawEvent} {db : Db}

/-- An outcome's valuation and attempt are stored under one version. -/
theorem key_of_mem_lptOutcome {amount : Numeric} {result : Pricing LptOutcome} {o : Outcome}
    (pushed : o ∈ lptOutcome version e amount result) :
    o.valuation.key = (e.id, lptVersion version result, .LPT) ∧
      o.attempt.key = (e.id, lptVersion version result, .LPT) := by
  rcases result with error | ⟨price | price | detail | detail | detail, prices⟩
  · obtain ⟨detail, _, rfl⟩ := List.mem_map.mp pushed
    exact ⟨rfl, rfl⟩
  all_goals
    cases List.mem_singleton.mp pushed
    exact ⟨rfl, rfl⟩

theorem key_of_mem_outcomesOf {results : PricingResults} {o : Outcome}
    (pushed : o ∈ outcomesOf version e results .LPT) :
    o.valuation.key = (e.id, lptVersion version results.lpt, .LPT) ∧
      o.attempt.key = (e.id, lptVersion version results.lpt, .LPT) := by
  unfold outcomesOf at pushed
  split at pushed
  · contradiction
  · exact key_of_mem_lptOutcome pushed
  · contradiction
  · cases pushed

/-- Only a time-weighted price under another version is stored where the query does not look. -/
theorem lptVersion_mem_iff (result : Pricing LptOutcome) :
    lptVersion version result ∈ [version, degradedVersion] ↔
      version = twapVersion ∨ isTwap result = false := by
  have different : twapVersion ≠ degradedVersion := by decide +kernel
  rcases result with error | ⟨price | price | detail | detail | detail, prices⟩
  case ok.pricedTwap => simp [lptVersion, isTwap, different, eq_comm]
  all_goals simp [lptVersion, isTwap]

/-- A candidate carries an amount. -/
theorem amount_of_candidate (candidate : e ∈ lptCandidates version includeTentative db) :
    ∃ amount, e.amountNormalized = some amount := by
  have chosen := (List.mem_filter.mp (mem_orderBy.mp candidate)).2
  simp only [inUniverse, Bool.and_eq_true, decide_eq_true_eq] at chosen
  exact Option.isSome_iff_exists.mp (e.amount_of_asset (by simp [chosen.1.1.1.2]))

/-- A time-weighted price of a candidate leaves a new attempt under `twapVersion`. -/
theorem attempt_of_isTwap (isJob : e ∈ joined)
    (candidate : e ∈ lptCandidates version includeTentative db)
    (twap : isTwap (results e).lpt = true) :
    ∃ n, ((e.id, twapVersion, .LPT), n) ∉ db.valuationAttempts ∧
      ((e.id, twapVersion, .LPT), n) ∈
        (runOnchainPassLpt version includeTentative results joined db).valuationAttempts := by
  obtain ⟨amount, carried⟩ := amount_of_candidate candidate
  have pushed : ∃ o, o ∈ outcomesOf version e (results e) .LPT ∧
      o.attempt.key = (e.id, twapVersion, .LPT) := by
    unfold outcomesOf
    rw [carried]
    cases lpt : (results e).lpt with
    | error message =>
        rw [lpt] at twap
        cases twap
    | ok answer =>
        obtain ⟨outcome, prices⟩ := answer
        rw [lpt] at twap
        cases outcome with
        | pricedTwap nativeUsdPrice amountUsd pricingChain =>
            exact ⟨_, List.mem_singleton_self _, rfl⟩
        | pricedDegraded | sequencerOutage | missingOracle | missingPool => cases twap
  obtain ⟨o, isPushed, key⟩ := pushed
  have stores := stores_runOnchainPassLpt version includeTentative results joined db
  have written := stores.attempted o.attempt
    (List.mem_map_of_mem (List.mem_flatMap.mpr ⟨e, isJob, isPushed⟩))
  rwa [key] at written

/-- Outcomes under checked versions make a pass coherent. -/
theorem coherent_of_listed (listed : ∀ e ∈ joined,
      lptVersion version (results e).lpt ∈ [version, degradedVersion]) :
    VersionCoherent version results joined db
      (runOnchainPassLpt version includeTentative results joined db) where
  valuations key stored absent := by
    have stores := stores_runOnchainPassLpt version includeTentative results joined db
    obtain ⟨row, found⟩ := Finmap.mem_iff.mp stored
    rcases stores.valuationsGrow.fresh key row found with old | ⟨_, offered, rfl⟩
    · exact absurd (Finmap.mem_of_lookup_eq_some old) absent
    · obtain ⟨o, pushed, rfl⟩ := List.mem_map.mp offered
      obtain ⟨e, isJob, ofJob⟩ := List.mem_flatMap.mp pushed
      rw [(key_of_mem_outcomesOf ofJob).1]
      exact listed e isJob
  attempts key stored absent := by
    have stores := stores_runOnchainPassLpt version includeTentative results joined db
    obtain ⟨row, found⟩ := Finmap.mem_iff.mp stored
    rcases stores.attemptsGrow.fresh key row found with old | ⟨_, offered, same⟩
    · exact absurd (Finmap.mem_of_lookup_eq_some old) absent
    · obtain ⟨o, pushed, rfl⟩ := List.mem_map.mp offered
      obtain ⟨e, isJob, ofJob⟩ := List.mem_flatMap.mp pushed
      rw [← same, (key_of_mem_outcomesOf ofJob).2]
      exact listed e isJob
  settled e isJob resolved later kept tentative floor candidate returned sameId := by
    have stores := stores_runOnchainPassLpt version includeTentative results joined db
    obtain ⟨o, pushed⟩ := List.exists_mem_of_ne_nil _ resolved
    have valued := stores.valued o.valuation
      (List.mem_map_of_mem (List.mem_flatMap.mpr ⟨e, isJob, pushed⟩))
    rw [(key_of_mem_outcomesOf pushed).1] at valued
    have known := kept [version, degradedVersion] .LPT e.id
      (hasOutcome_eq_true.mpr ⟨_, listed e isJob, Or.inl valued⟩)
    have unsettled := (List.mem_filter.mp (mem_orderBy.mp returned)).2
    simp only [needsWork, Bool.and_eq_true, Bool.not_eq_true'] at unsettled
    rw [sameId, known] at unsettled
    cases unsettled.2

/-- **A pass is coherent with its candidate query exactly when it was asked for `twapVersion`, or
no candidate's reads serve a time-weighted price.** -/
theorem lptPass_coherent_iff (lib : DecimalLibrary) (feeds : PriceFeeds)
    (reads : RawEvent → LptReads) (version : Version) (includeTentative : Bool) (db : Db) :
    (∀ joined, joined.Perm (lptCandidates version includeTentative db) →
        VersionCoherent version (lptResults lib feeds reads) joined db
          (runOnchainPassLpt version includeTentative (lptResults lib feeds reads) joined db)) ↔
      version = twapVersion ∨ ∀ e ∈ lptCandidates version includeTentative db,
        servesTwap e.blockTimestamp (reads e) = false := by
  constructor
  · intro coherent
    by_contra neither
    push Not at neither
    obtain ⟨other, e, candidate, serves⟩ := neither
    have twap : isTwap (lptResults lib feeds reads e).lpt = true := by
      rw [lptResults, isTwap_priceLptAmount]
      simpa using serves
    obtain ⟨n, fresh, written⟩ := attempt_of_isTwap candidate candidate twap
    have listed := (coherent _ (List.Perm.refl _)).attempts _ written fresh
    have different : twapVersion ≠ degradedVersion := by decide +kernel
    rcases List.mem_pair.mp listed with same | same
    · exact other same.symm
    · exact different same
  · intro condition joined order
    refine coherent_of_listed fun e isJob => (lptVersion_mem_iff _).mpr ?_
    refine condition.imp_right fun unserved => ?_
    rw [lptResults, isTwap_priceLptAmount]
    exact unserved e (order.mem_iff.mp isJob)

/-! ## A pass under another version -/

/-- A finalized reward of a tenth of an LPT. -/
def rewardRow : RawEvent :=
  ({ txHash := "0xt"
     logIndex := 0
     blockNumber := 1
     blockHash := "0xb"
     blockTimestamp := toTimestamp 5000
     contractName := .BondingManager
     eventName := .Reward
     asset := some .LPT
     amountNormalized := some ⟨10 ^ 17⟩
     isValuable := true
     fromAddress := none
     toAddress := some "0xo"
     decoded := .none
     amount_of_asset := amount_given } : PreparedRow).finalizedAs 1 0

/-- The sequencer is up, the oracle is fresh and the pool has its observations. -/
def healthyReads : LptReads where
  sequencer := .ok (some ⟨1, 0, 0, 0, 1⟩)
  slot0 := .ok (some ⟨2398000000000000000000000000, -69894, 200⟩)
  chainlink := .ok (some ⟨7, 200000000000, 4000, 4000, 7⟩)
  observe := .ok (some ⟨0, -69894 * 1800⟩)

/-- **A pass asked for another version stores its price under `twapVersion`.** -/
theorem otherVersion_is_incoherent :
    ¬ ∀ lib feeds reads version includeTentative db joined,
      joined.Perm (lptCandidates version includeTentative db) →
        VersionCoherent version (lptResults lib feeds reads) joined db
          (runOnchainPassLpt version includeTentative (lptResults lib feeds reads) joined db) := by
  intro law
  have candidate : rewardRow ∈ lptCandidates "v2" false
      { Db.empty with rawProtocolEvents := [rewardRow] } := by
    decide +kernel
  have twap : isTwap (lptResults ⟨(· / ·), fun _ => ""⟩ ⟨"0xp", "0xc", "0xs"⟩
      (fun _ => healthyReads) rewardRow).lpt = true := by
    rw [lptResults, isTwap_priceLptAmount]
    decide +kernel
  obtain ⟨n, fresh, written⟩ := attempt_of_isTwap candidate candidate twap
  have listed := (law _ _ _ "v2" false _ _ (List.Perm.refl _)).attempts _ written fresh
  exact absurd (show twapVersion ∈ ["v2", degradedVersion] from listed) (by decide +kernel)

end ProtocolExplorer.Valuator
