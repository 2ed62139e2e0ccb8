import ProtocolExplorer.Valuator.Columns
import ProtocolExplorer.Valuator.MultiAsset

/-!
# Which events are ever settled

What the archive answers at a finalized block does not change, so an event whose pricing ends in
an error is priced again with the same error.  The LPT side records a revert as a permanent
failure; the ETH side records no error at all, and neither side records an answer it cannot
decode.  The event stays a candidate, and its stamp caps the watermark of every pass.

* `hasOutcome_of_stores` — the outcomes after a pass are the earlier ones and those pushed;
* `pushes_iff` — when a pass pushes an outcome where its query looks;
* `stuck_passes` — an event that is left for a retry is a candidate for ever;
* `settles_exact` — **an event is settled after some number of passes if and only if every
  candidate is in range and each of its open halves is settled by what the archive answers**;
* `revertedDeposit_stuck` — a deposit at whose block a feed reverts.
-/

set_option autoImplicit false

namespace ProtocolExplorer.Valuator

open ProtocolExplorer.Lib
open ProtocolExplorer.Store
open ProtocolExplorer.Indexer

/-! ## What a pass asks for -/

/-- The assets a pass values its events in. -/
def valuedAssets : PassName → List Asset
  | .ETH => [.ETH]
  | .LPT => [.LPT]
  | .MULTI => [.LPT, .ETH]
  | .SEED => []

/-- The versions under which its query looks for an outcome. -/
def lookedFor (pass : PassName) (version : Version) : List Version :=
  match pass with
  | .ETH => [version]
  | _ => [version, degradedVersion]

/-- Is there nothing to price in the asset?  A zero half of a claim is recorded without a read. -/
def isZeroHalf (pass : PassName) (asset : Asset) (e : RawEvent) : Bool :=
  decide (pass = .MULTI) && decide (halfAmount asset e = 0)

/-- Does the result lead to an outcome where the query looks? -/
def resultSettles (version : Version) (asset : Asset) (results : PricingResults) : Prop :=
  retriable asset results = false ∧
    (asset = .LPT → lptVersion version results.lpt ∈ [version, degradedVersion])

variable {pass : PassName} {version : Version} {asset : Asset} {e : RawEvent}

theorem needsWork_eq_true_iff {db : Db} : needsWork pass version db e = true ↔
    ∃ asset ∈ valuedAssets pass, hasOutcome (lookedFor pass version) asset db e.id = false := by
  cases pass <;> simp [needsWork, valuedAssets, lookedFor]

/-! ## What a pass pushes -/

/-- Outcomes under one key are found exactly if there are any and the query looks there. -/
theorem exists_keyed_iff {outcomes : List Outcome} {found : Version} {versions : List Version}
    (keys : ∀ o ∈ outcomes, o.valuation.key = (e.id, found, asset)) :
    (∃ o ∈ outcomes, ∃ version ∈ versions, o.valuation.key = (e.id, version, asset)) ↔
      outcomes ≠ [] ∧ found ∈ versions := by
  constructor
  · rintro ⟨o, pushed, version, listed, same⟩
    refine ⟨List.ne_nil_of_mem pushed, ?_⟩
    rw [keys o pushed] at same
    exact (Prod.mk.inj (Prod.mk.inj same).2).1 ▸ listed
  · rintro ⟨nonempty, listed⟩
    obtain ⟨o, pushed⟩ := List.exists_mem_of_ne_nil _ nonempty
    exact ⟨o, pushed, found, listed, keys o pushed⟩

theorem ethOutcome_ne_nil_iff {amount : Numeric} {results : PricingResults} :
    ethOutcome version e amount results.eth ≠ [] ↔ retriable .ETH results = false := by
  unfold retriable
  rcases results.eth with error | ⟨price | detail | detail, prices⟩ <;> simp [ethOutcome]

theorem lptOutcome_ne_nil_iff {amount : Numeric} {results : PricingResults} :
    lptOutcome version e amount results.lpt ≠ [] ↔ retriable .LPT results = false := by
  unfold retriable
  rcases results.lpt with error | ⟨price | price | detail | detail | detail, prices⟩
  · simp [lptOutcome, Option.ne_none_iff_isSome]
  all_goals simp [lptOutcome]

/-- A candidate of a single-asset pass carries an amount. -/
theorem amount_of_inUniverse (about : inUniverse pass e = true) (single : pass ≠ .MULTI) :
    ∃ amount, e.amountNormalized = some amount := by
  have named : e.asset ≠ none := by
    intro none
    cases pass <;> simp [inUniverse, none] at about single
  exact Option.isSome_iff_exists.mp (e.amount_of_asset (Option.isSome_iff_ne_none.mpr named))

/-- **When a pass pushes an outcome of an event where its query looks.** -/
theorem pushes_iff {results : PricingResults} (about : inUniverse pass e = true)
    (valued : asset ∈ valuedAssets pass) :
    (∃ o ∈ outcomesOf version e results pass, ∃ found ∈ lookedFor pass version,
        o.valuation.key = (e.id, found, asset)) ↔
      isZeroHalf pass asset e = true ∨ resultSettles version asset results := by
  cases pass with
  | ETH =>
      obtain ⟨amount, carried⟩ := amount_of_inUniverse about (by decide)
      cases List.mem_singleton.mp valued
      simp only [outcomesOf, carried]
      rw [exists_keyed_iff fun o pushed => (key_of_mem_ethOutcome pushed).1, ethOutcome_ne_nil_iff]
      simp [isZeroHalf, resultSettles, lookedFor]
  | LPT =>
      obtain ⟨amount, carried⟩ := amount_of_inUniverse about (by decide)
      cases List.mem_singleton.mp valued
      simp only [outcomesOf, carried]
      rw [exists_keyed_iff fun o pushed => (key_of_mem_lptOutcome pushed).1, lptOutcome_ne_nil_iff]
      simp [isZeroHalf, resultSettles, lookedFor]
  | MULTI =>
      have own : (∃ o ∈ outcomesOf version e results .MULTI, ∃ found ∈ lookedFor .MULTI version,
            o.valuation.key = (e.id, found, asset)) ↔
          ∃ o ∈ halfOutcomes version asset e results, ∃ found ∈ lookedFor .MULTI version,
            o.valuation.key = (e.id, found, asset) := by
        refine exists_congr fun o => and_congr_left ?_
        rintro ⟨found, _, same⟩
        refine mem_claimOutcomes.trans ⟨?_, fun pushed => ⟨asset, pushed⟩⟩
        rintro ⟨half, pushed⟩
        rw [(key_of_mem_halfOutcomes pushed).1] at same
        cases (Prod.mk.inj (Prod.mk.inj same).2).2
        exact pushed
      rw [own, exists_keyed_iff fun o pushed => (key_of_mem_halfOutcomes pushed).1, ne_eq,
        halfOutcomes_eq_nil_iff]
      cases asset with
      | LPT =>
          by_cases zero : claimedAmount e.decoded.rewards = 0
          all_goals simp [leftForRetry, isZeroHalf, resultSettles, lookedFor, halfAmount,
            halfVersion, zero]
      | ETH =>
          by_cases zero : claimedAmount e.decoded.fees = 0
          all_goals simp [leftForRetry, isZeroHalf, resultSettles, lookedFor, halfAmount,
            halfVersion, zero]
  | SEED => cases valued

/-- The outcomes of an event carry its id. -/
theorem eventId_of_mem_outcomesOf {results : PricingResults} {o : Outcome}
    (pushed : o ∈ outcomesOf version e results pass) : o.valuation.key.1 = e.id := by
  unfold outcomesOf at pushed
  split at pushed
  · exact congrArg Prod.fst (key_of_mem_ethOutcome pushed).1
  · exact congrArg Prod.fst (key_of_mem_lptOutcome pushed).1
  · obtain ⟨half, own⟩ := mem_claimOutcomes.mp pushed
    exact congrArg Prod.fst (key_of_mem_halfOutcomes own).1
  · cases pushed

/-- The flag of the loop body on a result that is kept for a retry. -/
theorem recordEvent_transient {results : PricingResults} (about : inUniverse pass e = true)
    (valued : asset ∈ valuedAssets pass) (claims : isZeroHalf pass asset e = false)
    (kept : retriable asset results = true) (buffers : BulkBuffers) :
    (recordEvent pass version results e buffers).2 = true := by
  cases pass with
  | ETH =>
      obtain ⟨amount, carried⟩ := amount_of_inUniverse about (by decide)
      cases List.mem_singleton.mp valued
      unfold retriable at kept
      rcases result : results.eth with error | answer
      · simp [recordEvent, carried, recordEth, result]
      · simp [result] at kept
  | LPT =>
      obtain ⟨amount, carried⟩ := amount_of_inUniverse about (by decide)
      cases List.mem_singleton.mp valued
      unfold retriable at kept
      rcases result : results.lpt with error | answer
      · simp only [result, Option.isNone_iff_eq_none] at kept
        simp [recordEvent, carried, recordLpt, result, kept]
      · simp [result] at kept
  | MULTI =>
      have left : leftForRetry asset e results = true := by
        simpa [leftForRetry, isZeroHalf, kept] using claims
      show (recordMulti version e results buffers).2 = true
      rw [recordMulti_transient]
      cases asset <;> simp [left]
  | SEED => cases valued

/-! ## What a pass stores -/

/-- The attempt of an outcome is stored under the key of its valuation. -/
theorem Outcome.attempt_key (o : Outcome) : o.attempt.key = o.valuation.key := by
  cases o <;> rfl

/-- **The outcomes after a pass are the earlier ones and those pushed.** -/
theorem hasOutcome_of_stores {outcomes : List Outcome} {versions : List Version} {eventId : ℤ}
    {db db' : Db}
    (stores : Stores (outcomes.map Outcome.valuation) (outcomes.map Outcome.attempt) db db') :
    hasOutcome versions asset db' eventId = true ↔
      hasOutcome versions asset db eventId = true ∨
        ∃ o ∈ outcomes, ∃ version ∈ versions, o.valuation.key = (eventId, version, asset) := by
  simp only [hasOutcome_eq_true]
  constructor
  · rintro ⟨version, listed, stored | ⟨key, row, found, about, failed⟩⟩
    · obtain ⟨row, found⟩ := Finmap.mem_iff.mp stored
      rcases stores.valuationsGrow.fresh _ row found with old | ⟨_, offered, same⟩
      · exact Or.inl ⟨version, listed, Or.inl (Finmap.mem_of_lookup_eq_some old)⟩
      · obtain ⟨o, pushed, rfl⟩ := List.mem_map.mp offered
        exact Or.inr ⟨o, pushed, version, listed, same⟩
    · rcases stores.attemptsGrow.fresh key row found with old | ⟨_, offered, same⟩
      · exact Or.inl ⟨version, listed, Or.inr ⟨key, row, old, about, failed⟩⟩
      · obtain ⟨o, pushed, rfl⟩ := List.mem_map.mp offered
        exact Or.inr ⟨o, pushed, version, listed, by rw [← o.attempt_key, same, about]⟩
  · rintro (⟨version, listed, stored | ⟨key, row, found, about, failed⟩⟩ |
      ⟨o, pushed, version, listed, same⟩)
    · exact ⟨version, listed, Or.inl (stores.valuationsGrow.mem stored)⟩
    · exact ⟨version, listed,
        Or.inr ⟨key, row, stores.attemptsGrow.kept key row found, about, failed⟩⟩
    · exact ⟨version, listed, Or.inl (same ▸ stores.valued _ (List.mem_map_of_mem pushed))⟩

/-! ## A pass that completes -/

/-- A pass over the finalized rows completes, in some order of its candidates. -/
def Passes (pass : PassName) (version : Version) (results : RawEvent → PricingResults)
    (db db' : Db) : Prop :=
  ∃ joined, joined.Perm (passCandidates pass version false db) ∧
    runOnchainPass pass version results false joined db = .ok db'

section Pass

variable {results : RawEvent → PricingResults} {db db' : Db}

theorem mem_passCandidates : e ∈ passCandidates pass version false db ↔
    e ∈ db.rawProtocolEvents ∧ inUniverse pass e = true ∧ e.finality = .finalized ∧
      (∃ stamp ∈ e.finalizedAt,
        scanFloor version (version, pass) defaultLookback false db ≤ stamp) ∧
      needsWork pass version db e = true := by
  have canonical : inUniverse pass e = true → e.isCanonical = true := by
    intro about
    simp only [inUniverse, Bool.and_eq_true] at about
    exact about.1.2
  rw [passCandidates, fetchCandidatesOf, mem_orderBy, List.mem_filter]
  simp only [Bool.and_eq_true, Bool.false_or, e.eligible_false_iff, Option.any_eq_true,
    decide_eq_true_eq, Option.mem_def]
  constructor
  · rintro ⟨stored, ⟨⟨about, _, isFinal⟩, stamped⟩, unsettled⟩
    exact ⟨stored, about, isFinal, stamped, unsettled⟩
  · rintro ⟨stored, about, isFinal, stamped, unsettled⟩
    exact ⟨stored, ⟨⟨about, canonical about, isFinal⟩, stamped⟩, unsettled⟩

/-- A pass stores what it pushes and keeps the events. -/
theorem Passes.writes (passed : Passes pass version results db db') :
    ∃ joined : List RawEvent, joined.Perm (passCandidates pass version false db) ∧
      Stores ((joined.flatMap fun e => outcomesOf version e (results e) pass).map
          Outcome.valuation)
        ((joined.flatMap fun e => outcomesOf version e (results e) pass).map Outcome.attempt)
        db db' := by
  obtain ⟨joined, order, completed⟩ := passed
  refine ⟨joined, order, ?_⟩
  rw [runOnchainPass_eq completed]
  exact (stores_flush_recordNext pass version results joined db).advance ..

theorem rawProtocolEvents_advance (key : PassKey) (minUnresolved frontier : Option Timestamp)
    (includeTentative : Bool) (db : Db) :
    (advance key minUnresolved frontier includeTentative db).rawProtocolEvents =
      db.rawProtocolEvents := by
  unfold advance
  split <;> rfl

theorem Passes.events (passed : Passes pass version results db db') :
    db'.rawProtocolEvents = db.rawProtocolEvents := by
  obtain ⟨joined, order, completed⟩ := passed
  rw [runOnchainPass_eq completed, rawProtocolEvents_advance]
  exact ((ValuatorSystem.outcomesGrow_foldl_recordNext joined ⟨BulkBuffers.new, none, db⟩).trans
    (ValuatorSystem.outcomesGrow_flush _ _)).events

theorem Passes.kept (passed : Passes pass version results db db') : OutcomesKept db db' := by
  obtain ⟨joined, order, stores⟩ := passed.writes
  exact fun versions asset eventId known => (hasOutcome_of_stores stores).mpr (Or.inl known)

/-- **A pass settles an event in an asset exactly if it is a candidate and its result settles
it.** -/
theorem Passes.hasOutcome_iff (passed : Passes pass version results db db')
    (valid : IdsValid db.rawProtocolEvents) (stored : e ∈ db.rawProtocolEvents)
    (about : inUniverse pass e = true) (valued : asset ∈ valuedAssets pass) :
    hasOutcome (lookedFor pass version) asset db' e.id = true ↔
      hasOutcome (lookedFor pass version) asset db e.id = true ∨
        e ∈ passCandidates pass version false db ∧
          (isZeroHalf pass asset e = true ∨ resultSettles version asset (results e)) := by
  obtain ⟨joined, order, stores⟩ := passed.writes
  rw [hasOutcome_of_stores stores, ← pushes_iff about valued]
  refine or_congr_right ?_
  constructor
  · rintro ⟨o, pushed, found, listed, same⟩
    obtain ⟨c, isJob, own⟩ := List.mem_flatMap.mp pushed
    have candidate := order.mem_iff.mp isJob
    have sameId : c.id = e.id :=
      (eventId_of_mem_outcomesOf own).symm.trans (congrArg Prod.fst same)
    cases valid.eq_of_id_eq (mem_passCandidates.mp candidate).1 stored sameId
    exact ⟨candidate, o, own, found, listed, same⟩
  · rintro ⟨candidate, o, own, listed⟩
    exact ⟨o, List.mem_flatMap.mpr ⟨e, order.mem_iff.mpr candidate, own⟩, listed⟩

/-- An event that is kept for a retry caps the watermark. -/
theorem Passes.watermark_le (passed : Passes pass version results db db')
    (candidate : e ∈ passCandidates pass version false db) {stamp : Timestamp}
    (carried : e.finalizedAt = some stamp)
    (transient : ∀ buffers, (recordEvent pass version (results e) e buffers).2 = true) :
    ∃ cursor, db'.valuatorCursors.lookup (version, pass) = some cursor ∧
      cursor.watermark ≤ stamp := by
  obtain ⟨stored, about, isFinal, _⟩ := mem_passCandidates.mp candidate
  have events := passed.events
  obtain ⟨joined, order, completed⟩ := passed
  have done := runOnchainPass_eq completed
  obtain ⟨oldest, pinned, older⟩ := ValuatorSystem.pinned_foldl_recordNext carried
    (Or.inr ⟨order.mem_iff.mpr candidate, transient⟩ :
      ValuatorSystem.Pinned (LptLoop.mk BulkBuffers.new none db).minUnresolved e ∨ _)
  generalize joined.foldl (recordNext pass version results) ⟨BulkBuffers.new, none, db⟩ = loop
    at done pinned
  rw [done, rawProtocolEvents_advance] at events
  -- the event is itself in the frontier
  obtain ⟨newest, frontier⟩ :
      ∃ newest, frontierOf pass (flush loop.buffers loop.db) = some newest := by
    refine Option.isSome_iff_exists.mp (List.isSome_max?_of_mem (List.mem_filterMap.mpr
      ⟨e, List.mem_filter.mpr ⟨events ▸ stored, ?_⟩, carried⟩))
    simp [about, isFinal]
  rw [done, frontier]
  exact ⟨_, Table.lookup_upsert_self .., le_trans (nextWatermark_le_pin pinned newest)
    (older stamp carried)⟩

/-! ### An event that is kept for a retry -/

theorem Passes.hasValuations (passed : Passes pass version results db db')
    (valued : hasValuations version db = true) : hasValuations version db' = true := by
  obtain ⟨joined, order, stores⟩ := passed.writes
  obtain ⟨key, stored, same⟩ := of_decide_eq_true valued
  exact decide_eq_true ⟨key, Finmap.mem_keys.mpr (stores.valuationsGrow.mem
    (Finmap.mem_keys.mp stored)), same⟩

/-- A capped watermark keeps the scan floor below the event. -/
theorem scanFloor_le {key : PassKey} {stamp : Timestamp} {cursor : Cursor}
    (earlier : scanFloor version key defaultLookback false db ≤ stamp)
    (grown : hasValuations version db = true → hasValuations version db' = true)
    (stored : db'.valuatorCursors.lookup key = some cursor) (capped : cursor.watermark ≤ stamp) :
    scanFloor version key defaultLookback false db' ≤ stamp := by
  have lookback : 0 ≤ defaultLookback := by decide
  simp only [scanFloor, Bool.false_eq_true, if_false, stored]
  by_cases valued : Valuator.hasValuations version db' = true
  · rw [if_pos valued]
    linarith
  · -- without valuations both scans start at the epoch
    have unvalued : Valuator.hasValuations version db ≠ true := mt grown valued
    rw [if_neg valued]
    simp only [scanFloor, Bool.false_eq_true, if_false, unvalued] at earlier
    split at earlier <;> exact earlier

/-- **An event that is kept for a retry is a candidate of the next pass, and caps its
watermark.** -/
theorem Passes.stuck (passed : Passes pass version results db db')
    (valid : IdsValid db.rawProtocolEvents)
    (candidate : e ∈ passCandidates pass version false db) (valued : asset ∈ valuedAssets pass)
    (missing : hasOutcome (lookedFor pass version) asset db e.id = false)
    (claims : isZeroHalf pass asset e = false) (kept : retriable asset (results e) = true) :
    e ∈ passCandidates pass version false db' ∧
      hasOutcome (lookedFor pass version) asset db' e.id = false ∧
        ∃ cursor, db'.valuatorCursors.lookup (version, pass) = some cursor ∧
          ∀ stamp ∈ e.finalizedAt, cursor.watermark ≤ stamp := by
  obtain ⟨stored, about, isFinal, ⟨stamp, carried, above⟩, _⟩ := mem_passCandidates.mp candidate
  have stillMissing : hasOutcome (lookedFor pass version) asset db' e.id = false := by
    refine Bool.eq_false_iff.mpr fun known => ?_
    rcases (passed.hasOutcome_iff valid stored about valued).mp known with old | ⟨_, zero | settles⟩
    · exact absurd (missing.symm.trans old) (by decide)
    · exact absurd (claims.symm.trans zero) (by decide)
    · exact absurd (settles.1.symm.trans kept) (by decide)
  obtain ⟨cursor, read, capped⟩ := passed.watermark_le candidate carried
    (recordEvent_transient about valued claims kept)
  refine ⟨mem_passCandidates.mpr ⟨passed.events ▸ stored, about, isFinal, ⟨stamp, carried, ?_⟩,
    needsWork_eq_true_iff.mpr ⟨asset, valued, stillMissing⟩⟩, stillMissing, cursor, read, ?_⟩
  · exact scanFloor_le above passed.hasValuations read capped
  · intro own stamped
    exact Option.mem_unique carried stamped ▸ capped

end Pass

/-! ## Passes one after the other -/

/-- A number of passes that complete, one after the other. -/
def PassRun (pass : PassName) (version : Version) (results : RawEvent → PricingResults) :
    ℕ → Db → Db → Prop
  | 0, db, db' => db' = db
  | n + 1, db, db'' => ∃ db', Passes pass version results db db' ∧
      PassRun pass version results n db' db''

section Runs

variable {results : RawEvent → PricingResults} {n : ℕ} {db db' : Db}

theorem PassRun.kept (run : PassRun pass version results n db db') : OutcomesKept db db' := by
  induction n generalizing db with
  | zero =>
      cases run
      exact fun _ _ _ known => known
  | succ n inductionHypothesis =>
      obtain ⟨middle, passed, rest⟩ := run
      exact fun versions asset eventId known =>
        inductionHypothesis rest versions asset eventId (passed.kept versions asset eventId known)

/-- What its result does not settle stays open. -/
theorem PassRun.missing (run : PassRun pass version results n db db')
    (valid : IdsValid db.rawProtocolEvents) (stored : e ∈ db.rawProtocolEvents)
    (about : inUniverse pass e = true) (valued : asset ∈ valuedAssets pass)
    (missing : hasOutcome (lookedFor pass version) asset db e.id = false)
    (unsettled : ¬ (isZeroHalf pass asset e = true ∨ resultSettles version asset (results e))) :
    hasOutcome (lookedFor pass version) asset db' e.id = false := by
  induction n generalizing db with
  | zero =>
      cases run
      exact missing
  | succ n inductionHypothesis =>
      obtain ⟨middle, passed, rest⟩ := run
      refine inductionHypothesis rest (passed.events ▸ valid) (passed.events ▸ stored) ?_
      refine Bool.eq_false_iff.mpr fun known => ?_
      rcases (passed.hasOutcome_iff valid stored about valued).mp known with old | ⟨_, settles⟩
      · exact absurd (missing.symm.trans old) (by decide)
      · exact unsettled settles

/-- **An event that is kept for a retry is a candidate for ever, and caps every watermark.** -/
theorem stuck_passes (run : PassRun pass version results (n + 1) db db')
    (valid : IdsValid db.rawProtocolEvents)
    (candidate : e ∈ passCandidates pass version false db) (valued : asset ∈ valuedAssets pass)
    (missing : hasOutcome (lookedFor pass version) asset db e.id = false)
    (claims : isZeroHalf pass asset e = false) (kept : retriable asset (results e) = true) :
    e ∈ passCandidates pass version false db' ∧
      ∃ cursor, db'.valuatorCursors.lookup (version, pass) = some cursor ∧
        ∀ stamp ∈ e.finalizedAt, cursor.watermark ≤ stamp := by
  induction n generalizing db with
  | zero =>
      obtain ⟨_, passed, rfl⟩ := run
      have stuck := passed.stuck valid candidate valued missing claims kept
      exact ⟨stuck.1, stuck.2.2⟩
  | succ n inductionHypothesis =>
      obtain ⟨middle, passed, rest⟩ := run
      have stuck := passed.stuck valid candidate valued missing claims kept
      exact inductionHypothesis rest (passed.events ▸ valid) stuck.1 stuck.2.1

end Runs

/-! ## What the archive answers -/

/-- Do the answers end in an error that is kept for a retry?  A failed read, an answer outside
`i128`, a tick outside its range; on the LPT side the text of a revert is recognised. -/
def KeepsRetrying (lib : DecimalLibrary) (asset : Asset) (blockTimestamp : Timestamp)
    (reads : ArchiveReads) : Prop :=
  match asset with
  | .ETH => ∃ error, ethQuote lib blockTimestamp reads.eth = .error error
  | .LPT => ∃ error, lptQuote lib blockTimestamp reads.lpt = .error error ∧
      permanentLptFailureDetail error = none

/-- Do the answers settle the event in the asset?  A time-weighted price does so only for
`twapVersion`. -/
def AnswersSettle (pass : PassName) (lib : DecimalLibrary) (version : Version)
    (reads : RawEvent → ArchiveReads) (asset : Asset) (e : RawEvent) : Prop :=
  isZeroHalf pass asset e = true ∨
    ¬ KeepsRetrying lib asset e.blockTimestamp (reads e) ∧
      (asset = .LPT → version = twapVersion ∨
        servesTwap e.blockTimestamp (reads e).lpt = false)

/-- **The event gets its outcomes**: after some number of passes it needs no more work, and as
long as outcomes are kept no pass prices it again or takes its stamp for a cap. -/
def SettlesEventually (pass : PassName) (version : Version) (results : RawEvent → PricingResults)
    (db : Db) (e : RawEvent) : Prop :=
  ∃ n, (∃ db', PassRun pass version results n db db') ∧
    ∀ db', PassRun pass version results n db db' → needsWork pass version db' e = false ∧
      ∀ later, OutcomesKept db' later → e ∉ passCandidates pass version false later

section Answers

variable {lib : DecimalLibrary} {feeds : PriceFeeds} {reads : RawEvent → ArchiveReads} {db : Db}

theorem ethNumbers_eq_error {result : Pricing PricingOutcome} {error : String} :
    ethNumbers result = .error error ↔ result = .error error := by
  rcases result with message | ⟨price | detail | detail, prices⟩ <;> simp [ethNumbers]

theorem lptNumbers_eq_error {result : Pricing LptOutcome} {error : String} :
    lptNumbers result = .error error ↔ result = .error error := by
  rcases result with message | ⟨price | price | detail | detail | detail, prices⟩
  all_goals simp [lptNumbers]

theorem map_eq_error {ε α β : Type} {x : Except ε α} {f : α → β} {error : ε} :
    x.map f = .error error ↔ x = .error error := by
  cases x <;> simp [Except.map]

/-- A result is kept for a retry if the gates answer with such an error. -/
theorem retriable_iff : retriable asset (passResults pass lib feeds reads e) = true ↔
    KeepsRetrying lib asset e.blockTimestamp (reads e) := by
  cases asset with
  | ETH =>
      have failed : ∀ error, (passResults pass lib feeds reads e).eth = .error error ↔
          ethQuote lib e.blockTimestamp (reads e).eth = .error error := by
        intro error
        rw [← ethNumbers_eq_error, passResults, priceEthAmount_quote, map_eq_error]
      simp only [retriable, KeepsRetrying, ← failed]
      cases (passResults pass lib feeds reads e).eth <;> simp
  | LPT =>
      have failed : ∀ error, (passResults pass lib feeds reads e).lpt = .error error ↔
          lptQuote lib e.blockTimestamp (reads e).lpt = .error error := by
        intro error
        rw [← lptNumbers_eq_error, passResults, priceLptAmount_quote, map_eq_error]
      simp only [retriable, KeepsRetrying, ← failed]
      cases (passResults pass lib feeds reads e).lpt <;> simp

theorem answersSettle_iff : AnswersSettle pass lib version reads asset e ↔
    isZeroHalf pass asset e = true ∨
      resultSettles version asset (passResults pass lib feeds reads e) := by
  have listed : lptVersion version (passResults pass lib feeds reads e).lpt ∈
      [version, degradedVersion] ↔
        version = twapVersion ∨ servesTwap e.blockTimestamp (reads e).lpt = false := by
    rw [lptVersion_mem_iff, passResults, isTwap_priceLptAmount]
  have kept : retriable asset (passResults pass lib feeds reads e) = true ↔ _ := retriable_iff
  rw [AnswersSettle, resultSettles, listed, ← kept, Bool.not_eq_true]

/-- The event gets its outcomes in the first pass if the pass completes and the answers settle
it. -/
theorem settlesEventually_of_answers (valid : IdsValid db.rawProtocolEvents)
    (candidate : e ∈ passCandidates pass version false db)
    (inRange : ∀ c ∈ passCandidates pass version false db, EventInRange pass lib reads c)
    (settled : ∀ asset ∈ valuedAssets pass,
      hasOutcome (lookedFor pass version) asset db e.id = true ∨
        AnswersSettle pass lib version reads asset e) :
    SettlesEventually pass version (passResults pass lib feeds reads) db e := by
  obtain ⟨stored, about, _⟩ := mem_passCandidates.mp candidate
  obtain ⟨written, completed⟩ :=
    ((pass_fits_iff pass lib feeds reads version false db).mpr inRange).completes _ (.refl _)
  refine ⟨1, ⟨written, written, ⟨_, .refl _, completed⟩, rfl⟩, ?_⟩
  rintro db' ⟨_, passed, rfl⟩
  have finished : needsWork pass version db' e = false := by
    refine Bool.eq_false_iff.mpr fun waiting => ?_
    obtain ⟨asset, valued, missing⟩ := needsWork_eq_true_iff.mp waiting
    have known := (passed.hasOutcome_iff valid stored about valued).mpr
      ((settled asset valued).imp_right fun answers => ⟨candidate, answersSettle_iff.mp answers⟩)
    exact absurd (missing.symm.trans known) (by decide)
  refine ⟨finished, fun later kept again => ?_⟩
  have waiting := needsWork_antitone kept (mem_passCandidates.mp again).2.2.2.2
  exact absurd (finished.symm.trans waiting) (by decide)

/-- **An event gets its outcomes after some number of passes if and only if every candidate is in
range and each of its open halves is settled by what the archive answers.  With an open half that
is kept for a retry it is a candidate for ever, and no pass moves its watermark beyond it.** -/
theorem settles_exact (valid : IdsValid db.rawProtocolEvents)
    (candidate : e ∈ passCandidates pass version false db) :
    (SettlesEventually pass version (passResults pass lib feeds reads) db e ↔
        (∀ c ∈ passCandidates pass version false db, EventInRange pass lib reads c) ∧
          ∀ asset ∈ valuedAssets pass, hasOutcome (lookedFor pass version) asset db e.id = true ∨
            AnswersSettle pass lib version reads asset e) ∧
      ∀ asset ∈ valuedAssets pass, hasOutcome (lookedFor pass version) asset db e.id = false →
        isZeroHalf pass asset e = false → KeepsRetrying lib asset e.blockTimestamp (reads e) →
          ∀ n db', PassRun pass version (passResults pass lib feeds reads) (n + 1) db db' →
            e ∈ passCandidates pass version false db' ∧
              ∃ cursor, db'.valuatorCursors.lookup (version, pass) = some cursor ∧
                ∀ stamp ∈ e.finalizedAt, cursor.watermark ≤ stamp := by
  obtain ⟨stored, about, _, _, waiting⟩ := mem_passCandidates.mp candidate
  refine ⟨⟨?_, fun condition =>
      settlesEventually_of_answers valid candidate condition.1 condition.2⟩,
    fun asset valued missing claims retried n db' run =>
      stuck_passes run valid candidate valued missing claims (retriable_iff.mpr retried)⟩
  rintro ⟨n, ⟨db', run⟩, settled⟩
  have finished := (settled db' run).1
  constructor
  · cases n with
    | zero =>
        cases run
        exact absurd (finished.symm.trans waiting) (by decide)
    | succ n =>
        obtain ⟨_, ⟨joined, order, completed⟩, _⟩ := run
        intro c isCandidate
        exact (outcomesOf_fits pass reads).mp
          (runOnchainPass_ok.mp ⟨_, completed⟩ c (order.mem_iff.mpr isCandidate))
  · intro asset valued
    by_contra neither
    obtain ⟨missing, unsettled⟩ := not_or.mp neither
    have stillMissing := run.missing valid stored about valued (Bool.not_eq_true _ ▸ missing)
      (mt answersSettle_iff.mpr unsettled)
    have again := needsWork_eq_true_iff.mpr ⟨asset, valued, stillMissing⟩
    exact absurd (finished.symm.trans again) (by decide)

end Answers

/-! ## A deposit -/

/-- A finalized deposit. -/
def finalizedDeposit : RawEvent := (ValuatorSystem.depositRow 1).finalizedAs 1 0

/-- The table with the deposit. -/
def depositDb : Db := { Db.empty with rawProtocolEvents := [finalizedDeposit] }

/-- At two thousand dollars the deposit gets its outcome. -/
theorem steadyDeposit_settles : SettlesEventually .ETH twapVersion
    (passResults .ETH ⟨(· / ·), fun _ => ""⟩ ⟨"0xp", "0xc", "0xs"⟩ fun _ => steadyReads)
    depositDb finalizedDeposit := by
  have candidate : finalizedDeposit ∈ passCandidates .ETH twapVersion false depositDb := by
    decide +kernel
  have quoted : ethQuote ⟨(· / ·), fun _ => ""⟩ finalizedDeposit.blockTimestamp steadyReads.eth =
      .ok (some (200000000000 / 10 ^ chainlinkDecimals)) := by
    rfl
  refine (settles_exact ⟨by decide, by decide⟩ candidate).1.mpr ⟨?_, ?_⟩
  · intro c isCandidate amount carried quote accepted
    cases List.mem_singleton.mp (mem_passCandidates.mp isCandidate).1
    cases carried
    cases quoted.symm.trans accepted
    exact ⟨by decide +kernel, by decide +kernel⟩
  · intro asset valued
    cases List.mem_singleton.mp valued
    refine Or.inr (Or.inr ⟨?_, fun other => by cases other⟩)
    rintro ⟨error, failed⟩
    cases quoted.symm.trans failed

/-- The sequencer feed reverts at the block of the deposit. -/
def revertedReads : ArchiveReads where
  eth := ⟨.error "execution reverted", steadyReads.eth.chainlink⟩
  lpt := steadyReads.lpt

/-- **A deposit at whose block a feed reverts never gets its outcome.** -/
theorem revertedDeposit_stuck : ¬ ∀ pass lib feeds reads version db e,
    IdsValid db.rawProtocolEvents → e ∈ passCandidates pass version false db →
      SettlesEventually pass version (passResults pass lib feeds reads) db e := by
  intro law
  have candidate : finalizedDeposit ∈ passCandidates .ETH twapVersion false depositDb := by
    decide +kernel
  have valid : IdsValid depositDb.rawProtocolEvents := ⟨by decide, by decide⟩
  obtain ⟨n, ⟨db', run⟩, settled⟩ := law .ETH ⟨(· / ·), fun _ => ""⟩ ⟨"0xp", "0xc", "0xs"⟩
    (fun _ => revertedReads) twapVersion depositDb finalizedDeposit valid candidate
  have finished := (settled db' run).1
  have again : finalizedDeposit ∈ passCandidates .ETH twapVersion false db' := by
    cases n with
    | zero =>
        cases run
        exact candidate
    | succ n =>
        have valued : Asset.ETH ∈ valuedAssets .ETH := List.mem_singleton_self _
        exact (stuck_passes run valid candidate valued (by decide +kernel) rfl rfl).1
  exact absurd (finished.symm.trans (mem_passCandidates.mp again).2.2.2.2) (by decide)

end ProtocolExplorer.Valuator
