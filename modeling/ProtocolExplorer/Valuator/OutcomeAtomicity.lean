import ProtocolExplorer.Valuator.CursorSafety

/-!
# Outcomes and their audit rows

`push_priced` and `push_failed_outcome` buffer a valuation together with its attempt, after the
prices it was computed from.  `flush` writes the three buckets one after the other, in
statements of their own, and an error ends the pass and drops what is still buffered.  A
stored valuation takes its event out of the candidates, so nothing pushes the outcome again.

* `recordEvent_eq_foldl`, `recordEvent_eq` — what a pass buffers are whole outcomes;
* `sound_step` — the step lemma: every stored valuation has its audit rows, or the flush that
  wrote it still owes them;
* `atomic_of_endsWhole` — **if no flush fails after its first statement, every stored valuation
  has its attempt and its prices when no pass is running**;
* `tornFlush_loses_audit` — a flush that fails between two statements, and the retry.
-/

set_option autoImplicit false

namespace ProtocolExplorer.Valuator

open ProtocolExplorer.Lib
open ProtocolExplorer.Store

/-! ## Outcomes -/

/-- What is buffered for one valuation. -/
inductive Outcome where
  | priced (eventId : ℤ) (valuationVersion : Version) (asset : Asset)
      (pricingMethod source : String) (blockNumber : ℤ)
      (amountNative nativeUsdPrice amountUsd : Numeric) (pricingChain : String)
      (prices : List PriceRow)
  | failed (eventId : ℤ) (valuationVersion : Version) (asset : Asset)
      (pricingMethod source : String) (blockNumber : ℤ) (amountNative : Numeric)
      (resultStatus : ResultStatus) (pricingChain : String)

namespace Outcome

/-- `push_price` for every price, then `push_priced`; or `push_failed_outcome`. -/
def push (buffers : BulkBuffers) : Outcome → BulkBuffers
  | priced eventId valuationVersion asset pricingMethod source blockNumber amountNative
      nativeUsdPrice amountUsd pricingChain prices =>
      (buffers.pushPrices prices).pushPriced eventId valuationVersion asset pricingMethod source
        blockNumber amountNative nativeUsdPrice amountUsd pricingChain
  | failed eventId valuationVersion asset pricingMethod source blockNumber amountNative
      resultStatus pricingChain =>
      buffers.pushFailedOutcome eventId valuationVersion asset pricingMethod source blockNumber
        amountNative resultStatus pricingChain

/-- Its row of `event_valuations`. -/
def valuation : Outcome → ValuationRow
  | priced eventId valuationVersion asset pricingMethod source blockNumber amountNative
      nativeUsdPrice amountUsd pricingChain _ =>
      { eventId, valuationVersion, asset, pricingMethod, source, status := .priced, blockNumber,
        amountNative, nativeUsdPrice := some nativeUsdPrice, amountUsd := some amountUsd,
        pricingChain }
  | failed eventId valuationVersion asset pricingMethod source blockNumber amountNative
      resultStatus pricingChain =>
      { eventId, valuationVersion, asset, pricingMethod, source, status := resultStatus,
        blockNumber, amountNative, nativeUsdPrice := none, amountUsd := none, pricingChain }

/-- Its row of `valuation_attempts`. -/
def attempt : Outcome → AttemptRow
  | priced eventId valuationVersion asset .. =>
      { eventId, valuationVersion, asset, resultStatus := .priced, errorDetail := none }
  | failed eventId valuationVersion asset _ _ _ _ resultStatus pricingChain =>
      { eventId, valuationVersion, asset, resultStatus, errorDetail := some pricingChain }

/-- Its rows of `token_prices_by_block`. -/
def prices : Outcome → List PriceRow
  | priced _ _ _ _ _ _ _ _ _ _ prices => prices
  | failed .. => []

/-- Buffers of whole outcomes. -/
def buffersOf (outcomes : List Outcome) : BulkBuffers :=
  ⟨outcomes.map valuation, outcomes.map attempt, outcomes.flatMap prices⟩

/-- What whole outcomes leave behind whole outcomes is whole outcomes. -/
theorem foldl_push_buffersOf (outcomes pushed : List Outcome) :
    pushed.foldl push (buffersOf outcomes) = buffersOf (outcomes ++ pushed) := by
  induction pushed generalizing outcomes with
  | nil => rw [List.append_nil, List.foldl_nil]
  | cons o rest inductionHypothesis =>
      have one : o.push (buffersOf outcomes) = buffersOf (outcomes ++ [o]) := by
        cases o <;> simp [push, buffersOf, BulkBuffers.pushPriced, BulkBuffers.pushFailedOutcome,
          BulkBuffers.pushPrices, valuation, attempt, prices]
      rw [List.foldl_cons, one, inductionHypothesis, List.append_assoc, List.singleton_append]

/-- The valuations of what is pushed follow those that are buffered. -/
theorem valuations_foldl_push (buffers : BulkBuffers) (pushed : List Outcome) :
    (pushed.foldl push buffers).valuations = buffers.valuations ++ pushed.map valuation := by
  induction pushed generalizing buffers with
  | nil => rw [List.map_nil, List.append_nil, List.foldl_nil]
  | cons o rest inductionHypothesis =>
      have one : (o.push buffers).valuations = buffers.valuations ++ [o.valuation] := by
        cases o <;> rfl
      rw [List.foldl_cons, inductionHypothesis, one, List.append_assoc, List.singleton_append,
        List.map_cons]

end Outcome

/-! ## What the passes push -/

section Outcomes

variable (version : Version) (e : RawEvent) (amount : Numeric) (results : PricingResults)

/-- The outcome of an ETH result, if it is not left for a retry. -/
def ethOutcome : Pricing PricingOutcome → List Outcome
  | .ok (.priced nativeUsdPrice amountUsd pricingChain, prices) =>
      [.priced e.id version .ETH pricingMethodEth sourceEth e.blockNumber amount
        (Decimal.ofRat nativeUsdPrice) (Decimal.ofRat amountUsd) pricingChain prices]
  | .ok (.sequencerOutage detail, _) =>
      [.failed e.id version .ETH pricingMethodEth sourceEth e.blockNumber amount
        .failedSequencerOutage detail]
  | .ok (.missingOracle detail, _) =>
      [.failed e.id version .ETH pricingMethodEth sourceEth e.blockNumber amount
        .failedMissingOracle detail]
  | .error _ => []

/-- The outcome of an LPT result. -/
def lptOutcome : Pricing LptOutcome → List Outcome
  | .ok (.pricedTwap nativeUsdPrice amountUsd pricingChain, prices) =>
      [.priced e.id twapVersion .LPT pricingMethodLptTwap sourceLpt e.blockNumber amount
        (Decimal.ofRat nativeUsdPrice) (Decimal.ofRat amountUsd) pricingChain prices]
  | .ok (.pricedDegraded nativeUsdPrice amountUsd pricingChain, prices) =>
      [.priced e.id degradedVersion .LPT pricingMethodLptSpot sourceLpt e.blockNumber amount
        (Decimal.ofRat nativeUsdPrice) (Decimal.ofRat amountUsd) pricingChain prices]
  | .ok (.sequencerOutage detail, _) => [failure .failedSequencerOutage detail]
  | .ok (.missingOracle detail, _) => [failure .failedMissingOracle detail]
  | .ok (.missingPool detail, _) => [failure .failedMissingPool detail]
  | .error error => (permanentLptFailureDetail error).toList.map (failure .failedMissingPool)
where
  failure (status : ResultStatus) (detail : String) : Outcome :=
    .failed e.id version .LPT pricingMethodLptTwap sourceLpt e.blockNumber amount status detail

/-- The outcome of a zero amount. -/
def zeroOutcome (asset : Asset) (reason : String) : Outcome :=
  .priced e.id version asset "no_amount" "no_amount" e.blockNumber 0 0 0
    (jsonObject [("reason", reason)]) []

/-- The outcomes of the two halves of a claim. -/
def claimOutcomes : List Outcome :=
  (if claimedAmount e.decoded.rewards = 0 then
      [zeroOutcome version e .LPT "EarningsClaimed.rewards == 0"]
    else lptOutcome version e (claimedAmount e.decoded.rewards) results.lpt) ++
  if claimedAmount e.decoded.fees = 0 then
    [zeroOutcome version e .ETH "EarningsClaimed.fees == 0"]
  else ethOutcome version e (claimedAmount e.decoded.fees) results.eth

/-- The outcomes a pass pushes for an event. -/
def outcomesOf (pass : PassName) : List Outcome :=
  match pass, e.amountNormalized with
  | .ETH, some amount => ethOutcome version e amount results.eth
  | .LPT, some amount => lptOutcome version e amount results.lpt
  | .MULTI, _ => claimOutcomes version e results
  | _, _ => []

variable {version e amount results} {buffers : BulkBuffers}

theorem recordEth_eq (result : Pricing PricingOutcome) :
    (recordEth version e amount result buffers).1 =
      (ethOutcome version e amount result).foldl Outcome.push buffers := by
  rcases result with error | ⟨price | detail | detail, prices⟩ <;> rfl

theorem recordLpt_eq (result : Pricing LptOutcome) :
    (recordLpt version e amount result buffers).1 =
      (lptOutcome version e amount result).foldl Outcome.push buffers := by
  rcases result with error | ⟨price | price | detail | detail | detail, prices⟩
  · simp only [recordLpt, lptOutcome]
    cases permanentLptFailureDetail error <;> rfl
  all_goals rfl

theorem pushZeroRow_eq (asset : Asset) (reason : String) :
    pushZeroRow buffers e.id version asset e.blockNumber (jsonObject [("reason", reason)]) =
      [zeroOutcome version e asset reason].foldl Outcome.push buffers := by
  simp [pushZeroRow, zeroOutcome, Outcome.push, BulkBuffers.pushPrices]

theorem recordRewards_eq :
    (recordRewards version e results buffers).1 =
      (if claimedAmount e.decoded.rewards = 0 then
          [zeroOutcome version e .LPT "EarningsClaimed.rewards == 0"]
        else lptOutcome version e (claimedAmount e.decoded.rewards) results.lpt).foldl
          Outcome.push buffers := by
  unfold recordRewards
  simp only
  split_ifs
  · exact pushZeroRow_eq .LPT _
  · exact recordLpt_eq results.lpt

theorem recordFees_eq :
    (recordFees version e results buffers).1 =
      (if claimedAmount e.decoded.fees = 0 then
          [zeroOutcome version e .ETH "EarningsClaimed.fees == 0"]
        else ethOutcome version e (claimedAmount e.decoded.fees) results.eth).foldl
          Outcome.push buffers := by
  unfold recordFees
  simp only
  split_ifs
  · exact pushZeroRow_eq .ETH _
  · exact recordEth_eq results.eth

/-- Recording an event pushes its outcomes, one after the other. -/
theorem recordEvent_eq_foldl (pass : PassName) :
    (recordEvent pass version results e buffers).1 =
      (outcomesOf version e results pass).foldl Outcome.push buffers := by
  unfold recordEvent outcomesOf
  cases pass with
  | ETH =>
      cases e.amountNormalized with
      | none => rfl
      | some amount => exact recordEth_eq results.eth
  | LPT =>
      cases e.amountNormalized with
      | none => rfl
      | some amount => exact recordLpt_eq results.lpt
  | MULTI =>
      show (recordFees version e results (recordRewards version e results buffers).1).1 = _
      rw [recordFees_eq, recordRewards_eq, ← List.foldl_append]
      rfl
  | SEED => rfl

/-- **A pass pushes whole outcomes.** -/
theorem recordEvent_eq {outcomes : List Outcome} (pass : PassName) :
    (recordEvent pass version results e (Outcome.buffersOf outcomes)).1 =
      Outcome.buffersOf (outcomes ++ outcomesOf version e results pass) := by
  rw [recordEvent_eq_foldl, Outcome.foldl_push_buffersOf]

end Outcomes

/-! ## The system -/

/-- `PRICING_METHOD` of the seed pass. -/
def pricingMethodSeed : String := "seed_lookup"

/-- The database, the pass that is running, and the outcomes pushed so far. -/
structure WriterSystem where
  db : Db
  session : Option (PassKey × RunningPass)
  pushed : List Outcome

inductive WriterAction where
  /-- The indexer and the watchers. -/
  | events (rows : List RawEvent)
  /-- The seed pass. -/
  | seed (valuations : List ValuationRow) (attempts : List AttemptRow)
  /-- Another writer of prices. -/
  | mirror (prices : List PriceRow)
  | begin (key : PassKey) (includeTentative : Bool) (floor : Timestamp)
  | price (position : ℕ) (results : PricingResults)
  | flush
  | finish
  /-- An error ends the pass and drops its buffers. -/
  | fail

namespace WriterSystem

def start : WriterSystem := ⟨Db.empty, none, []⟩

/-- A pass after its candidate query. -/
def fetched (key : PassKey) (includeTentative : Bool) (floor : Timestamp) (db : Db) :
    RunningPass where
  fetchedAt := 0
  remaining := fetchCandidatesOf key.2 key.1 includeTentative floor db
  buffers := BulkBuffers.new
  minUnresolved := none
  flushing := false

/-- One statement of `flush`, or its end. -/
def flushOnce (s : WriterSystem) (key : PassKey) (run : RunningPass) : Option WriterSystem :=
  if run.flushing = true ∨ run.remaining = [] then
    match flushStatement run.buffers s.db with
    | some (buffers, written) =>
        some { s with db := written, session := some (key, { run with buffers }) }
    | none =>
        if run.flushing then some { s with session := some (key, { run with flushing := false }) }
        else none
  else none

def step (s : WriterSystem) : WriterAction → Option WriterSystem
  | .events rows => some { s with db := { s.db with rawProtocolEvents := rows } }
  | .seed valuations attempts =>
      if ∀ row ∈ valuations, row.pricingMethod = pricingMethodSeed then
        some { s with db := insertAttempts attempts (insertValuations valuations s.db) }
      else none
  | .mirror prices => some { s with db := insertPrices prices s.db }
  | .begin key includeTentative floor =>
      if s.session.isNone then
        some { s with session := some (key, fetched key includeTentative floor s.db) }
      else none
  | .price position results => do
      let (key, run) ← s.session
      if run.flushing = false ∧ position < pricesInFlight key.2 then
        let e ← run.remaining[position]?
        return { s with
          session := some (key, run.price key e position results)
          pushed := s.pushed ++ outcomesOf key.1 e results key.2 }
      else none
  | .flush => do
      let (key, run) ← s.session
      s.flushOnce key run
  | .finish => do
      let (_, run) ← s.session
      if run.remaining = [] ∧ (flushStatement run.buffers s.db).isNone then
        return { s with session := none }
      else none
  | .fail => some { s with session := none }

/-- Every stored valuation that was pushed has its attempt and its prices. -/
def Atomic (s : WriterSystem) : Prop :=
  ∀ key row, s.db.eventValuations.lookup key = some row →
    row.pricingMethod ≠ pricingMethodSeed →
    ∃ o ∈ s.pushed, o.valuation = row ∧
      (∃ n, s.db.valuationAttempts.lookup (o.attempt.key, n) = some o.attempt) ∧
      ∀ price ∈ o.prices, price.key ∈ s.db.tokenPricesByBlock

/-- The passes at a version have run to their ends and have nothing left to price. -/
def CaughtUp (version : Version) (s : WriterSystem) : Prop :=
  s.session = none ∧ ∀ pass, fetchCandidatesOf pass version true 0 s.db = []

/-- No pass ends in the middle of a flush: nothing is buffered but whole outcomes. -/
def endsWhole (s : WriterSystem) : WriterAction → Prop
  | .fail => ∀ run ∈ s.session, run.2.buffers.valuations.length = run.2.buffers.attempts.length
  | _ => True

instance decidableEndsWhole (s : WriterSystem) : ∀ a, Decidable (s.endsWhole a)
  | .fail => inferInstanceAs (Decidable
      (∀ run ∈ s.session, run.2.buffers.valuations.length = run.2.buffers.attempts.length))
  | .events _ | .seed .. | .mirror _ | .begin .. | .price .. | .flush | .finish =>
      inferInstanceAs (Decidable True)

/-! ## The invariant -/

/-- Every stored valuation that was pushed has its attempt and its prices stored, or owed by
the buffers. -/
def Covered (pushed : List Outcome) (owed : BulkBuffers) (db : Db) : Prop :=
  ∀ key row, db.eventValuations.lookup key = some row →
    row.pricingMethod ≠ pricingMethodSeed →
    ∃ o ∈ pushed, o.valuation = row ∧
      ((∃ n, db.valuationAttempts.lookup (o.attempt.key, n) = some o.attempt) ∨
        o.attempt ∈ owed.attempts) ∧
      ∀ price ∈ o.prices, price.key ∈ db.tokenPricesByBlock ∨ price ∈ owed.prices

/-- Whole outcomes are buffered, and nothing is owed. -/
def Whole (s : WriterSystem) (run : RunningPass) : Prop :=
  (∃ pending, pending ⊆ s.pushed ∧ run.buffers = Outcome.buffersOf pending) ∧
    Covered s.pushed BulkBuffers.new s.db

/-- A flush that has executed a statement and not its last. -/
structure Torn (s : WriterSystem) (run : RunningPass) : Prop where
  flushing : run.flushing = true ∨ run.remaining = []
  shorter : run.buffers.valuations.length < run.buffers.attempts.length
  pending : ∀ row ∈ run.buffers.valuations, ∃ o ∈ s.pushed, o.valuation = row ∧
    o.attempt ∈ run.buffers.attempts ∧ o.prices ⊆ run.buffers.prices
  covered : Covered s.pushed run.buffers s.db

def Sound (s : WriterSystem) : Prop :=
  match s.session with
  | none => Covered s.pushed BulkBuffers.new s.db
  | some (_, run) => Whole s run ∨ Torn s run

theorem sound_running {s : WriterSystem} {key : PassKey} {run : RunningPass}
    (running : s.session = some (key, run)) : Sound s ↔ Whole s run ∨ Torn s run := by
  rw [Sound, running]

/-- The tables only grow: valuations by seed rows, attempts and prices by anything. -/
structure AuditGrows (db db' : Db) : Prop where
  valuations : ∀ key row, db'.eventValuations.lookup key = some row →
    db.eventValuations.lookup key = some row ∨ row.pricingMethod = pricingMethodSeed
  attempts : ∀ key row, db.valuationAttempts.lookup key = some row →
    db'.valuationAttempts.lookup key = some row
  prices : ∀ key, key ∈ db.tokenPricesByBlock → key ∈ db'.tokenPricesByBlock

variable {pushed : List Outcome} {owed : BulkBuffers} {db db' : Db}

theorem Covered.mono (covered : Covered pushed owed db) (grows : AuditGrows db db') :
    Covered pushed owed db' := by
  intro key row stored method
  rcases grows.valuations key row stored with earlier | seeded
  · obtain ⟨o, member, same, attempt, prices⟩ := covered key row earlier method
    refine ⟨o, member, same, attempt.imp_left ?_, fun price listed => ?_⟩
    · rintro ⟨n, found⟩
      exact ⟨n, grows.attempts _ _ found⟩
    · exact (prices price listed).imp_left (grows.prices _)
  · exact absurd seeded method

/-- Buffers may owe more. -/
theorem Covered.owe (covered : Covered pushed BulkBuffers.new db) (owed : BulkBuffers) :
    Covered pushed owed db := by
  intro key row stored method
  obtain ⟨o, member, same, attempt, prices⟩ := covered key row stored method
  exact ⟨o, member, same, attempt.imp_right fun isOwed => absurd isOwed List.not_mem_nil,
    fun price listed =>
      (prices price listed).imp_right fun isOwed => absurd isOwed List.not_mem_nil⟩

theorem Covered.pushMore (covered : Covered pushed owed db) (more : List Outcome) :
    Covered (pushed ++ more) owed db := by
  intro key row stored method
  obtain ⟨o, member, found⟩ := covered key row stored method
  exact ⟨o, List.mem_append_left more member, found⟩

/-- Seed rows and their attempts. -/
theorem auditGrows_seed {valuations : List ValuationRow}
    (seeded : ∀ row ∈ valuations, row.pricingMethod = pricingMethodSeed)
    (attempts : List AttemptRow) (db : Db) :
    AuditGrows db (insertAttempts attempts (insertValuations valuations db)) where
  valuations key row stored := by
    have grown : Table.Grown (fun _ row => row.pricingMethod = pricingMethodSeed)
        db.eventValuations _ :=
      Table.grown_foldl_insertNew ValuationRow.key id seeded db.eventValuations
    exact (grown.fresh key row stored).imp_right And.right
  attempts key row stored := Table.lookup_foldl_insertNew_of_lookup Prod.fst Prod.snd stored
  prices _ known := known

theorem auditGrows_insertPrices (prices : List PriceRow) (db : Db) :
    AuditGrows db (insertPrices prices db) where
  valuations _ _ stored := Or.inl stored
  attempts _ _ stored := stored
  prices _ known := (Table.mem_foldl_insertNew PriceRow.key id _).mpr (Or.inl known)

theorem auditGrows_insertAttempts (attempts : List AttemptRow) (db : Db) :
    AuditGrows db (insertAttempts attempts db) where
  valuations _ _ stored := Or.inl stored
  attempts _ _ stored := Table.lookup_foldl_insertNew_of_lookup Prod.fst Prod.snd stored
  prices _ known := known

/-- A step that touches only the database and grows it. -/
theorem Sound.grow {s : WriterSystem} (sound : Sound s) (grows : AuditGrows s.db db') :
    Sound { s with db := db' } := by
  obtain ⟨db, session, pushed⟩ := s
  cases session with
  | none => exact Covered.mono sound grows
  | some current =>
      rcases sound with ⟨pending, covered⟩ | torn
      · exact Or.inl ⟨pending, covered.mono grows⟩
      · exact Or.inr ⟨torn.flushing, torn.shorter, torn.pending, torn.covered.mono grows⟩

/-! ## Statements of a flush -/

theorem covered_insertValuations {rows : List ValuationRow} (covered : Covered pushed owed db)
    (pending : ∀ row ∈ rows, ∃ o ∈ pushed, o.valuation = row ∧ o.attempt ∈ owed.attempts ∧
      o.prices ⊆ owed.prices) : Covered pushed owed (insertValuations rows db) := by
  intro key row stored method
  have grown : Table.Grown (fun _ row => row ∈ rows) db.eventValuations _ :=
    Table.grown_foldl_insertNew ValuationRow.key id (fun row member => member) db.eventValuations
  rcases grown.fresh key row stored with earlier | ⟨_, written⟩
  · exact covered key row earlier method
  · obtain ⟨o, member, same, attempt, prices⟩ := pending row written
    exact ⟨o, member, same, Or.inr attempt, fun price listed => Or.inr (prices listed)⟩

/-- A written price is no longer owed. -/
theorem covered_insertPrices (covered : Covered pushed owed db) (n : ℕ) :
    Covered pushed { owed with prices := owed.prices.drop n }
      (insertPrices (owed.prices.take n) db) := by
  intro key row stored method
  obtain ⟨o, member, same, attempt, prices⟩ :=
    (covered.mono (auditGrows_insertPrices (owed.prices.take n) db)) key row stored method
  refine ⟨o, member, same, attempt, fun price listed => ?_⟩
  rcases prices price listed with known | isOwed
  · exact Or.inl known
  · rw [← List.take_append_drop n owed.prices] at isOwed
    rcases List.mem_append.mp isOwed with written | later
    · exact Or.inl ((Table.mem_foldl_insertNew PriceRow.key id _).mpr
        (Or.inr ⟨price, written, rfl⟩))
    · exact Or.inr later

/-- A written attempt is no longer owed. -/
theorem covered_insertAttempts (covered : Covered pushed owed db) (n : ℕ) :
    Covered pushed { owed with attempts := owed.attempts.drop n }
      (insertAttempts (owed.attempts.take n) db) := by
  intro key row stored method
  obtain ⟨o, member, same, attempt, prices⟩ :=
    (covered.mono (auditGrows_insertAttempts (owed.attempts.take n) db)) key row stored method
  refine ⟨o, member, same, ?_, prices⟩
  rcases attempt with known | isOwed
  · exact Or.inl known
  · rw [← List.take_append_drop n owed.attempts] at isOwed
    rcases List.mem_append.mp isOwed with written | later
    · obtain ⟨n, _, found⟩ := lookup_insertAttempts written db
      exact Or.inl ⟨n, found⟩
    · exact Or.inr later

variable {s s' : WriterSystem} {key : PassKey} {run : RunningPass}

/-- The first statement of a flush tears it, the last makes it whole. -/
theorem sound_flushStatement (sound : Whole s run ∨ Torn s run)
    (enabled : run.flushing = true ∨ run.remaining = []) {buffers : BulkBuffers}
    (executed : flushStatement run.buffers s.db = some (buffers, db')) :
    Sound { s with db := db', session := some (key, { run with buffers }) } := by
  rcases flushStatement_cases executed with
    ⟨nonempty, rfl, rfl⟩ | ⟨⟨valued, nonempty⟩, rfl, rfl⟩ | ⟨⟨valued, mirrored, nonempty⟩, rfl, rfl⟩
  · refine Or.inr ?_
    have shorter : (run.buffers.valuations.drop flushThreshold).length <
        run.buffers.attempts.length := by
      have positive := List.length_pos_of_ne_nil nonempty
      have threshold : 0 < flushThreshold := by decide
      rw [List.length_drop]
      rcases sound with ⟨⟨pending, _, whole⟩, _⟩ | torn
      · simp only [whole, Outcome.buffersOf, List.length_map] at positive ⊢
        omega
      · have fewer := torn.shorter
        omega
    have owing : ∀ row ∈ run.buffers.valuations, ∃ o ∈ s.pushed, o.valuation = row ∧
        o.attempt ∈ run.buffers.attempts ∧ o.prices ⊆ run.buffers.prices := by
      rcases sound with ⟨⟨pending, listed, whole⟩, _⟩ | torn
      · rw [whole]
        intro row member
        obtain ⟨o, isPending, rfl⟩ := List.mem_map.mp member
        exact ⟨o, listed isPending, rfl, List.mem_map_of_mem isPending,
          fun price used => List.mem_flatMap.mpr ⟨o, isPending, used⟩⟩
      · exact torn.pending
    have covered : Covered s.pushed run.buffers s.db := by
      rcases sound with ⟨_, nothing⟩ | torn
      · exact nothing.owe _
      · exact torn.covered
    exact ⟨enabled, shorter, fun row later => owing row (List.mem_of_mem_drop later),
      covered_insertValuations covered fun row written => owing row (List.mem_of_mem_take written)⟩
  · rcases sound with ⟨⟨pending, _, whole⟩, _⟩ | torn
    · rw [whole] at valued nonempty
      rw [List.map_eq_nil_iff.mp valued] at nonempty
      exact absurd rfl nonempty
    · refine Or.inr ⟨enabled, torn.shorter, fun row member => ?_,
        covered_insertPrices torn.covered flushThreshold⟩
      rw [valued] at member
      exact absurd member List.not_mem_nil
  · rcases sound with ⟨⟨pending, _, whole⟩, _⟩ | torn
    · rw [whole] at valued nonempty
      rw [List.map_eq_nil_iff.mp valued] at nonempty
      exact absurd rfl nonempty
    · have covered := covered_insertAttempts torn.covered flushThreshold
      by_cases last : run.buffers.attempts.drop flushThreshold = []
      · refine Or.inl ⟨⟨[], List.nil_subset _, ?_⟩, ?_⟩
        · simp only [valued, mirrored, last]
          rfl
        · rw [last] at covered
          simp only [valued, mirrored] at covered
          exact covered
      · refine Or.inr ⟨enabled, ?_, fun row member => ?_, covered⟩
        · simpa only [valued, List.length_nil] using List.length_pos_of_ne_nil last
        · rw [valued] at member
          exact absurd member List.not_mem_nil

theorem sound_flush (sound : Whole s run ∨ Torn s run) (flushed : s.flushOnce key run = some s') :
    Sound s' := by
  simp only [flushOnce, Option.ite_none_right_eq_some] at flushed
  obtain ⟨enabled, executed⟩ := flushed
  split at executed
  · next buffers written statement =>
      cases executed
      exact sound_flushStatement sound enabled statement
  · next drained =>
      simp only [Option.ite_none_right_eq_some] at executed
      obtain ⟨_, ended⟩ := executed
      cases ended
      rcases sound with whole | torn
      · exact Or.inl whole
      · have shorter := torn.shorter
        rw [flushStatement_eq_none drained] at shorter
        exact absurd shorter (lt_irrefl 0)

/-! ## Every step, every run -/

/-- Recording a result buffers whole outcomes. -/
theorem sound_price (sound : Whole s run ∨ Torn s run) (idle : run.flushing = false)
    {position : ℕ} {e : RawEvent} (next : run.remaining[position]? = some e)
    (results : PricingResults) :
    Sound { s with
      session := some (key, run.price key e position results)
      pushed := s.pushed ++ outcomesOf key.1 e results key.2 } := by
  rcases sound with ⟨⟨pending, listed, whole⟩, covered⟩ | torn
  · refine Or.inl ⟨⟨pending ++ outcomesOf key.1 e results key.2, ?_, ?_⟩, covered.pushMore _⟩
    · exact List.append_subset.mpr ⟨fun o member => List.mem_append_left _ (listed member),
        List.subset_append_right ..⟩
    · show (recordEvent key.2 key.1 results e run.buffers).1 = _
      rw [whole, recordEvent_eq]
  · rcases torn.flushing with busy | priced
    · rw [idle] at busy
      cases busy
    · rw [priced] at next
      cases next

/-- The step lemma. -/
theorem sound_step (s : WriterSystem) (a : WriterAction) (s' : WriterSystem) (sound : Sound s)
    (allowed : s.endsWhole a) (stepped : step s a = some s') : Sound s' := by
  cases a with
  | events rows =>
      cases stepped
      exact sound.grow ⟨fun _ _ stored => Or.inl stored, fun _ _ stored => stored,
        fun _ known => known⟩
  | seed valuations attempts =>
      simp only [step, Option.ite_none_right_eq_some, Option.some.injEq] at stepped
      obtain ⟨seeded, rfl⟩ := stepped
      exact sound.grow (auditGrows_seed seeded attempts s.db)
  | mirror prices =>
      cases stepped
      exact sound.grow (auditGrows_insertPrices prices s.db)
  | begin key includeTentative floor =>
      simp only [step, Option.ite_none_right_eq_some, Option.some.injEq] at stepped
      obtain ⟨idle, rfl⟩ := stepped
      rw [Sound, Option.isNone_iff_eq_none.mp idle] at sound
      exact Or.inl ⟨⟨[], List.nil_subset _, rfl⟩, sound⟩
  | price position results =>
      obtain ⟨⟨key, run⟩, running, guarded⟩ := Option.bind_eq_some_iff.mp stepped
      simp only [Option.ite_none_right_eq_some] at guarded
      obtain ⟨⟨idle, _⟩, priced⟩ := guarded
      obtain ⟨e, next, recorded⟩ := Option.bind_eq_some_iff.mp priced
      cases recorded
      exact sound_price ((sound_running running).mp sound) idle next results
  | flush =>
      obtain ⟨⟨key, run⟩, running, flushed⟩ := Option.bind_eq_some_iff.mp stepped
      exact sound_flush ((sound_running running).mp sound) flushed
  | finish =>
      obtain ⟨⟨key, run⟩, running, guarded⟩ := Option.bind_eq_some_iff.mp stepped
      simp only [Option.ite_none_right_eq_some] at guarded
      obtain ⟨⟨_, drained⟩, finished⟩ := guarded
      cases finished
      rcases (sound_running running).mp sound with whole | torn
      · exact whole.2
      · have shorter := torn.shorter
        rw [flushStatement_eq_none (Option.isNone_iff_eq_none.mp drained)] at shorter
        exact absurd shorter (lt_irrefl 0)
  | fail =>
      cases stepped
      cases running : s.session with
      | none =>
          rw [Sound, running] at sound
          exact sound
      | some current =>
          obtain ⟨key, run⟩ := current
          rcases (sound_running running).mp sound with whole | torn
          · exact whole.2
          · have shorter := torn.shorter
            have level := allowed (key, run) running
            simp only at level
            omega

theorem sound_start : Sound start := by
  intro key row stored
  cases stored

theorem atomic_of_sound (sound : Sound s) (idle : s.session = none) : Atomic s := by
  rw [Sound, idle] at sound
  intro key row stored method
  obtain ⟨o, member, same, attempt, prices⟩ := sound key row stored method
  refine ⟨o, member, same, ?_, fun price listed => ?_⟩
  · exact attempt.resolve_right List.not_mem_nil
  · exact (prices price listed).resolve_right List.not_mem_nil

/-- **If no pass ends in the middle of a flush, every stored valuation has its attempt and its
prices whenever no pass is running.** -/
theorem atomic_of_endsWhole (run : GuardedRun step endsWhole start s) (idle : s.session = none) :
    Atomic s :=
  atomic_of_sound (GuardedRun.invariant sound_step run sound_start) idle

/-! ## A flush that fails between two statements -/

/-- The finalized deposit of one event. -/
def oneDeposit : List RawEvent := [(ValuatorSystem.depositRow 1).finalizedAs 1 0]

def ethPrice : PriceRow where
  asset := "ETH"
  quote := "USD"
  blockNumber := 1
  blockHash := "0xb"
  blockTimestamp := 0
  price := ⟨2000⟩
  source := "chainlink"
  poolAddress := none
  oracleAddress := some "0xo"

/-- A pass that fetches the deposit and prices it. -/
def pricesDeposit : List WriterAction :=
  [.begin ValuatorSystem.ethKey false 0,
    .price 0 ⟨.ok (.priced 2000 2 "chainlink", [ethPrice]), .error "not read"⟩]

/-- The pass fails before its flush; the retry prices the deposit again and flushes. -/
def failsWhole : List WriterAction :=
  .events oneDeposit :: (pricesDeposit ++ .fail :: (pricesDeposit ++
    [.flush, .flush, .flush, .finish]))

/-- The pass fails at the second statement of its flush; the retry has no candidate. -/
def failsTorn : List WriterAction :=
  .events oneDeposit :: (pricesDeposit ++
    [.flush, .fail, .begin ValuatorSystem.ethKey false 0, .finish])

/-- A pass that fails before it has flushed is made up for by the retry. -/
theorem failsWhole_atomic :
    ∃ s, execute step start failsWhole = some s ∧ s.session = none ∧
      s.db.eventValuations.keys.card = 1 ∧ Atomic s := by
  refine ⟨(execute step start failsWhole).get (by decide +kernel),
    (Option.some_get _).symm, by decide +kernel, by decide +kernel, ?_⟩
  exact atomic_of_endsWhole
    (execute_guardedRun (Option.some_get _).symm (by decide +kernel)) (by decide +kernel)

/-- **The failing flush has stored the valuation**: the retry finds no candidate, and neither the
attempt nor the price is ever written. -/
theorem tornFlush_loses_audit :
    ¬ ∀ version s, Run step start s → CaughtUp version s → Atomic s := by
  intro law
  have executed : execute step start failsTorn =
      some ((execute step start failsTorn).get (by decide +kernel)) :=
    (Option.some_get _).symm
  generalize ends : (execute step start failsTorn).get (by decide +kernel) = s at executed
  have caughtUp : CaughtUp twapVersion s := by
    subst ends
    exact ⟨by decide +kernel, fun pass => by cases pass <;> decide +kernel⟩
  have unaudited : s.db.valuationAttempts.keys = ∅ := by
    subst ends
    decide +kernel
  have stored : s.db.eventValuations.keys = {(1, twapVersion, .ETH)} := by
    subst ends
    decide +kernel
  have method : ∀ row, s.db.eventValuations.lookup (1, twapVersion, .ETH) = some row →
      row.pricingMethod = pricingMethodEth := by
    subst ends
    decide +kernel
  obtain ⟨row, found⟩ := Finmap.mem_iff.mp
    (Finmap.mem_keys.mp (stored ▸ Finset.mem_singleton_self (1, twapVersion, Asset.ETH)))
  obtain ⟨o, _, _, ⟨n, attempted⟩, _⟩ :=
    law _ _ (execute_run executed) caughtUp _ row found (by rw [method row found]; decide +kernel)
  have known := Finmap.mem_keys.mpr (Finmap.mem_of_lookup_eq_some attempted)
  rw [unaudited] at known
  exact absurd known (Finset.notMem_empty _)

end WriterSystem

end ProtocolExplorer.Valuator
