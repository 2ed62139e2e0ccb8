import ProtocolExplorer.Valuator.VersionCoherence

/-!
# The two halves of a claim

An `EarningsClaimed` event is valued in LPT and in ETH.  The candidate query asks for events that
miss an outcome of either half, and the loop prices both halves of what it returns: a half that
has its outcome is priced again while the other one waits.

* `halfOutcomes_eq_nil_iff` — only an error that may be transient leaves a half for a retry;
* `sound_runMultiAssetPass` — the step lemma: a pass keeps open halves above the scan floor;
* `halvesStable_iff` — **a pass adds nothing to the halves that have an outcome if and only if
  each of them it prices again is left for a retry**;
* `halves_stay` — **in every run an open half is a candidate until it has an outcome, and a pass
  is stable under that condition alone**;
* `halfPriced_twice` — a claim whose LPT half is priced by two passes.
-/

set_option autoImplicit false

namespace ProtocolExplorer.Valuator

open ProtocolExplorer.Lib
open ProtocolExplorer.Store
open ProtocolExplorer.Indexer

/-! ## The pass -/

/-- The loop body on a claim. -/
def claimNext (version : Version) (results : RawEvent → PricingResults) (loop : LptLoop)
    (e : RawEvent) : LptLoop :=
  let recorded := recordMulti version e (results e) loop.buffers
  let flushed := maybeFlush recorded.1 loop.db
  { buffers := flushed.1
    minUnresolved := pin recorded.2 e.finalizedAt loop.minUnresolved
    db := flushed.2 }

/-- The candidates of `run_multi_asset_pass`. -/
def multiAssetCandidates (version : Version) (includeTentative : Bool) (db : Db) :
    List RawEvent :=
  fetchMultiAssetCandidates version includeTentative
    (scanFloor version (version, .MULTI) defaultLookback includeTentative db) db

/-- The loop over the candidates. -/
def claimLoop (version : Version) (includeTentative : Bool)
    (results : RawEvent → PricingResults) (db : Db) : LptLoop :=
  (multiAssetCandidates version includeTentative db).foldl (claimNext version results)
    ⟨BulkBuffers.new, none, db⟩

/-- `run_multi_asset_pass`. -/
def runMultiAssetPass (version : Version) (includeTentative : Bool)
    (results : RawEvent → PricingResults) (db : Db) : Db :=
  let loop := claimLoop version includeTentative results db
  let flushed := flush loop.buffers loop.db
  advance (version, .MULTI) loop.minUnresolved (frontierMulti flushed) includeTentative flushed

/-! ## The halves -/

/-- The amount of a half. -/
def halfAmount (asset : Asset) (e : RawEvent) : Numeric :=
  match asset with
  | .LPT => claimedAmount e.decoded.rewards
  | .ETH => claimedAmount e.decoded.fees

/-- Is the half's pricing result an error that may be transient? -/
def retriable (asset : Asset) (results : PricingResults) : Bool :=
  match asset with
  | .LPT =>
      match results.lpt with
      | .ok _ => false
      | .error error => (permanentLptFailureDetail error).isNone
  | .ETH =>
      match results.eth with
      | .ok _ => false
      | .error _ => true

/-- Does the pass leave the half for a retry? -/
def leftForRetry (asset : Asset) (e : RawEvent) (results : PricingResults) : Bool :=
  decide (halfAmount asset e ≠ 0) && retriable asset results

/-- The version the half's outcome goes under. -/
def halfVersion (version : Version) (asset : Asset) (e : RawEvent) (results : PricingResults) :
    Version :=
  match asset with
  | .LPT =>
      if claimedAmount e.decoded.rewards = 0 then version else lptVersion version results.lpt
  | .ETH => version

/-- The outcomes of a half. -/
def halfOutcomes (version : Version) (asset : Asset) (e : RawEvent) (results : PricingResults) :
    List Outcome :=
  match asset with
  | .LPT =>
      if claimedAmount e.decoded.rewards = 0 then
        [zeroOutcome version e .LPT "EarningsClaimed.rewards == 0"]
      else lptOutcome version e (claimedAmount e.decoded.rewards) results.lpt
  | .ETH =>
      if claimedAmount e.decoded.fees = 0 then
        [zeroOutcome version e .ETH "EarningsClaimed.fees == 0"]
      else ethOutcome version e (claimedAmount e.decoded.fees) results.eth

variable {version : Version} {e : RawEvent} {asset : Asset}

theorem claimOutcomes_eq (version : Version) (e : RawEvent) (results : PricingResults) :
    claimOutcomes version e results =
      halfOutcomes version .LPT e results ++ halfOutcomes version .ETH e results := rfl

theorem mem_claimOutcomes {results : PricingResults} {o : Outcome} :
    o ∈ claimOutcomes version e results ↔ ∃ asset, o ∈ halfOutcomes version asset e results := by
  rw [claimOutcomes_eq, List.mem_append]
  constructor
  · rintro (lpt | eth)
    · exact ⟨.LPT, lpt⟩
    · exact ⟨.ETH, eth⟩
  · rintro ⟨asset, pushed⟩
    cases asset with
    | LPT => exact Or.inl pushed
    | ETH => exact Or.inr pushed

/-- A half has no outcome exactly when it is left for a retry. -/
theorem halfOutcomes_eq_nil_iff {results : PricingResults} :
    halfOutcomes version asset e results = [] ↔ leftForRetry asset e results = true := by
  cases asset with
  | LPT =>
      unfold halfOutcomes leftForRetry retriable halfAmount
      by_cases zero : claimedAmount e.decoded.rewards = 0
      · simp [zero]
      · rcases results.lpt with error | ⟨price | price | detail | detail | detail, prices⟩
        all_goals simp [zero, lptOutcome]
  | ETH =>
      unfold halfOutcomes leftForRetry retriable halfAmount
      by_cases zero : claimedAmount e.decoded.fees = 0
      · simp [zero]
      · rcases results.eth with error | ⟨price | detail | detail, prices⟩
        all_goals simp [zero, ethOutcome]

theorem key_of_mem_ethOutcome {amount : Numeric} {result : Pricing PricingOutcome} {o : Outcome}
    (pushed : o ∈ ethOutcome version e amount result) :
    o.valuation.key = (e.id, version, .ETH) ∧ o.attempt.key = (e.id, version, .ETH) := by
  rcases result with error | ⟨price | detail | detail, prices⟩
  · cases pushed
  all_goals
    cases List.mem_singleton.mp pushed
    exact ⟨rfl, rfl⟩

/-- The rows of a half are stored under one version. -/
theorem key_of_mem_halfOutcomes {results : PricingResults} {o : Outcome}
    (pushed : o ∈ halfOutcomes version asset e results) :
    o.valuation.key = (e.id, halfVersion version asset e results, asset) ∧
      o.attempt.key = (e.id, halfVersion version asset e results, asset) := by
  cases asset with
  | LPT =>
      unfold halfOutcomes at pushed
      unfold halfVersion
      by_cases zero : claimedAmount e.decoded.rewards = 0
      · simp only [zero, if_true, List.mem_singleton] at pushed ⊢
        subst pushed
        exact ⟨rfl, rfl⟩
      · simp only [zero, if_false] at pushed ⊢
        exact key_of_mem_lptOutcome pushed
  | ETH =>
      unfold halfOutcomes at pushed
      by_cases zero : claimedAmount e.decoded.fees = 0
      · simp only [zero, if_true, List.mem_singleton] at pushed
        subst pushed
        exact ⟨rfl, rfl⟩
      · simp only [zero, if_false] at pushed
        exact key_of_mem_ethOutcome pushed

/-- The flag of the loop body. -/
theorem recordMulti_transient (version : Version) (e : RawEvent) (results : PricingResults)
    (buffers : BulkBuffers) : (recordMulti version e results buffers).2 =
      (leftForRetry .LPT e results || leftForRetry .ETH e results) := by
  have rewards : ∀ buffers, (recordRewards version e results buffers).2 =
      leftForRetry .LPT e results := by
    intro buffers
    unfold recordRewards leftForRetry retriable halfAmount
    by_cases zero : claimedAmount e.decoded.rewards = 0
    · simp [zero]
    · rcases results.lpt with error | ⟨price | price | detail | detail | detail, prices⟩
      · cases permanent : permanentLptFailureDetail error <;> simp [zero, recordLpt, permanent]
      all_goals simp [zero, recordLpt]
  have fees : ∀ buffers, (recordFees version e results buffers).2 =
      leftForRetry .ETH e results := by
    intro buffers
    unfold recordFees leftForRetry retriable halfAmount
    by_cases zero : claimedAmount e.decoded.fees = 0
    · simp [zero]
    · rcases results.eth with error | ⟨price | detail | detail, prices⟩
      all_goals simp [zero, recordEth]
  unfold recordMulti
  simp only
  rw [rewards, fees]

/-! ## What a pass writes -/

section Pass

variable {results : RawEvent → PricingResults} {includeTentative : Bool} {db : Db}

/-- The outcomes a pass pushes. -/
def claimsPushed (version : Version) (includeTentative : Bool)
    (results : RawEvent → PricingResults) (db : Db) : List Outcome :=
  (multiAssetCandidates version includeTentative db).flatMap fun e =>
    claimOutcomes version e (results e)

theorem mem_claimsPushed {o : Outcome} : o ∈ claimsPushed version includeTentative results db ↔
    ∃ e ∈ multiAssetCandidates version includeTentative db, ∃ asset,
      o ∈ halfOutcomes version asset e (results e) := by
  rw [claimsPushed, List.mem_flatMap]
  exact exists_congr fun e => and_congr_right fun _ => mem_claimOutcomes

theorem claimLoop_eq (version : Version) (includeTentative : Bool)
    (results : RawEvent → PricingResults) (db : Db) :
    claimLoop version includeTentative results db =
      (multiAssetCandidates version includeTentative db).foldl (recordNext .MULTI version results)
        ⟨BulkBuffers.new, none, db⟩ := rfl

/-- What the loop and the last flush have stored. -/
theorem stores_claims (version : Version) (includeTentative : Bool)
    (results : RawEvent → PricingResults) (db : Db) :
    Stores ((claimsPushed version includeTentative results db).map Outcome.valuation)
      ((claimsPushed version includeTentative results db).map Outcome.attempt) db
      (flush (claimLoop version includeTentative results db).buffers
        (claimLoop version includeTentative results db).db) :=
  stores_flush_recordNext .MULTI version results
    (multiAssetCandidates version includeTentative db) db

/-- **A pass stores the outcomes of its candidates' halves and nothing else.** -/
theorem stores_runMultiAssetPass (version : Version) (includeTentative : Bool)
    (results : RawEvent → PricingResults) (db : Db) :
    Stores ((claimsPushed version includeTentative results db).map Outcome.valuation)
      ((claimsPushed version includeTentative results db).map Outcome.attempt) db
      (runMultiAssetPass version includeTentative results db) :=
  (stores_claims version includeTentative results db).advance ..

/-! ## Stability -/

/-- Two databases hold the same valuations and attempts for a half. -/
structure SameHalf (eventId : ℤ) (asset : Asset) (db db' : Db) : Prop where
  valuations : ∀ version, db'.eventValuations.lookup (eventId, version, asset) =
    db.eventValuations.lookup (eventId, version, asset)
  attempts : ∀ version n, db'.valuationAttempts.lookup ((eventId, version, asset), n) =
    db.valuationAttempts.lookup ((eventId, version, asset), n)

/-- A change adds nothing to the halves that have an outcome under a pass's versions. -/
def HalvesStable (version : Version) (db db' : Db) : Prop :=
  ∀ eventId asset, hasOutcome [version, degradedVersion] asset db eventId = true →
    SameHalf eventId asset db db'

/-- A pass leaves every half it prices again for a retry. -/
def leavesSettled (version : Version) (includeTentative : Bool)
    (results : RawEvent → PricingResults) (db : Db) : Prop :=
  ∀ e ∈ multiAssetCandidates version includeTentative db, ∀ asset,
    hasOutcome [version, degradedVersion] asset db e.id = true →
      leftForRetry asset e (results e) = true

instance : Decidable (leavesSettled version includeTentative results db) :=
  decidable_of_iff (∀ e ∈ multiAssetCandidates version includeTentative db,
      ∀ asset ∈ [Asset.LPT, Asset.ETH],
        hasOutcome [version, degradedVersion] asset db e.id = true →
          leftForRetry asset e (results e) = true)
    (forall₂_congr fun _ _ => forall_congr' fun asset => by cases asset <;> simp)

/-- A half that no pushed outcome is about stays the same. -/
theorem sameHalf_of_stores {outcomes : List Outcome} {eventId : ℤ} {db' : Db}
    (stores : Stores (outcomes.map Outcome.valuation) (outcomes.map Outcome.attempt) db db')
    (foreign : ∀ o ∈ outcomes, ∀ version, o.valuation.key ≠ (eventId, version, asset) ∧
      o.attempt.key ≠ (eventId, version, asset)) : SameHalf eventId asset db db' where
  valuations version := by
    refine stores.valuationsGrow.lookup_eq fun row isOffered => ?_
    obtain ⟨o, pushed, rfl⟩ := List.mem_map.mp isOffered.1
    exact (foreign o pushed version).1 isOffered.2
  attempts version n := by
    refine stores.attemptsGrow.lookup_eq fun row isOffered => ?_
    obtain ⟨o, pushed, rfl⟩ := List.mem_map.mp isOffered.1
    exact (foreign o pushed version).2 isOffered.2

/-- **A pass adds nothing to the halves that have an outcome if and only if it leaves each of
them it prices again for a retry.** -/
theorem halvesStable_runMultiAssetPass_iff :
    HalvesStable version db (runMultiAssetPass version includeTentative results db) ↔
      leavesSettled version includeTentative results db := by
  have stores := stores_runMultiAssetPass version includeTentative results db
  constructor
  · intro stable e fetched asset settled
    by_contra recorded
    obtain ⟨o, pushed⟩ := List.exists_mem_of_ne_nil _ (mt halfOutcomes_eq_nil_iff.mp recorded)
    obtain ⟨n, fresh, written⟩ := stores.attempted o.attempt
      (List.mem_map_of_mem (mem_claimsPushed.mpr ⟨e, fetched, asset, pushed⟩))
    rw [(key_of_mem_halfOutcomes pushed).2] at fresh written
    have same := (stable e.id asset settled).attempts
      (halfVersion version asset e (results e)) n
    rw [Finmap.lookup_eq_none.mpr fresh] at same
    exact Finmap.lookup_eq_none.mp same written
  · intro leaves eventId asset settled
    refine sameHalf_of_stores stores fun o pushed other => ?_
    obtain ⟨e, fetched, half, own⟩ := mem_claimsPushed.mp pushed
    have key := key_of_mem_halfOutcomes own
    refine not_or.mp fun about => ?_
    have same : (e.id, half) = (eventId, asset) := by
      rw [key.1, key.2, or_self] at about
      simp only [Prod.mk.injEq] at about ⊢
      exact ⟨about.1, about.2.2⟩
    obtain ⟨rfl, rfl⟩ := Prod.mk.inj same
    rw [halfOutcomes_eq_nil_iff.mpr (leaves e fetched half settled)] at own
    cases own

end Pass

/-! ## Runs -/

/-- A multi-asset pass, or what happens between two passes. -/
inductive ClaimAction where
  | tick (elapsed : ℕ)
  | insert (rows : NumberedRows)
  | finality (latestTs finalizedTs : ℤ)
  /-- Another writer of outcomes. -/
  | record (valuations : List ValuationRow) (attempts : List AttemptRow)
  | pass (version : Version) (includeTentative : Bool) (results : RawEvent → PricingResults)

namespace ValuatorSystem

/-- Passes run one after the other, from their cursor read to their advance. -/
def claimStep (s : ValuatorSystem) : ClaimAction → Option ValuatorSystem
  | .tick elapsed => step s (.tick elapsed)
  | .insert rows => step s (.insert rows)
  | .finality latestTs finalizedTs => step s (.finality latestTs finalizedTs)
  | .record valuations attempts => step s (.record valuations attempts)
  | .pass version includeTentative results =>
      some { s with db := runMultiAssetPass version includeTentative results s.db }

/-- Passes over finalized rows record their results under a version they look for. -/
def recordsUnderOwn (s : ValuatorSystem) : ClaimAction → Prop
  | .pass version includeTentative results => includeTentative = false →
      ∀ e ∈ multiAssetCandidates version false s.db, recordedUnder .MULTI version (results e) e
  | _ => True

instance decidableRecordsUnderOwn (s : ValuatorSystem) : ∀ a, Decidable (recordsUnderOwn s a)
  | .pass version includeTentative results =>
      inferInstanceAs (Decidable (includeTentative = false →
        ∀ e ∈ multiAssetCandidates version false s.db,
          recordedUnder .MULTI version (results e) e))
  | .tick _ | .insert _ | .finality .. | .record .. => inferInstanceAs (Decidable True)

/-- Every half without an outcome is a candidate of the next pass. -/
def OpenHalvesFetched (db : Db) : Prop :=
  ∀ version includeTentative, ∀ e ∈ db.rawProtocolEvents, inUniverse .MULTI e = true →
    e.eligible includeTentative = true →
      ∀ asset, hasOutcome [version, degradedVersion] asset db e.id = false →
        e ∈ multiAssetCandidates version includeTentative db

variable {s : ValuatorSystem} {version : Version} {results : RawEvent → PricingResults}
  {includeTentative : Bool} {e : RawEvent}

/-! ### What a pass leaves open -/

theorem outcomesGrow_flush (buffers : BulkBuffers) (db : Db) :
    OutcomesGrow db (flush buffers db) := by
  have chunks : ∀ {Chunk : Type} {write : Db → Chunk → Db},
      (∀ db chunk, OutcomesGrow db (write db chunk)) → ∀ (written : List Chunk) (db : Db),
        OutcomesGrow db (written.foldl write db) := by
    intro Chunk write grows written
    induction written with
    | nil => exact fun _ => ⟨rfl, rfl, fun _ _ _ known => known⟩
    | cons chunk rest inductionHypothesis =>
        exact fun db => (grows db chunk).trans (inductionHypothesis _)
  refine ((chunks (fun db rows => outcomesGrow_insertValuations rows db) _ db).trans
    (chunks ?_ _ _)).trans (chunks (fun db rows => outcomesGrow_insertAttempts rows db) _ _)
  exact fun _ _ => ⟨rfl, rfl, fun _ _ _ known => known⟩

theorem outcomesGrow_recordNext {pass : PassName} (loop : LptLoop) (e : RawEvent) :
    OutcomesGrow loop.db (recordNext pass version results loop e).db := by
  unfold recordNext maybeFlush
  simp only
  split
  · exact outcomesGrow_flush ..
  · exact ⟨rfl, rfl, fun _ _ _ known => known⟩

theorem outcomesGrow_foldl_recordNext {pass : PassName} (joined : List RawEvent)
    (loop : LptLoop) :
    OutcomesGrow loop.db (joined.foldl (recordNext pass version results) loop).db := by
  induction joined generalizing loop with
  | nil => exact ⟨rfl, rfl, fun _ _ _ known => known⟩
  | cons e rest inductionHypothesis =>
      exact (outcomesGrow_recordNext loop e).trans (inductionHypothesis _)

/-- An event that is left for a retry pins the pass. -/
theorem pinned_foldl_recordNext {pass : PassName} {joined : List RawEvent} {loop : LptLoop}
    {stamp : Timestamp} (carried : e.finalizedAt = some stamp)
    (left : Pinned loop.minUnresolved e ∨
      e ∈ joined ∧ ∀ buffers, (recordEvent pass version (results e) e buffers).2 = true) :
    Pinned (joined.foldl (recordNext pass version results) loop).minUnresolved e := by
  induction joined generalizing loop with
  | nil => exact left.resolve_right fun listed => absurd listed.1 List.not_mem_nil
  | cons next rest inductionHypothesis =>
      refine inductionHypothesis ?_
      show Pinned (pin (recordEvent pass version (results next) next loop.buffers).2 _ _) e ∨ _
      rcases left with pinned | ⟨listed, transient⟩
      · exact Or.inl (pinned.pin _ _)
      · rcases List.mem_cons.mp listed with rfl | later
        · rw [transient loop.buffers]
          exact Or.inl (pinned_pin carried _)
        · exact Or.inr ⟨later, transient⟩

/-- A half that stays open after a pass has been left for a retry. -/
theorem leftForRetry_of_open {db db' : Db}
    (stores : Stores ((claimsPushed version includeTentative results db).map Outcome.valuation)
      ((claimsPushed version includeTentative results db).map Outcome.attempt) db db')
    (fetched : e ∈ multiAssetCandidates version includeTentative db)
    (own : recordedUnder .MULTI version (results e) e) {asset : Asset}
    (stillOpen : hasOutcome [version, degradedVersion] asset db' e.id = false) :
    leftForRetry asset e (results e) = true := by
  by_contra recorded
  obtain ⟨o, pushed⟩ := List.exists_mem_of_ne_nil _ (mt halfOutcomes_eq_nil_iff.mp recorded)
  have stored := stores.valued o.valuation
    (List.mem_map_of_mem (mem_claimsPushed.mpr ⟨e, fetched, asset, pushed⟩))
  rw [(key_of_mem_halfOutcomes pushed).1] at stored
  have listed : halfVersion version asset e (results e) ∈ [version, degradedVersion] := by
    cases asset with
    | ETH => exact List.mem_cons_self ..
    | LPT =>
        by_cases zero : claimedAmount e.decoded.rewards = 0
        · simp [halfVersion, zero]
        · rw [halfVersion, if_neg zero]
          exact own (decide_eq_true zero)
  have known : hasOutcome [version, degradedVersion] asset db' e.id = true :=
    hasOutcome_eq_true.mpr ⟨_, listed, Or.inl stored⟩
  rw [stillOpen] at known
  cases known

/-- The first floor of a pass holds. -/
theorem floorHolds_scanFloor (sound : Sound s) (key : PassKey) :
    FloorHolds s key (scanFloor key.1 key defaultLookback false s.db) := by
  simp only [scanFloor, Bool.false_eq_true, if_false]
  split
  · exact floorHolds_zero sound key
  · next cursor stored =>
      split
      · exact sound.cursors key cursor stored
      · exact floorHolds_zero sound key

/-- **A pass keeps open halves above the scan floor.** -/
theorem sound_runMultiAssetPass (sound : Sound s)
    (allowed : recordsUnderOwn s (.pass version includeTentative results)) :
    Sound { s with db := runMultiAssetPass version includeTentative results s.db } := by
  have stores := stores_claims version includeTentative results s.db
  have priced : OutcomesGrow s.db (claimLoop version includeTentative results s.db).db := by
    rw [claimLoop_eq]
    exact outcomesGrow_foldl_recordNext (multiAssetCandidates version includeTentative s.db)
      ⟨BulkBuffers.new, none, s.db⟩
  have grown := priced.trans
    (outcomesGrow_flush (claimLoop version includeTentative results s.db).buffers _)
  unfold runMultiAssetPass
  simp only
  have flushed := sound_outcomes sound grown
  cases includeTentative with
  | true => exact flushed
  | false =>
      -- what is still waiting was fetched and left for a retry
      have pinned : ∀ e ∈ waiting (version, .MULTI)
          (flush (claimLoop version false results s.db).buffers
            (claimLoop version false results s.db).db),
          Pinned (claimLoop version false results s.db).minUnresolved e := by
        intro e member
        have earlier := waiting_of_outcomesGrow grown member
        obtain ⟨stored, _, isFinal, _⟩ := mem_waiting.mp earlier
        obtain ⟨stamp, carried, _, _⟩ := sound.stamped e stored isFinal
        have fetched : e ∈ multiAssetCandidates version false s.db :=
          (mem_fetchCandidatesOf sound (floorHolds_scanFloor sound _) earlier).2
        have unsettled := (mem_waiting.mp member).2.2.2
        simp only [needsWork, Bool.or_eq_true, Bool.not_eq_true'] at unsettled
        have own := allowed rfl e fetched
        have transient : ∀ buffers, (recordMulti version e (results e) buffers).2 = true := by
          intro buffers
          rw [recordMulti_transient, Bool.or_eq_true]
          exact unsettled.imp (leftForRetry_of_open stores fetched own)
            (leftForRetry_of_open stores fetched own)
        rw [claimLoop_eq]
        exact pinned_foldl_recordNext carried (Or.inr ⟨fetched, transient⟩)
      refine @sound_advance _ flushed ⟨(version, .MULTI), .finished ⟨s.clock,
        (claimLoop version false results s.db).minUnresolved, _⟩⟩
        ⟨le_refl _, fun _ => frontierOf_le_clock flushed,
          fun e member => Or.inl (pinned e member)⟩
        _ rfl fun run finished => ?_
      cases finished
      intro e member stamp stamped _
      obtain ⟨oldest, read, older⟩ := pinned e member
      have own := older stamp stamped
      have lookback : 0 ≤ defaultLookback := by decide
      exact Or.inr ⟨oldest, read, by linarith⟩

theorem sound_claimStep (s : ValuatorSystem) (a : ClaimAction) (s' : ValuatorSystem)
    (sound : Sound s) (allowed : recordsUnderOwn s a) (stepped : claimStep s a = some s') :
    Sound s' := by
  cases a with
  | tick elapsed => exact sound_step s (.tick elapsed) s' sound trivial stepped
  | insert rows => exact sound_step s (.insert rows) s' sound trivial stepped
  | finality latestTs finalizedTs =>
      exact sound_step s (.finality latestTs finalizedTs) s' sound trivial stepped
  | record valuations attempts =>
      exact sound_step s (.record valuations attempts) s' sound trivial stepped
  | pass version includeTentative results =>
      cases stepped
      exact sound_runMultiAssetPass sound allowed

theorem openHalvesFetched_of_sound (sound : Sound s) : OpenHalvesFetched s.db := by
  intro version includeTentative e stored about eligible asset stillOpen
  have unsettled : needsWork .MULTI version s.db e = true := by
    cases asset <;> simp [needsWork, stillOpen]
  cases includeTentative with
  | true =>
      refine mem_orderBy.mpr (List.mem_filter.mpr ⟨stored, ?_⟩)
      simp [about, eligible, unsettled]
  | false =>
      have isFinal : e.finality = .finalized := (e.eligible_false_iff.mp eligible).2
      have member : e ∈ waiting (version, .MULTI) s.db :=
        mem_waiting.mpr ⟨stored, about, isFinal, unsettled⟩
      exact (mem_fetchCandidatesOf sound (floorHolds_scanFloor sound _) member).2

/-- **In a run whose passes record under versions they look for, an open half is a candidate until
it has an outcome; and a pass leaves the other halves alone if and only if it leaves those it
prices again for a retry.** -/
theorem halves_stay (run : GuardedRun claimStep recordsUnderOwn start s) (version : Version)
    (includeTentative : Bool) (results : RawEvent → PricingResults) :
    OpenHalvesFetched s.db ∧
      (HalvesStable version s.db (runMultiAssetPass version includeTentative results s.db) ↔
        leavesSettled version includeTentative results s.db) :=
  ⟨openHalvesFetched_of_sound (run.invariant sound_claimStep sound_start),
    halvesStable_runMultiAssetPass_iff⟩

/-! ## One claim -/

/-- A claim of 0.1 LPT and 0.01 ETH. -/
def claimRow : PreparedRow where
  txHash := "0xt"
  logIndex := 1
  blockNumber := 1
  blockHash := "0xb"
  blockTimestamp := 0
  contractName := .BondingManager
  eventName := .EarningsClaimed
  asset := none
  amountNormalized := none
  isValuable := true
  fromAddress := some "0xd"
  toAddress := none
  decoded := .earningsClaimed (10 ^ 17) (10 ^ 16) 1 2
  amount_of_asset := fun absurd => absurd

/-- The claim is finalized; its rewards are priced while its fees are left for a retry. -/
def halfPriced (lpt : Pricing LptOutcome) : List ClaimAction :=
  [.insert [(1, claimRow)], .finality 1000 100,
    .pass twapVersion false fun _ => ⟨.error "timeout", lpt⟩]

/-- The results of a later pass. -/
def laterResults (lpt : Pricing LptOutcome) (_ : RawEvent) : PricingResults :=
  ⟨.ok (.priced 2000 20 "chainlink", []), lpt⟩

/-- When the rewards are left for a retry the next time, they keep their valuation. -/
theorem halfPriced_once :
    ∃ s, execute claimStep start (halfPriced (.ok (.pricedDegraded 5 1 "spot", []))) = some s ∧
      hasOutcome [twapVersion, degradedVersion] .LPT s.db 1 = true ∧
      OpenHalvesFetched s.db ∧
      HalvesStable twapVersion s.db (runMultiAssetPass twapVersion false
        (laterResults (.error "timeout")) s.db) := by
  have executed : execute claimStep start (halfPriced (.ok (.pricedDegraded 5 1 "spot", []))) =
      some ((execute claimStep start (halfPriced (.ok (.pricedDegraded 5 1 "spot", [])))).get
        (by decide +kernel)) := (Option.some_get _).symm
  have run : GuardedRun claimStep recordsUnderOwn _ _ :=
    execute_guardedRun executed (by decide +kernel)
  have stays := halves_stay run twapVersion false (laterResults (.error "timeout"))
  exact ⟨_, executed, by decide +kernel, stays.1, stays.2.mpr (by decide +kernel)⟩

/-- **The rewards are priced again** when the fees are retried: a degraded valuation is followed
by a time-weighted one. -/
theorem halfPriced_twice : ¬ ∀ s version includeTentative results, Run claimStep start s →
    HalvesStable version s.db (runMultiAssetPass version includeTentative results s.db) := by
  intro law
  have executed : execute claimStep start (halfPriced (.ok (.pricedDegraded 5 1 "spot", []))) =
      some ((execute claimStep start (halfPriced (.ok (.pricedDegraded 5 1 "spot", [])))).get
        (by decide +kernel)) := (Option.some_get _).symm
  have stable := law _ twapVersion false (laterResults (.ok (.pricedTwap 6 1 "twap", [])))
    (execute_run executed) 1 .LPT (by decide +kernel)
  exact absurd (stable.valuations twapVersion) (by decide +kernel)

end ValuatorSystem

end ProtocolExplorer.Valuator
