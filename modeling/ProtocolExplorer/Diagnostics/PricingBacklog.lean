import ProtocolExplorer.Valuator.Passes

/-!
# The pricing backlog of the diagnostics server

`PRICING_BACKLOG` counts the events that have no outcome under a version or its degraded sibling,
for whatever asset.  The valuator's three candidate queries ask asset by asset: an ETH event is
done under the version alone, a claim is done when both halves are.

* `hasAnyOutcome_eq_true` — an outcome for whatever asset is one for ETH or one for LPT;
* `countsExactly_iff` — **the query counts exactly the valuator's candidates if and only if every
  valuable finalized event has an outcome of any kind exactly when its own queries are done with
  it**;
* `halfPricedClaim_is_hidden` — a claim that waits for its second half and is not counted.
-/

set_option autoImplicit false

namespace ProtocolExplorer.Diagnostics

open ProtocolExplorer.Lib
open ProtocolExplorer.Store
open ProtocolExplorer.Valuator

/-! ## The query -/

/-- `DEGRADED_VALUATION_VERSION`. -/
def degradedValuationVersion : Version := "v1_degraded_spot_pre_cardinality"

/-- The two `NOT EXISTS` of the query, negated: is there a valuation or a failed attempt of the
event under one of the versions? -/
def hasAnyOutcome (versions : List Version) (db : Db) (eventId : ℤ) : Bool :=
  decide (∃ key ∈ db.eventValuations.keys, key.1 = eventId ∧ key.2.1 ∈ versions) ||
    decide (∃ key ∈ db.valuationAttempts.keys, key.1.1 = eventId ∧ key.1.2.1 ∈ versions ∧
      (db.valuationAttempts.lookup key).any (·.resultStatus.isFailed))

/-- The rows that `PRICING_BACKLOG` counts. -/
def backlogEvents (version : Version) (db : Db) : List RawEvent :=
  db.rawProtocolEvents.filter fun e =>
    e.isValuable && e.isCanonical && decide (e.finality = .finalized) &&
      !hasAnyOutcome [version, degradedValuationVersion] db e.id

structure BacklogRow where
  backlog : ℕ
  oldestTs : Option Timestamp
  oldestAgeSecs : Option ℤ
  deriving DecidableEq

/-- `PRICING_BACKLOG` at an instant. -/
def pricingBacklog (version : Version) (now : Timestamp) (db : Db) : BacklogRow :=
  let oldestTs := ((backlogEvents version db).map fun e => e.blockTimestamp).min?
  { backlog := (backlogEvents version db).length
    oldestTs
    oldestAgeSecs := oldestTs.map fun oldest =>
      Decimal.roundHalfAway (((now - oldest : ℤ) : ℚ) / 1000000) }

/-! ## The valuator's candidates -/

/-- Would one of the candidate queries return the event, without a floor? -/
def isCandidate (version : Version) (db : Db) (e : RawEvent) : Bool :=
  decide (e ∈ fetchEthCandidates version true 0 db) ||
    decide (e ∈ fetchLptCandidates version true 0 db) ||
      decide (e ∈ fetchMultiAssetCandidates version true 0 db)

/-- The finalized candidates. -/
def candidateEvents (version : Version) (db : Db) : List RawEvent :=
  db.rawProtocolEvents.filter fun e =>
    decide (e.finality = .finalized) && isCandidate version db e

/-- The query counts the finalized candidates and nothing else. -/
structure CountsExactly (version : Version) (now : Timestamp) (db : Db) : Prop where
  number : (pricingBacklog version now db).backlog = (candidateEvents version db).length
  events : ∀ e ∈ db.rawProtocolEvents,
    e ∈ backlogEvents version db ↔ e ∈ candidateEvents version db

/-- An event has an outcome of any kind exactly when the queries about it are done. -/
def outcomesAgree (version : Version) (db : Db) (e : RawEvent) : Prop :=
  match e.asset with
  | some .ETH =>
      hasAnyOutcome [version, degradedVersion] db e.id = hasOutcome [version] .ETH db e.id
  | some .LPT =>
      hasAnyOutcome [version, degradedVersion] db e.id =
        hasOutcome [version, degradedVersion] .LPT db e.id
  | none =>
      if e.eventName = .EarningsClaimed then
        hasOutcome [version, degradedVersion] .LPT db e.id =
          hasOutcome [version, degradedVersion] .ETH db e.id
      else hasAnyOutcome [version, degradedVersion] db e.id = true

variable {version : Version} {db : Db} {e : RawEvent}

theorem hasAnyOutcome_eq_true {versions : List Version} {eventId : ℤ} :
    hasAnyOutcome versions db eventId = true ↔
      ∃ asset, hasOutcome versions asset db eventId = true := by
  simp only [hasAnyOutcome, hasOutcome_eq_true, Bool.or_eq_true, decide_eq_true_eq,
    Finmap.mem_keys]
  constructor
  · rintro (⟨⟨_, version, asset⟩, stored, rfl, listed⟩ |
      ⟨⟨⟨_, version, asset⟩, n⟩, _, rfl, listed, failed⟩)
    · exact ⟨asset, version, listed, Or.inl stored⟩
    · obtain ⟨row, found, status⟩ := (Option.any_eq_true ..).mp failed
      exact ⟨asset, version, listed, Or.inr ⟨_, row, found, rfl, status⟩⟩
  · rintro ⟨asset, version, listed, stored | ⟨⟨_, n⟩, row, found, rfl, status⟩⟩
    · exact Or.inl ⟨_, stored, rfl, listed⟩
    · refine Or.inr ⟨_, Finmap.mem_of_lookup_eq_some found, rfl, listed, ?_⟩
      rw [found]
      exact status

/-- An outcome for whatever asset is one for LPT or one for ETH. -/
theorem hasAnyOutcome_eq (versions : List Version) (db : Db) (eventId : ℤ) :
    hasAnyOutcome versions db eventId =
      (hasOutcome versions .LPT db eventId || hasOutcome versions .ETH db eventId) := by
  rw [Bool.eq_iff_iff, Bool.or_eq_true, hasAnyOutcome_eq_true]
  constructor
  · rintro ⟨asset, known⟩
    cases asset with
    | LPT => exact Or.inl known
    | ETH => exact Or.inr known
  · exact fun known => known.elim (fun lpt => ⟨.LPT, lpt⟩) fun eth => ⟨.ETH, eth⟩

/-- Without a floor, a query returns the canonical events of its universe that need work. -/
theorem mem_fetchCandidatesOf_iff {pass : PassName} (stored : e ∈ db.rawProtocolEvents) :
    e ∈ fetchCandidatesOf pass version true 0 db ↔
      inUniverse pass e = true ∧ needsWork pass version db e = true := by
  rw [fetchCandidatesOf, mem_orderBy, List.mem_filter]
  have canonical : inUniverse pass e = true → e.isCanonical = true := by
    intro about
    simp only [inUniverse, Bool.and_eq_true] at about
    exact about.1.2
  simp only [stored, RawEvent.eligible, Bool.true_or, Bool.and_true, Bool.and_eq_true, true_and]
  exact and_congr_left fun _ => and_iff_left_of_imp canonical

/-- Which query is about a valuable canonical event, and what it asks for. -/
theorem isCandidate_eq (stored : e ∈ db.rawProtocolEvents) (valuable : e.isValuable = true)
    (canonical : e.isCanonical = true) :
    isCandidate version db e =
      match e.asset with
      | some .ETH => needsWork .ETH version db e
      | some .LPT => needsWork .LPT version db e
      | none => decide (e.eventName = .EarningsClaimed) && needsWork .MULTI version db e := by
  unfold isCandidate fetchEthCandidates fetchLptCandidates fetchMultiAssetCandidates
  simp only [mem_fetchCandidatesOf_iff stored, inUniverse, valuable, canonical, Bool.true_and]
  cases e.asset with
  | none => simp
  | some asset => cases asset <;> simp

/-- Candidates are valuable and canonical. -/
theorem valuable_of_isCandidate (stored : e ∈ db.rawProtocolEvents)
    (candidate : isCandidate version db e = true) :
    e.isValuable = true ∧ e.isCanonical = true := by
  simp only [isCandidate, fetchEthCandidates, fetchLptCandidates, fetchMultiAssetCandidates,
    Bool.or_eq_true, decide_eq_true_eq, mem_fetchCandidatesOf_iff stored, inUniverse,
    Bool.and_eq_true] at candidate
  rcases candidate with (eth | lpt) | multi
  · exact eth.1.1
  · exact lpt.1.1
  · exact multi.1.1

/-- **An event is counted exactly when it is a candidate, if its outcomes agree.** -/
theorem mem_backlogEvents_iff (stored : e ∈ db.rawProtocolEvents) :
    (e ∈ backlogEvents version db ↔ e ∈ candidateEvents version db) ↔
      (e.isValuable = true → e.isCanonical = true → e.finality = .finalized →
        outcomesAgree version db e) := by
  have sibling : degradedValuationVersion = degradedVersion := rfl
  simp only [backlogEvents, candidateEvents, List.mem_filter, stored, true_and, Bool.and_eq_true,
    decide_eq_true_eq]
  by_cases eligible : (e.isValuable = true ∧ e.isCanonical = true) ∧ e.finality = .finalized
  · obtain ⟨⟨valuable, canonical⟩, isFinal⟩ := eligible
    rw [isCandidate_eq stored valuable canonical, sibling]
    simp only [valuable, canonical, isFinal, true_and, forall_const, outcomesAgree]
    cases e.asset with
    | some asset =>
        cases asset with
        | ETH => simp [needsWork]
        | LPT => simp [needsWork]
    | none =>
        by_cases claim : e.eventName = .EarningsClaimed
        · -- either outcome takes a claim off the count, it takes both to be done with it
          rw [hasAnyOutcome_eq]
          simp only [claim, if_true, decide_true, Bool.true_and, needsWork]
          cases hasOutcome [version, degradedVersion] .LPT db e.id <;>
            cases hasOutcome [version, degradedVersion] .ETH db e.id <;> decide
        · simp [claim]
  · refine iff_of_true (iff_of_false (fun counted => eligible counted.1) fun candidate => ?_)
      fun valuable canonical isFinal => absurd ⟨⟨valuable, canonical⟩, isFinal⟩ eligible
    exact eligible ⟨valuable_of_isCandidate stored candidate.2, candidate.1⟩

/-- **The query counts exactly the candidates if and only if the outcomes of every valuable
finalized event agree.** -/
theorem countsExactly_iff (version : Version) (now : Timestamp) (db : Db) :
    CountsExactly version now db ↔
      ∀ e ∈ db.rawProtocolEvents, e.isValuable = true → e.isCanonical = true →
        e.finality = .finalized → outcomesAgree version db e := by
  constructor
  · exact fun counts e stored => (mem_backlogEvents_iff stored).mp (counts.events e stored)
  · intro agree
    have events : ∀ e ∈ db.rawProtocolEvents,
        e ∈ backlogEvents version db ↔ e ∈ candidateEvents version db :=
      fun e stored => (mem_backlogEvents_iff stored).mpr (agree e stored)
    refine ⟨congrArg List.length (List.filter_congr fun e stored => ?_), events⟩
    have same := events e stored
    simp only [backlogEvents, candidateEvents, List.mem_filter, stored, true_and] at same
    exact Bool.eq_iff_iff.mpr same

/-! ## A claim that waits for its second half -/

/-- A finalized claim. -/
def finalizedClaim : RawEvent where
  txHash := "0xt"
  logIndex := 1
  blockNumber := 1
  blockHash := "0xb"
  blockTimestamp := 0
  contractName := .BondingManager
  eventName := .EarningsClaimed
  asset := none
  amountNormalized := none
  isValuable := true
  fromAddress := some "0xd"
  toAddress := none
  decoded := .earningsClaimed (10 ^ 17) (10 ^ 16) 1 2
  amount_of_asset := fun absurd => absurd
  id := 1
  finality := .finalized
  isCanonical := true
  finalizedAt := some 0

/-- Its rewards have been priced, its fees have not. -/
def rewardsPriced : Db :=
  insertValuations
    [{ eventId := 1
       valuationVersion := twapVersion
       asset := .LPT
       pricingMethod := pricingMethodLptTwap
       source := sourceLpt
       status := .priced
       blockNumber := 1
       amountNative := ⟨10 ^ 17⟩
       nativeUsdPrice := some ⟨5 * 10 ^ 18⟩
       amountUsd := some ⟨5 * 10 ^ 17⟩
       pricingChain := "twap" }]
    { Db.empty with rawProtocolEvents := [finalizedClaim] }

example : (candidateEvents twapVersion rewardsPriced).map (·.id) = [1] := by decide +kernel

/-- **The claim is still a candidate, and the query does not count it.** -/
theorem halfPricedClaim_is_hidden : ¬ ∀ version now db, CountsExactly version now db := by
  intro law
  exact absurd (law twapVersion 0 rewardsPriced).number (by decide +kernel)

end ProtocolExplorer.Diagnostics
