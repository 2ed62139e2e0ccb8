import ProtocolExplorer.Orchestrator.Replay

/-!
# Passes with nothing to do

What a pass does to a log in which none of the events it looks for is eligible: at most its
checkpoint or its cursor moves.

* `runAll_of_unpriced` — the valuator leaves all but its cursors;
* `runFlowBackfill_of_unstaked`, `refreshPending_of_unstaked`, `sameRows_runOnce` — the flow pass,
  the pending pass and the rollups leave every row;
* `runStakerAndRollups_of_quiet` — **what is left of the passes is the profile pass**;
* `sameRows_runProfileBackfill` — which leaves every row of an idle log too.
-/

set_option autoImplicit false

namespace ProtocolExplorer.Orchestrator

open ProtocolExplorer.Lib
open ProtocolExplorer.Store
open ProtocolExplorer.Staker
open ProtocolExplorer.Valuator
open ProtocolExplorer.Rollups

/-! ## The same rows -/

/-- Only checkpoints and cursors have changed. -/
def SameRows (db db' : Db) : Prop :=
  ∃ checkpoints cursors, db' =
    { db with indexerCheckpoints := checkpoints, valuatorCursors := cursors }

section SameRows

variable {db db' db'' : Db}

theorem SameRows.refl (db : Db) : SameRows db db := ⟨_, _, rfl⟩

theorem SameRows.trans (first : SameRows db db') (second : SameRows db' db'') :
    SameRows db db'' := by
  obtain ⟨_, _, rfl⟩ := first
  obtain ⟨_, _, rfl⟩ := second
  exact ⟨_, _, rfl⟩

theorem sameRows_advanceCheckpoint (db : Db) (name : CheckpointName) (value : ℤ) :
    SameRows db (db.advanceCheckpoint name value) := ⟨_, _, rfl⟩

end SameRows

/-! ## Logs without eligible events -/

/-- No event of a kind is eligible. -/
def Without (kind : RawEvent → Bool) (includeTentative : Bool) (events : List RawEvent) : Prop :=
  ∀ e ∈ events, kind e = true → e.eligible includeTentative = false

/-- No event is eligible. -/
def Idle (includeTentative : Bool) (events : List RawEvent) : Prop :=
  ∀ e ∈ events, e.eligible includeTentative = false

instance (includeTentative : Bool) (events : List RawEvent) :
    Decidable (Idle includeTentative events) :=
  inferInstanceAs (Decidable (∀ e ∈ events, e.eligible includeTentative = false))

theorem Idle.without {includeTentative : Bool} {events : List RawEvent}
    (idle : Idle includeTentative events) (kind : RawEvent → Bool) :
    Without kind includeTentative events := fun e stored _ => idle e stored

/-- A query for eligible events of the kind finds nothing. -/
theorem Without.filter_eq_nil {kind : RawEvent → Bool} {includeTentative : Bool}
    {events : List RawEvent} (without : Without kind includeTentative events)
    {selects : RawEvent → Bool}
    (implies : ∀ e, selects e = true → kind e = true ∧ e.eligible includeTentative = true) :
    events.filter selects = [] := by
  refine List.filter_eq_nil_iff.mpr fun e stored selected => ?_
  obtain ⟨own, eligible⟩ := implies e selected
  rw [without e stored own] at eligible
  cases eligible

/-- What is not eligible is not final either. -/
theorem Without.final {kind : RawEvent → Bool} {includeTentative : Bool} {events : List RawEvent}
    (without : Without kind includeTentative events) : Without kind false events := by
  intro e stored own
  have ineligible := without e stored own
  cases includeTentative with
  | false => exact ineligible
  | true =>
      have orphaned : e.isCanonical = false := by simpa [RawEvent.eligible] using ineligible
      simp [RawEvent.eligible, orphaned]

/-! ## The valuator -/

section Valuator

variable {version : Version} {includeTentative : Bool} {seeds : List SeededPrice} {db : Db}

/-- The events of the valuator. -/
def isPriced (e : RawEvent) : Bool := e.isValuable

theorem fetchCandidatesOf_of_unpriced
    (unpriced : Without isPriced includeTentative db.rawProtocolEvents)
    (pass : PassName) (floor : Timestamp) :
    fetchCandidatesOf pass version includeTentative floor db = [] := by
  rw [fetchCandidatesOf, unpriced.filter_eq_nil]
  · rfl
  · intro e passes
    simp only [inUniverse, Bool.and_eq_true] at passes
    exact ⟨passes.1.1.1.1.1, passes.1.1.2⟩

theorem frontierOf_of_unpriced
    (unpriced : Without isPriced includeTentative db.rawProtocolEvents)
    (pass : PassName) : frontierOf pass db = none := by
  rw [frontierOf, unpriced.final.filter_eq_nil]
  · rfl
  · intro e passes
    simp only [inUniverse, Bool.and_eq_true, decide_eq_true_eq] at passes
    exact ⟨passes.1.1.1, (RawEvent.eligible_false_iff e).mpr ⟨passes.1.1.2, passes.2⟩⟩

/-- A pass without a candidate flushes empty buffers, and has no frontier to advance to. -/
theorem runPricing_of_unpriced {rt : Runtime} {opts : ReplayOpts}
    (unpriced : Without isPriced opts.includeTentative db.rawProtocolEvents)
    (pass : PassName) (answers : CachedAnswers) :
    runPricing rt opts pass version answers db = .ok db := by
  have joined : rt.joined pass (passCandidates pass version opts.includeTentative db) = [] := by
    rw [passCandidates, fetchCandidatesOf_of_unpriced unpriced]
    exact (rt.joined_perm pass []).eq_nil
  have flushed : flushInto BulkBuffers.new db = .ok db := rfl
  rw [runPricing, joined, runOnchainPass, List.foldlM_nil, pure_bind, flushed]
  have stays : advance (version, pass) none (frontierOf pass db) opts.includeTentative db = db := by
    rw [frontierOf_of_unpriced unpriced]
    cases opts.includeTentative <;> rfl
  exact congrArg Except.ok stays

theorem runSeedPass_of_unpriced (version : Version) (seeds : List SeededPrice) (now : Timestamp)
    (unpriced : Without isPriced includeTentative db.rawProtocolEvents) : ∃ cursors, runSeedPass version includeTentative seeds now db =
      { db with valuatorCursors := cursors } := by
  have nothing : hasSeedCandidates version includeTentative seeds db = false := by
    rw [← Bool.not_eq_true, hasSeedCandidates_iff]
    rintro ⟨e, stored, seed, _, passes⟩
    obtain ⟨valuable, eligible, _⟩ := isSeedCandidate_iff.mp passes
    rw [unpriced e stored valuable] at eligible
    cases eligible
  simp only [runSeedPass, nothing, Bool.false_eq_true, if_false]
  split
  · exact ⟨db.valuatorCursors, rfl⟩
  · split
    · exact ⟨db.valuatorCursors, rfl⟩
    · exact ⟨_, rfl⟩

/-- **The valuator leaves all but its cursors.** -/
theorem runAll_of_unpriced (rt : Runtime) {opts : ReplayOpts} (version : Version)
    (answers : CachedAnswers) (seeds : List SeededPrice)
    (unpriced : Without isPriced opts.includeTentative db.rawProtocolEvents) :
    ∃ cursors, runAll rt opts version answers seeds db =
      .ok { db with valuatorCursors := cursors } := by
  obtain ⟨cursors, seeded⟩ := runSeedPass_of_unpriced version seeds rt.now unpriced
  refine ⟨cursors, ?_⟩
  have still : Without isPriced opts.includeTentative
      ({ db with valuatorCursors := cursors } : Db).rawProtocolEvents := unpriced
  have pricing : ∀ pass, runPricing rt opts pass version answers
      { db with valuatorCursors := cursors } = .ok { db with valuatorCursors := cursors } :=
    fun pass => runPricing_of_unpriced still pass answers
  rw [runAll, seeded]
  exact bind_eq_ok.mpr ⟨_, pricing .ETH, bind_eq_ok.mpr ⟨_, pricing .LPT, pricing .MULTI⟩⟩

end Valuator

/-! ## The staker -/

section Staker

variable {includeTentative : Bool} {db : Db}

/-- The events of the flow pass and the pending pass. -/
def movesStake (e : RawEvent) : Bool := isStakeEvent e.eventName

/-- Without a stake event the flow pass moves its checkpoint only. -/
theorem runFlowBackfill_of_unstaked
    (unstaked : Without movesStake includeTentative db.rawProtocolEvents) :
    ∃ block, (runFlowBackfill includeTentative db).1 =
      db.advanceCheckpoint .stakerFlowBackfillV2 block := by
  have events : stakeEvents includeTentative db = [] := by
    refine unstaked.filter_eq_nil fun e passes => ?_
    rw [Bool.and_eq_true] at passes
    exact ⟨passes.2, passes.1⟩
  have replays : flowReplays includeTentative db = [] := by
    rw [flowReplays, fetchFullHistory, events]
    split <;> rfl
  exact ⟨_, by rw [runFlowBackfill_fst, replays, List.foldl_nil]⟩

/-- Without stake rows there is nothing to read, and without a claim nothing to store. -/
theorem refreshPending_of_unstaked
    (unstaked : Without movesStake includeTentative db.rawProtocolEvents)
    (rowless : db.stakeBalancesByBlock = ∅) (reads : BondingReads) :
    refreshPending reads includeTentative db = some db := by
  have unclaimed : claims includeTentative db = [] := by
    rw [claims, unstaked.filter_eq_nil]
    · rfl
    · intro e passes
      rw [Bool.and_eq_true, decide_eq_true_eq] at passes
      exact ⟨by rw [movesStake, passes.1]; rfl, passes.2⟩
  have nothing : ∀ key ∈ db.stakeBalancesByBlock.keys,
      (reads.getDelegator key.1 key.2).isSome := by
    rw [rowless]
    exact fun key stored => absurd stored (Finset.notMem_empty key)
  have rewritten : ∀ value, Table.rewriteKeys value db.stakeBalancesByBlock.keys
      db.stakeBalancesByBlock = db.stakeBalancesByBlock := by
    rw [rowless]
    exact fun value => rfl
  have reconciled : reconcileExactStakeRows reads db = some db := by
    rw [reconcileExactStakeRows, if_pos nothing, rewritten]
  rw [refreshPending, reconciled, unclaimed]
  rfl

theorem sameRows_runProfileBackfill (idle : Idle includeTentative db.rawProtocolEvents)
    (reads : OrchReads) (limit : ℕ) :
    SameRows db (runProfileBackfill reads includeTentative limit db).1 := by
  have nothing : fetchOrchCandidatesAfter includeTentative (db.loadCheckpoint .stakerOrchProfile)
      limit db = [] := by
    rw [fetchOrchCandidatesAfter, (idle.without fun _ => true).filter_eq_nil]
    · exact List.take_nil
    · intro e passes
      rw [Bool.and_eq_true, Bool.and_eq_true] at passes
      exact ⟨rfl, passes.1.1⟩
  simp only [runProfileBackfill, nothing, List.foldl_nil]
  cases db.loadCheckpoint .stakerOrchProfile with
  | none => exact SameRows.refl db
  | some block => exact sameRows_advanceCheckpoint ..

end Staker

/-! ## The rollups -/

section Rollups

variable {Row Key Label Sums Stored : Type} [AddCommMonoid Sums] [AddCommMonoid Stored]
  [DecidableEq Label] [DecidableEq Key] {r : DailyRollup Row Key Label Sums Stored}
  {includeTentative : Bool} {db : Db}

/-- The events that the three rollups sum. -/
def rollsUp (e : RawEvent) : Bool :=
  decide (e.eventName = .Reward) || decide (e.eventName = .WinningTicketRedeemed)

/-- The source rows of a rollup are those of eligible rewards and redemptions. -/
def SumsEligible (r : DailyRollup Row Key Label Sums Stored) : Prop :=
  ∀ includeTentative tables e, (rollsUp e && e.eligible includeTentative) = false →
    r.rowsOf includeTentative tables e = []

theorem sumsEligible_orchPayouts : SumsEligible orchPayouts := by
  intro includeTentative tables e ineligible
  have unselected : (decide (e.eventName = .WinningTicketRedeemed) &&
      e.eligible includeTentative) = false := by
    rw [rollsUp] at ineligible
    grind
  show ticketEventRows includeTentative tables e = []
  unfold ticketEventRows
  rw [unselected]
  cases e.fromAddress <;> cases e.toAddress <;> rfl

theorem sumsEligible_orchRewards : SumsEligible orchRewards := by
  intro includeTentative tables e ineligible
  have unselected : (decide (e.eventName = .Reward) && e.eligible includeTentative) = false := by
    rw [rollsUp] at ineligible
    grind
  show rewardEventRows includeTentative tables e = []
  unfold rewardEventRows
  rw [unselected]
  cases e.toAddress <;> rfl

theorem sumsEligible_tickets : SumsEligible tickets := by
  intro includeTentative tables e ineligible
  have unselected : (decide (e.eventName = .WinningTicketRedeemed) &&
      e.eligible includeTentative) = false := by
    rw [rollsUp] at ineligible
    grind
  show ticketRows includeTentative tables e = []
  unfold ticketRows
  rw [unselected]
  cases e.fromAddress <;> cases e.toAddress <;> rfl

theorem sameRows_runOnce (sums : SumsEligible r)
    (unrolled : Without rollsUp includeTentative db.rawProtocolEvents)
    (unmutated : db.reorgMutations = []) (limit : ℕ) :
    SameRows db (r.runOnce includeTentative limit db) := by
  have nothing : r.fetchRows includeTentative limit db = [] := by
    rw [List.eq_nil_iff_forall_not_mem]
    intro row fetched
    have pending := List.mem_of_mem_filter (List.mem_of_mem_take fetched)
    obtain ⟨e, stored, joined⟩ := (r.mem_sourceRows includeTentative).mp pending
    have ineligible : (rollsUp e && e.eligible includeTentative) = false :=
      Bool.and_eq_false_imp.mpr (unrolled e stored)
    rw [sums includeTentative db.sourceTables e ineligible] at joined
    cases joined
  rw [DailyRollup.runOnce,
    r.processReorgMutations_of_none includeTentative (r.pendingMutations_of_nil unmutated),
    DailyRollup.foldBatch, nothing, List.isEmpty_nil, if_pos rfl]
  exact sameRows_advanceCheckpoint ..

end Rollups

/-! ## One after another -/

/-- Nothing for the flow pass, the pending pass and the rollups. -/
structure Quiet (includeTentative : Bool) (db : Db) : Prop where
  unstaked : Without movesStake includeTentative db.rawProtocolEvents
  unrolled : Without rollsUp includeTentative db.rawProtocolEvents
  rowless : db.stakeBalancesByBlock = ∅
  unmutated : db.reorgMutations = []

theorem Quiet.of_sameRows {includeTentative : Bool} {db db' : Db} (quiet : Quiet includeTentative db)
    (same : SameRows db db') : Quiet includeTentative db' := by
  obtain ⟨_, _, rfl⟩ := same
  exact ⟨quiet.unstaked, quiet.unrolled, quiet.rowless, quiet.unmutated⟩

/-- **What is left of the passes is the profile pass**, behind its own checkpoint. -/
theorem runStakerAndRollups_of_quiet {opts : ReplayOpts} {db : Db}
    (quiet : Quiet opts.includeTentative db) (answers : CachedAnswers) :
    ∃ block db', runStakerAndRollups opts answers db = .ok db' ∧
      SameRows (runProfileBackfill answers.orchestrators opts.includeTentative
        orchProfileBatchLimit (db.advanceCheckpoint .stakerFlowBackfillV2 block)).1 db' := by
  obtain ⟨block, flow⟩ := runFlowBackfill_of_unstaked quiet.unstaked
  have flowed := quiet.of_sameRows (sameRows_advanceCheckpoint db .stakerFlowBackfillV2 block)
  have pending := refreshPending_of_unstaked flowed.unstaked flowed.rowless answers.bonding
  obtain ⟨rows, checkpoints, frame⟩ :
      ∃ rows checkpoints, (runProfileBackfill answers.orchestrators opts.includeTentative
        orchProfileBatchLimit (db.advanceCheckpoint .stakerFlowBackfillV2 block)).1 =
          { db.advanceCheckpoint .stakerFlowBackfillV2 block with
            orchStakeByRound := rows, indexerCheckpoints := checkpoints } :=
    runProfileBackfill_frame answers.orchestrators
  have profiled : Quiet opts.includeTentative (runProfileBackfill answers.orchestrators
      opts.includeTentative orchProfileBatchLimit
        (db.advanceCheckpoint .stakerFlowBackfillV2 block)).1 := by
    rw [frame]
    exact ⟨quiet.unstaked, quiet.unrolled, quiet.rowless, quiet.unmutated⟩
  have payouts : SameRows _ _ := sameRows_runOnce sumsEligible_orchPayouts profiled.unrolled
    profiled.unmutated rollupBatchLimit
  have paid := profiled.of_sameRows payouts
  have rewards : SameRows _ _ := sameRows_runOnce sumsEligible_orchRewards paid.unrolled
    paid.unmutated rollupBatchLimit
  have rewarded := paid.of_sameRows rewards
  have redeemed : SameRows _ _ := sameRows_runOnce sumsEligible_tickets rewarded.unrolled
    rewarded.unmutated rollupBatchLimit
  refine ⟨block, _, ?_, (payouts.trans rewards).trans redeemed⟩
  rw [runStakerAndRollups, flow, pending]
  rfl

end ProtocolExplorer.Orchestrator
