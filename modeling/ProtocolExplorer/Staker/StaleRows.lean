import ProtocolExplorer.Staker.Iteration
import ProtocolExplorer.Staker.ReplayCompleteness

/-!
# Stake rows of orphaned events

A flow run upserts the rows its replays produce and deletes none.  More events never make a
replay write at fewer blocks, so a stored row goes stale in one way only: its events are marked
non-canonical afterwards.

* `replayBlocks_mono` — a longer stream writes at no fewer blocks;
* `flowRowAt_runFlowBackfill` — what a run adds to the stored blocks;
* `flowRows_canonical` — **in every run in which the reorg watcher leaves every stored row a
  canonical event, a replayed delegator's rows stand at exactly the blocks of its replay**;
* `orphanedBond_leaves_row` — a row that outlives its Bond.
-/

set_option autoImplicit false

namespace ProtocolExplorer.Staker

open ProtocolExplorer.Lib
open ProtocolExplorer.Store
open ProtocolExplorer.Indexer

/-! ## The law and its condition -/

/-- There is a stake row of the delegator at the block that is not of the round refresh. -/
def FlowRowAt (db : Db) (delegator : Address) (block : ℤ) : Prop :=
  ∃ row ∈ db.stakeBalancesByBlock.lookup (delegator, block), row.source ≠ .roundRefresh

instance (db : Db) (delegator : Address) (block : ℤ) : Decidable (FlowRowAt db delegator block) :=
  inferInstanceAs (Decidable (∃ row ∈ db.stakeBalancesByBlock.lookup (delegator, block),
    row.source ≠ .roundRefresh))

/-- The blocks of the rows that a replay outputs. -/
def replayBlocks (delegator : Address) (events : List RawEvent) : List ℤ :=
  (replayDelegator delegator events).rows.map RowWrite.blockNumber

/-- The rows of every delegator that a run has replayed stand at exactly the blocks that the
replay of its finalized canonical stream outputs. -/
def FlowRowsCanonical (includeTentative : Bool) (db : Db) : Prop :=
  ∀ bucket ∈ flowReplays includeTentative db, ∀ block,
    FlowRowAt (runFlowBackfill includeTentative db).1 bucket.1 block ↔
      block ∈ replayBlocks bucket.1 (completeStream db bucket.1)

/-- A pass reads finalized events only. -/
def readsFinalized (includeTentative : Bool) (db : Db) : Prop :=
  ∀ e ∈ stakeEvents includeTentative db, e.finality = .finalized

instance (includeTentative : Bool) (db : Db) : Decidable (readsFinalized includeTentative db) :=
  inferInstanceAs (Decidable (∀ e ∈ stakeEvents includeTentative db, e.finality = .finalized))

/-- Each delegator that a run replays is replayed from its whole stream, or has its rows
already. -/
def replaysWhole (includeTentative : Bool) (db : Db) : Prop :=
  ∀ bucket ∈ flowReplays includeTentative db, bucket.2 = completeStream db bucket.1 ∨
    ∀ block ∈ replayBlocks bucket.1 (completeStream db bucket.1), FlowRowAt db bucket.1 block

instance (includeTentative : Bool) (db : Db) : Decidable (replaysWhole includeTentative db) :=
  inferInstanceAs (Decidable (∀ bucket ∈ flowReplays includeTentative db,
    bucket.2 = completeStream db bucket.1 ∨
      ∀ block ∈ replayBlocks bucket.1 (completeStream db bucket.1), FlowRowAt db bucket.1 block))

/-- No row of a replay stands at the block. -/
def noRowAt (blockNumber : ℤ) (db : Db) : Prop :=
  ∀ key ∈ db.stakeBalancesByBlock.keys, key.2 = blockNumber → ¬ FlowRowAt db key.1 key.2

instance (blockNumber : ℤ) (db : Db) : Decidable (noRowAt blockNumber db) :=
  inferInstanceAs (Decidable (∀ key ∈ db.stakeBalancesByBlock.keys, key.2 = blockNumber →
    ¬ FlowRowAt db key.1 key.2))

/-- The condition of the law: the reorg watcher marks no block that rows were derived at, and
the passes read finalized events and whole streams. -/
def orphansNoRow (db : Db) : StakeAction → Prop
  | .rows (.diverge blockNumber) => noRowAt blockNumber db
  | .rows _ => True
  | .flow includeTentative => readsFinalized includeTentative db ∧ replaysWhole includeTentative db
  | .pending _ includeTentative => readsFinalized includeTentative db
  | .current .. => True

instance (db : Db) : ∀ a, Decidable (orphansNoRow db a)
  | .rows (.diverge blockNumber) => inferInstanceAs (Decidable (noRowAt blockNumber db))
  | .rows (.insert _) => inferInstanceAs (Decidable True)
  | .rows (.postL1 _) => inferInstanceAs (Decidable True)
  | .rows (.finalize ..) => inferInstanceAs (Decidable True)
  | .flow includeTentative => inferInstanceAs (Decidable
      (readsFinalized includeTentative db ∧ replaysWhole includeTentative db))
  | .pending _ includeTentative => inferInstanceAs (Decidable (readsFinalized includeTentative db))
  | .current .. => inferInstanceAs (Decidable True)

/-! ## The blocks of a replay -/

/-- Does the event register the delegator? -/
def registers (delegator : Address) (row : PreparedRow) : Bool :=
  match row.eventName with
  | .Bond => decide (row.fromAddress = some delegator)
  | .TransferBond => decide (row.toAddress = some delegator)
  | _ => false

/-- Does the replay write a row for the event? -/
def writesRow (delegator : Address) (registered : Bool) (row : PreparedRow) : Bool :=
  match row.eventName with
  | .Bond | .EarningsClaimed => decide (row.fromAddress = some delegator)
  | .Unbond | .WithdrawStake | .Rebond => decide (row.fromAddress = some delegator) && registered
  | .TransferBond => decide (row.toAddress = some delegator) ||
      decide (row.fromAddress = some delegator) && registered
  | _ => false

/-- The blocks at which a replay writes, from the events' columns. -/
def writtenBlocks (delegator : Address) : Bool → List PreparedRow → List ℤ
  | _, [] => []
  | registered, row :: rest =>
      (if writesRow delegator registered row then [row.blockNumber] else []) ++
        writtenBlocks delegator (registered || registers delegator row) rest

theorem mem_insertRow {row other : RowWrite} {rows : List RowWrite}
    (member : other ∈ insertRow row rows) : other = row ∨ other ∈ rows := by
  induction rows with
  | nil => exact Or.inl (List.mem_singleton.mp member)
  | cons head rest inductionHypothesis =>
      unfold insertRow at member
      split at member
      · exact (List.mem_cons.mp member).imp_right id
      · split at member
        · rcases List.mem_cons.mp member with here | later
          · exact Or.inl here
          · exact Or.inr (List.mem_cons_of_mem head later)
        · rcases List.mem_cons.mp member with here | later
          · exact Or.inr (here ▸ List.mem_cons_self ..)
          · exact (inductionHypothesis later).imp_right (List.mem_cons_of_mem head)

theorem mem_blocks_insertRow {row : RowWrite} {rows : List RowWrite} {block : ℤ} :
    block ∈ (insertRow row rows).map RowWrite.blockNumber ↔
      block = row.blockNumber ∨ block ∈ rows.map RowWrite.blockNumber := by
  induction rows with
  | nil => simp [insertRow]
  | cons head rest inductionHypothesis =>
      unfold insertRow
      split
      · simp
      · split
        · next same => simp [same]
        · rw [List.map_cons, List.mem_cons, inductionHypothesis, List.map_cons, List.mem_cons]
          exact or_left_comm

/-- One step of the replay: who is registered, and where rows are. -/
theorem replayStep_spec (delegator : Address) (s : ReplayState) (ev : RawEvent) :
    (replayStep delegator s ev).registered =
        (s.registered || registers delegator ev.toPreparedRow) ∧
      ∀ block, block ∈ (replayStep delegator s ev).rows.map RowWrite.blockNumber ↔
        (writesRow delegator s.registered ev.toPreparedRow = true ∧ block = ev.blockNumber) ∨
          block ∈ s.rows.map RowWrite.blockNumber := by
  by_cases sender : ev.fromAddress = some delegator
  · by_cases receiver : ev.toAddress = some delegator <;> cases known : s.registered <;>
      cases name : ev.eventName <;>
      simp [replayStep, registers, writesRow, name, sender, receiver, known, ReplayState.register,
        ReplayState.credit, ReplayState.debit, ReplayState.follow, ReplayState.writeRow,
        ReplayState.see, ReplayState.skip, mem_blocks_insertRow]
  · by_cases receiver : ev.toAddress = some delegator <;> cases known : s.registered <;>
      cases name : ev.eventName <;>
      simp [replayStep, registers, writesRow, name, sender, receiver, known, ReplayState.register,
        ReplayState.writeRow, ReplayState.see, mem_blocks_insertRow]

/-- No row of a step is a round refresh. -/
theorem source_replayStep {delegator : Address} {s : ReplayState} {ev : RawEvent}
    (own : ∀ row ∈ s.rows, row.source ≠ .roundRefresh) :
    ∀ row ∈ (replayStep delegator s ev).rows, row.source ≠ .roundRefresh := by
  have written : ∀ (t : ReplayState) (source : StakeSource), source ≠ .roundRefresh →
      t.rows = s.rows → ∀ row ∈ (t.writeRow ev source).rows, row.source ≠ .roundRefresh := by
    intro t source derived same row member
    rcases mem_insertRow member with rfl | old
    · exact derived
    · exact own row (same ▸ old)
  have registering : (s.register ev).rows = s.rows := by
    unfold ReplayState.register
    split <;> rfl
  unfold replayStep
  dsimp only
  split
  · exact written _ _ (by decide) registering
  · split
    · exact written _ _ (by decide) rfl
    · exact own
  · split
    · exact written _ _ (by decide) rfl
    · exact own
  · split
    · exact written _ _ (by decide) rfl
    · exact own
  · refine written _ _ ?_ rfl
    split <;> decide
  · split
    · split
      · exact written _ _ (by decide) rfl
      · exact own
    · split
      · exact written _ _ (by decide) registering
      · exact own
  · exact own

theorem source_replayDelegator (delegator : Address) (events : List RawEvent) :
    ∀ row ∈ (replayDelegator delegator events).rows, row.source ≠ .roundRefresh := by
  have along : ∀ (events : List RawEvent) (s : ReplayState),
      (∀ row ∈ s.rows, row.source ≠ .roundRefresh) →
        ∀ row ∈ (events.foldl (replayStep delegator) s).rows, row.source ≠ .roundRefresh := by
    intro events
    induction events with
    | nil => exact fun s own => own
    | cons ev rest inductionHypothesis =>
        exact fun s own => inductionHypothesis _ (source_replayStep own)
  exact along events ReplayState.start fun _ member => absurd member List.not_mem_nil

/-- The blocks of a replay are those of its writing events. -/
theorem mem_replayBlocks {delegator : Address} {events : List RawEvent} {block : ℤ} :
    block ∈ replayBlocks delegator events ↔
      block ∈ writtenBlocks delegator false (events.map RawEvent.toPreparedRow) := by
  have along : ∀ (events : List RawEvent) (s : ReplayState),
      block ∈ (events.foldl (replayStep delegator) s).rows.map RowWrite.blockNumber ↔
        block ∈ s.rows.map RowWrite.blockNumber ∨
          block ∈ writtenBlocks delegator s.registered (events.map RawEvent.toPreparedRow) := by
    intro events
    induction events with
    | nil => simp [writtenBlocks]
    | cons ev rest inductionHypothesis =>
        intro s
        obtain ⟨registered, blocks⟩ := replayStep_spec delegator s ev
        rw [List.foldl_cons, inductionHypothesis, registered, blocks, List.map_cons, writtenBlocks,
          List.mem_append]
        cases writesRow delegator s.registered ev.toPreparedRow <;> simp [or_assoc, or_left_comm]
  refine (along events ReplayState.start).trans ?_
  simp [ReplayState.start]

theorem writesRow_mono {delegator : Address} {registered registered' : Bool} {row : PreparedRow}
    (implies : registered = true → registered' = true)
    (writes : writesRow delegator registered row = true) :
    writesRow delegator registered' row = true := by
  unfold writesRow at writes ⊢
  split at writes
  all_goals simp_all
  exact writes.imp_right fun both => ⟨both.1, implies both.2⟩

/-- **A longer stream writes at no fewer blocks.** -/
theorem writtenBlocks_mono {delegator : Address} {some_ rows : List PreparedRow}
    (sub : some_.Sublist rows) : ∀ {registered registered' : Bool},
      (registered = true → registered' = true) → ∀ block ∈ writtenBlocks delegator registered some_,
        block ∈ writtenBlocks delegator registered' rows := by
  induction sub with
  | slnil => exact fun _ _ member => member
  | cons row _ inductionHypothesis =>
      intro registered registered' implies block member
      refine List.mem_append_right _ (inductionHypothesis (fun known => ?_) block member)
      simp [implies known]
  | cons_cons row _ inductionHypothesis =>
      intro registered registered' implies block member
      rcases List.mem_append.mp member with here | later
      · refine List.mem_append_left _ ?_
        split at here
        · next writes => rwa [if_pos (writesRow_mono implies writes)]
        · exact absurd here List.not_mem_nil
      · refine List.mem_append_right _ (inductionHypothesis (fun known => ?_) block later)
        rcases Bool.or_eq_true _ _ ▸ known with before | now
        · simp [implies before]
        · simp [now]

theorem replayBlocks_mono {delegator : Address} {events events' : List RawEvent}
    (sub : (events.map RawEvent.toPreparedRow).Sublist (events'.map RawEvent.toPreparedRow))
    {block : ℤ} (member : block ∈ replayBlocks delegator events) :
    block ∈ replayBlocks delegator events' :=
  mem_replayBlocks.mpr (writtenBlocks_mono sub id block (mem_replayBlocks.mp member))

/-- A claim always writes. -/
theorem mem_writtenBlocks_of_claim {delegator : Address} {row : PreparedRow}
    (isClaim : row.eventName = .EarningsClaimed) (sender : row.fromAddress = some delegator)
    {rows : List PreparedRow} (member : row ∈ rows) :
    ∀ {registered : Bool}, row.blockNumber ∈ writtenBlocks delegator registered rows := by
  induction rows with
  | nil => exact absurd member List.not_mem_nil
  | cons head rest inductionHypothesis =>
      intro registered
      rcases List.mem_cons.mp member with rfl | later
      · refine List.mem_append_left _ ?_
        simp [writesRow, isClaim, sender]
      · exact List.mem_append_right _ (inductionHypothesis later)

/-! ## What the passes do to the rows -/

section Rows

variable {db db' : Db} {delegator : Address} {block : ℤ}

/-- A stored row of a replay has one more delegator and block. -/
theorem flowRowAt_upsertStakeRow {owner : Address} {row : RowWrite}
    (derived : row.source ≠ .roundRefresh) :
    FlowRowAt (upsertStakeRow owner db row) delegator block ↔
      (owner = delegator ∧ block = row.blockNumber) ∨ FlowRowAt db delegator block := by
  unfold FlowRowAt upsertStakeRow
  dsimp only
  rw [Table.lookup_upsert]
  by_cases here : owner = delegator ∧ block = row.blockNumber
  · obtain ⟨rfl, rfl⟩ := here
    simp [derived]
  · have elsewhere : ¬ (delegator, block) = (owner, row.blockNumber) := by
      intro same
      exact here ⟨(congrArg Prod.fst same).symm, congrArg Prod.snd same⟩
    rw [if_neg elsewhere]
    exact (or_iff_right here).symm

/-- Persisting a replay adds the blocks of its rows. -/
theorem flowRowAt_persistReplay {bucket : Address × List RawEvent} :
    FlowRowAt (persistReplay db bucket) delegator block ↔
      (bucket.1 = delegator ∧ block ∈ replayBlocks bucket.1 bucket.2) ∨
        FlowRowAt db delegator block := by
  have along : ∀ (rows : List RowWrite) (stored : Db),
      (∀ row ∈ rows, row.source ≠ .roundRefresh) →
        (FlowRowAt (rows.foldl (upsertStakeRow bucket.1) stored) delegator block ↔
          (bucket.1 = delegator ∧ block ∈ rows.map RowWrite.blockNumber) ∨
            FlowRowAt stored delegator block) := by
    intro rows
    induction rows with
    | nil => simp
    | cons row rest inductionHypothesis =>
        intro stored derived
        rw [List.foldl_cons,
          inductionHypothesis _ fun other later => derived other (List.mem_cons_of_mem row later),
          flowRowAt_upsertStakeRow (derived row (List.mem_cons_self ..)), List.map_cons,
          List.mem_cons]
        tauto
  have registry : FlowRowAt (persistReplay db bucket) delegator block ↔
      FlowRowAt ((replayDelegator bucket.1 bucket.2).rows.foldl (upsertStakeRow bucket.1) db)
        delegator block := by
    unfold persistReplay persistOutcome
    cases (replayDelegator bucket.1 bucket.2).registry <;> exact Iff.rfl
  exact registry.trans (along _ db (source_replayDelegator bucket.1 bucket.2))

/-- **A run adds the blocks of its replays, and loses none.** -/
theorem flowRowAt_runFlowBackfill {includeTentative : Bool} :
    FlowRowAt (runFlowBackfill includeTentative db).1 delegator block ↔
      (∃ bucket ∈ flowReplays includeTentative db, bucket.1 = delegator ∧
        block ∈ replayBlocks bucket.1 bucket.2) ∨ FlowRowAt db delegator block := by
  have along : ∀ (buckets : List (Address × List RawEvent)) (stored : Db),
      FlowRowAt (buckets.foldl persistReplay stored) delegator block ↔
        (∃ bucket ∈ buckets, bucket.1 = delegator ∧ block ∈ replayBlocks bucket.1 bucket.2) ∨
          FlowRowAt stored delegator block := by
    intro buckets
    induction buckets with
    | nil => simp
    | cons bucket rest inductionHypothesis =>
        intro stored
        rw [List.foldl_cons, inductionHypothesis, flowRowAt_persistReplay, List.exists_mem_cons_iff]
        exact or_assoc.symm.trans (or_congr_left or_comm)
  rw [runFlowBackfill_fst]
  exact along _ db

/-- Reconciliation keeps the rows and their sources. -/
theorem flowRowAt_reconcile {reads : BondingReads}
    (completed : reconcileExactStakeRows reads db = some db') :
    FlowRowAt db' delegator block ↔ FlowRowAt db delegator block := by
  unfold FlowRowAt
  rw [lookup_reconcileExactStakeRows completed]
  cases stored : db.stakeBalancesByBlock.lookup (delegator, block) with
  | none => exact Iff.rfl
  | some row =>
      have answered : (reads.getDelegator delegator block).isSome := by
        simp only [reconcileExactStakeRows, Option.ite_none_right_eq_some] at completed
        exact completed.1 (delegator, block)
          (Finmap.mem_keys.mpr (Finmap.mem_of_lookup_eq_some stored))
      obtain ⟨state, answer⟩ := Option.isSome_iff_exists.mp answered
      simp [answer, StakeRow.exact]

/-- Storing pending amounts keeps the rows, and may turn a row at the claim's block into one. -/
theorem flowRowAt_writePending {update : PreparedUpdate} :
    (FlowRowAt db delegator block → FlowRowAt (writePending db update) delegator block) ∧
      (FlowRowAt (writePending db update) delegator block →
        FlowRowAt db delegator block ∨ update.delegator = delegator ∧ update.blockNumber = block) := by
  unfold FlowRowAt writePending
  dsimp only
  rw [Table.lookup_modify]
  split
  · next same =>
      obtain ⟨rfl, rfl⟩ := Prod.mk.inj same
      refine ⟨?_, fun _ => Or.inr ⟨rfl, rfl⟩⟩
      rintro ⟨row, stored, _⟩
      rw [Option.mem_def] at stored
      rw [stored]
      exact ⟨StakeRow.withPending update row, rfl, by simp [StakeRow.withPending]⟩
  · exact ⟨id, Or.inl⟩

/-- A pending refresh loses no row; a new one stands at the block of a claim. -/
theorem flowRowAt_refreshPending {reads : BondingReads} {includeTentative : Bool}
    (completed : refreshPending reads includeTentative db = some db') :
    (FlowRowAt db delegator block → FlowRowAt db' delegator block) ∧
      (FlowRowAt db' delegator block → FlowRowAt db delegator block ∨
        ∃ e ∈ claims includeTentative db, e.fromAddress = some delegator ∧
          e.blockNumber = block) := by
  obtain ⟨reconciled, reconciles, rfl⟩ := Option.map_eq_some_iff.mp completed
  have along : ∀ (updates : List PreparedUpdate) (stored : Db),
      (FlowRowAt stored delegator block →
        FlowRowAt (updates.foldl writePending stored) delegator block) ∧
      (FlowRowAt (updates.foldl writePending stored) delegator block →
        FlowRowAt stored delegator block ∨
          ∃ update ∈ updates, update.delegator = delegator ∧ update.blockNumber = block) := by
    intro updates
    induction updates with
    | nil => exact fun stored => ⟨id, Or.inl⟩
    | cons update rest inductionHypothesis =>
        intro stored
        obtain ⟨kept, origin⟩ := inductionHypothesis (writePending stored update)
        refine ⟨fun before => kept (flowRowAt_writePending.1 before), fun after => ?_⟩
        rcases origin after with first | ⟨other, later, same⟩
        · refine (flowRowAt_writePending.2 first).imp_right fun same => ?_
          exact ⟨update, List.mem_cons_self .., same⟩
        · exact Or.inr ⟨other, List.mem_cons_of_mem update later, same⟩
  obtain ⟨kept, origin⟩ :=
    along ((claims includeTentative db).filterMap (preparedUpdate reads)) reconciled
  rw [flowRowAt_reconcile reconciles] at kept origin
  refine ⟨kept, fun after => (origin after).imp_right ?_⟩
  rintro ⟨update, member, rfl, rfl⟩
  obtain ⟨e, isClaim, prepared⟩ := List.mem_filterMap.mp member
  obtain ⟨sender, sends, prepared⟩ := Option.bind_eq_some_iff.mp prepared
  obtain ⟨endRound, _, prepared⟩ := Option.bind_eq_some_iff.mp prepared
  obtain ⟨stake, _, prepared⟩ := Option.bind_eq_some_iff.mp prepared
  obtain ⟨fees, _, rfl⟩ := Option.map_eq_some_iff.mp prepared
  exact ⟨e, isClaim, sends, rfl⟩

/-- The rows of a current refresh are rows of the round refresh, at a block where the delegator
had none. -/
theorem flowRowAt_foldl_writeState {anchor : NewRoundAnchor} {states : List RefreshedState}
    (free : ∀ state ∈ states, ¬ FlowRowAt db state.delegator anchor.blockNumber) :
    FlowRowAt (states.foldl (writeState anchor) db) delegator block ↔
      FlowRowAt db delegator block := by
  induction states generalizing db with
  | nil => exact Iff.rfl
  | cons state rest inductionHypothesis =>
      have step : ∀ delegator block, FlowRowAt (writeState anchor db state) delegator block ↔
          FlowRowAt db delegator block := by
        intro delegator block
        by_cases here : (delegator, block) = (state.delegator, anchor.blockNumber)
        · obtain ⟨rfl, rfl⟩ := Prod.mk.inj here
          refine iff_of_false ?_ (free state (List.mem_cons_self ..))
          rintro ⟨row, stored, derived⟩
          have refreshed : row.source = .roundRefresh := by
            simp only [writeState, updateRegistryActivity, upsertRefreshed,
              Table.lookup_upsert_self, Option.mem_def, Option.some.injEq] at stored
            rw [← stored]
          exact derived refreshed
        · unfold FlowRowAt
          rw [show (writeState anchor db state).stakeBalancesByBlock.lookup (delegator, block) =
            db.stakeBalancesByBlock.lookup (delegator, block) from Table.lookup_upsert_of_ne here]
      rw [List.foldl_cons, inductionHypothesis, step]
      intro other later
      rw [step]
      exact free other (List.mem_cons_of_mem state later)

/-- A current refresh adds and loses no row of a replay. -/
theorem flowRowAt_refreshCurrentStake {reads : BondingReads} {includeTentative : Bool}
    (completed : refreshCurrentStake reads includeTentative db = some db') :
    FlowRowAt db' delegator block ↔ FlowRowAt db delegator block := by
  unfold refreshCurrentStake at completed
  split at completed
  · cases completed
    exact Iff.rfl
  · next anchor _ =>
      dsimp only at completed
      split at completed
      · cases completed
        exact Iff.rfl
      · obtain ⟨states, read, rfl⟩ := Option.map_eq_some_iff.mp completed
        have same : FlowRowAt (states.foldl (writeState anchor) db) delegator block ↔
            FlowRowAt db delegator block := by
          refine flowRowAt_foldl_writeState fun state member held => ?_
          have isCandidate : state.delegator ∈ CurrentStake.loadCandidates db anchor.blockNumber := by
            rw [← (mem_of_mapM_readState read).1]
            exact List.mem_map_of_mem member
          obtain ⟨last, _, isLatest, _, older, _⟩ := CurrentStake.mem_loadCandidates.mp isCandidate
          obtain ⟨row, stored, _⟩ := held
          have below := (latestStakeBlock_eq_some.mp isLatest).2 anchor.blockNumber
            (Finmap.mem_of_lookup_eq_some stored)
          exact absurd older (not_lt.mpr below)
        exact same

end Rows

/-! ## The invariant -/

/-- Every row of a replay stands at a block that the replay of the events at such blocks
outputs. -/
def Supported (db : Db) : Prop :=
  ∀ delegator block, FlowRowAt db delegator block → block ∈ replayBlocks delegator
    ((completeStream db delegator).filter fun e => decide (FlowRowAt db delegator e.blockNumber))

/-- The events of a delegator's stream whose blocks are kept. -/
def streamAt (keep : ℤ → Bool) (delegator : Address) (e : RawEvent) : Bool :=
  (e.eligible false && isStakeEvent e.eventName) && decide (delegator ∈ delegatorsOf e) &&
    keep e.blockNumber

/-- The columns of a filtered stream are the sorted columns of the filtered log. -/
theorem map_filter_completeStream (keep : ℤ → Bool) (db : Db) (delegator : Address) :
    ((completeStream db delegator).filter fun e => keep e.blockNumber).map RawEvent.toPreparedRow =
      orderBy (fun row : PreparedRow => toLex (row.blockNumber, row.logIndex))
        ((db.rawProtocolEvents.filter (streamAt keep delegator)).map RawEvent.toPreparedRow) := by
  have sorted : ∀ events : List RawEvent,
      orderBy (fun row : PreparedRow => toLex (row.blockNumber, row.logIndex))
        (events.map RawEvent.toPreparedRow) =
      (orderBy RawEvent.position events).map RawEvent.toPreparedRow :=
    fun events => orderBy_map (fun _ => rfl) events
  rw [sorted]
  rw [completeStream, stakeEvents, filter_orderBy, List.filter_filter, List.filter_filter]
  refine congrArg (fun rows => (orderBy RawEvent.position rows).map RawEvent.toPreparedRow) ?_
  refine List.filter_congr fun e _ => ?_
  rw [streamAt, Bool.and_comm, Bool.and_comm (keep _)]
  exact (Bool.and_assoc ..).symm

/-- A larger part of a larger log has a larger replay. -/
theorem replayBlocks_mono_of_log {db : Db} (db' : Db) {keep keep' : ℤ → Bool} {delegator : Address}
    (sub : ((db.rawProtocolEvents.filter (streamAt keep delegator)).map
        RawEvent.toPreparedRow).Sublist
      ((db'.rawProtocolEvents.filter (streamAt keep' delegator)).map RawEvent.toPreparedRow))
    {block : ℤ} (member : block ∈ replayBlocks delegator
      ((completeStream db delegator).filter fun e => keep e.blockNumber)) :
    block ∈ replayBlocks delegator
      ((completeStream db' delegator).filter fun e => keep' e.blockNumber) := by
  refine replayBlocks_mono ?_ member
  rw [map_filter_completeStream, map_filter_completeStream]
  exact orderBy_sublist sub

/-- An update of rows that keeps the columns and the events of a stream. -/
theorem sublist_map_filter {keep : RawEvent → Bool} {f : RawEvent → RawEvent}
    (columns : ∀ e, (f e).toPreparedRow = e.toPreparedRow)
    (kept : ∀ e, keep e = true → keep (f e) = true) (events : List RawEvent) :
    ((events.filter keep).map RawEvent.toPreparedRow).Sublist
      (((events.map f).filter keep).map RawEvent.toPreparedRow) := by
  rw [List.filter_map, List.map_map]
  have same : RawEvent.toPreparedRow ∘ f = RawEvent.toPreparedRow := funext columns
  rw [same]
  exact (List.monotone_filter_right events kept).map _

/-- What a writer of the log keeps of a stream at the given blocks. -/
theorem sublist_step {keep : ℤ → Bool} {delegator : Address} {events events' : List RawEvent}
    {a : Finality.LifecycleAction} (stepped : Finality.Lifecycle.step events a = some events')
    (untouched : ∀ blockNumber, a = .diverge blockNumber → keep blockNumber = false) :
    ((events.filter (streamAt keep delegator)).map RawEvent.toPreparedRow).Sublist
      ((events'.filter (streamAt keep delegator)).map RawEvent.toPreparedRow) := by
  cases a with
  | insert rows =>
      simp only [Finality.Lifecycle.step, Option.ite_none_right_eq_some,
        Option.some.injEq] at stepped
      obtain ⟨_, rfl⟩ := stepped
      obtain ⟨new, appended, _⟩ := exists_insertEvents_eq_append rows events
      rw [appended, List.filter_append]
      exact (List.sublist_append_left ..).map _
  | postL1 latestTs =>
      cases stepped
      refine sublist_map_filter (fun e => ?_) (fun e kept => ?_) events
      · unfold Finality.markL1Posted
        split <;> rfl
      · unfold Finality.markL1Posted
        split
        · next posts =>
            simp [streamAt, RawEvent.eligible, posts.1] at kept
        · exact kept
  | finalize now finalizedTs =>
      cases stepped
      refine sublist_map_filter (fun e => ?_) (fun e kept => ?_) events
      · unfold Finality.markFinalized
        split <;> rfl
      · unfold Finality.markFinalized
        split
        · next finalizes =>
            simp only [streamAt, RawEvent.eligible, Bool.and_eq_true] at kept ⊢
            exact ⟨⟨⟨⟨finalizes.2.1, rfl⟩, kept.1.1.2⟩, kept.1.2⟩, kept.2⟩
        · exact kept
  | diverge blockNumber =>
      cases stepped
      refine sublist_map_filter (fun e => ?_) (fun e kept => ?_) events
      · unfold Reorg.unmark
        split <;> rfl
      · unfold Reorg.unmark
        split
        · next marked =>
            have gone := untouched blockNumber rfl
            simp only [streamAt, Bool.and_eq_true, marked.1, gone] at kept
            exact absurd kept.2 (by decide)
        · exact kept

/-- A replay does not need the events of the blocks at which it writes nothing. -/
theorem writtenBlocks_filter {delegator : Address} (keep : ℤ → Bool) {rows : List PreparedRow} :
    ∀ {registered : Bool}, (∀ block ∈ writtenBlocks delegator registered rows, keep block = true) →
      ∀ block ∈ writtenBlocks delegator registered rows,
        block ∈ writtenBlocks delegator registered (rows.filter fun row => keep row.blockNumber) := by
  induction rows with
  | nil => exact fun _ _ member => member
  | cons row rest inductionHypothesis =>
      intro registered keeps block member
      have keepsRest : ∀ block ∈ writtenBlocks delegator (registered || registers delegator row) rest,
          keep block = true := fun block later => keeps block (List.mem_append_right _ later)
      cases writes : writesRow delegator registered row with
      | true =>
          have kept : keep row.blockNumber = true := by
            refine keeps row.blockNumber (List.mem_append_left _ ?_)
            simp [writes]
          rw [List.filter_cons, if_pos kept]
          rcases List.mem_append.mp member with here | later
          · exact List.mem_append_left _ here
          · exact List.mem_append_right _ (inductionHypothesis keepsRest block later)
      | false =>
          -- an event that registers the delegator writes a row
          have silent : registers delegator row = false := by
            unfold registers
            unfold writesRow at writes
            split <;> simp_all
          simp only [writtenBlocks, writes, silent, Bool.or_false, Bool.false_eq_true, if_false,
            List.nil_append] at member keepsRest
          have later := inductionHypothesis keepsRest block member
          by_cases kept : keep row.blockNumber = true
          · rw [List.filter_cons, if_pos kept]
            refine List.mem_append_right _ ?_
            rwa [silent, Bool.or_false]
          · rwa [List.filter_cons, if_neg kept]

/-! ## Steps -/

section Steps

variable {db db' : Db}

/-- A supported row stands at a block of the whole replay. -/
theorem mem_replayBlocks_of_supported (supported : Supported db) {delegator : Address} {block : ℤ}
    (held : FlowRowAt db delegator block) :
    block ∈ replayBlocks delegator (completeStream db delegator) :=
  replayBlocks_mono (List.filter_sublist.map _) (supported delegator block held)

/-- More rows are supported when each new one is. -/
theorem supported_of_grown (supported : Supported db)
    (sameLog : db'.rawProtocolEvents = db.rawProtocolEvents)
    (kept : ∀ delegator block, FlowRowAt db delegator block → FlowRowAt db' delegator block)
    (new : ∀ delegator block, FlowRowAt db' delegator block → FlowRowAt db delegator block ∨
      block ∈ replayBlocks delegator ((completeStream db delegator).filter fun e =>
        decide (FlowRowAt db' delegator e.blockNumber))) : Supported db' := by
  intro delegator block held
  have sameStream : completeStream db' delegator = completeStream db delegator := by
    rw [completeStream, completeStream, stakeEvents, stakeEvents, sameLog]
  rw [sameStream]
  rcases new delegator block held with old | member
  · refine replayBlocks_mono (List.Sublist.map _ ?_) (supported delegator block old)
    refine List.monotone_filter_right _ fun e stands => ?_
    simpa using kept delegator e.blockNumber (by simpa using stands)
  · exact member

/-- The buckets of a pass over finalized events are parts of the streams. -/
theorem bucket_sublist {includeTentative : Bool} {delegator : Address} {events : List RawEvent}
    (finalized : readsFinalized includeTentative db)
    (replayed : (delegator, events) ∈ flowReplays includeTentative db) :
    events.Sublist (completeStream db delegator) := by
  have same : stakeEvents includeTentative db = stakeEvents false db := by
    refine List.filter_congr fun e stored => ?_
    cases selected : e.eligible includeTentative && isStakeEvent e.eventName with
    | true =>
        have isFinal := finalized e (List.mem_filter.mpr ⟨stored, selected⟩)
        simp only [RawEvent.eligible, Bool.and_eq_true] at selected
        simp [RawEvent.eligible, selected, isFinal]
    | false =>
        simp only [RawEvent.eligible, Bool.false_or] at selected ⊢
        revert selected
        cases e.isCanonical <;> cases includeTentative <;> cases isStakeEvent e.eventName <;> simp
  rw [mem_flowReplays replayed, same]
  refine orderBy_sublist (List.monotone_filter_right _ fun e selected => ?_)
  exact (Bool.and_eq_true _ _ ▸ selected).2

theorem supported_rows {a : Finality.LifecycleAction} (supported : Supported db)
    (allowed : orphansNoRow db (.rows a)) (stepped : StakeHistory.step db (.rows a) = some db') :
    Supported db' := by
  obtain ⟨events, writes, rfl⟩ := Option.map_eq_some_iff.mp stepped
  intro delegator block held
  have sub : ((db.rawProtocolEvents.filter (streamAt
        (fun block => decide (FlowRowAt db delegator block)) delegator)).map
          RawEvent.toPreparedRow).Sublist
      ((events.filter (streamAt
        (fun block => decide (FlowRowAt db delegator block)) delegator)).map
          RawEvent.toPreparedRow) := by
    refine sublist_step writes fun blockNumber marks => ?_
    subst marks
    refine decide_eq_false fun standing => ?_
    obtain ⟨row, stored, derived⟩ := standing
    exact allowed (delegator, blockNumber)
      (Finmap.mem_keys.mpr (Finmap.mem_of_lookup_eq_some stored)) rfl ⟨row, stored, derived⟩
  exact replayBlocks_mono_of_log { db with rawProtocolEvents := events } sub
    (supported delegator block held)

theorem supported_flow {includeTentative : Bool} (supported : Supported db)
    (finalized : readsFinalized includeTentative db) :
    Supported (runFlowBackfill includeTentative db).1 := by
  refine supported_of_grown supported (runFlowBackfill_rawProtocolEvents ..)
    (fun delegator block held => flowRowAt_runFlowBackfill.mpr (Or.inr held)) ?_
  intro delegator block held
  rcases flowRowAt_runFlowBackfill.mp held with ⟨bucket, replayed, rfl, written⟩ | old
  · -- the bucket's own rows keep every event that it needs
    refine Or.inr (mem_replayBlocks.mpr ?_)
    have own := writtenBlocks_filter
      (fun block => decide (FlowRowAt (runFlowBackfill includeTentative db).1 bucket.1 block))
      (fun other member => decide_eq_true (flowRowAt_runFlowBackfill.mpr
        (Or.inl ⟨bucket, replayed, rfl, mem_replayBlocks.mpr member⟩)))
      block (mem_replayBlocks.mp written)
    rw [List.filter_map] at own
    refine writtenBlocks_mono (List.Sublist.map _ ?_) id block own
    exact (bucket_sublist finalized replayed).filter _
  · exact Or.inl old

theorem supported_pending {reads : BondingReads} {includeTentative : Bool}
    (supported : Supported db) (finalized : readsFinalized includeTentative db)
    (completed : refreshPending reads includeTentative db = some db') : Supported db' := by
  obtain ⟨stake, frame⟩ := refreshPending_frame completed
  refine supported_of_grown supported (by rw [frame])
    (fun delegator block held => (flowRowAt_refreshPending completed).1 held) ?_
  intro delegator block held
  refine ((flowRowAt_refreshPending completed).2 held).imp_right ?_
  rintro ⟨e, claimed, sender, rfl⟩
  obtain ⟨stored, passes⟩ := List.mem_filter.mp (mem_orderBy.mp claimed)
  obtain ⟨isClaim, eligible⟩ := Bool.and_eq_true _ _ ▸ passes
  have named := of_decide_eq_true isClaim
  have staked : e ∈ stakeEvents includeTentative db :=
    List.mem_filter.mpr ⟨stored, by simp [eligible, named, isStakeEvent]⟩
  have isFinal := finalized e staked
  have canonical : e.isCanonical = true := (Bool.and_eq_true _ _ ▸ eligible).1
  refine mem_replayBlocks.mpr ?_
  refine mem_writtenBlocks_of_claim named sender ?_
  refine List.mem_map_of_mem (List.mem_filter.mpr ⟨?_, decide_eq_true held⟩)
  refine mem_orderBy.mpr (List.mem_filter.mpr ⟨List.mem_filter.mpr ⟨stored, ?_⟩, ?_⟩)
  · simp [RawEvent.eligible, canonical, isFinal, named, isStakeEvent]
  · simp [delegatorsOf, named, sender]

theorem supported_current {reads : BondingReads} {includeTentative : Bool}
    (supported : Supported db)
    (completed : refreshCurrentStake reads includeTentative db = some db') : Supported db' := by
  refine supported_of_grown supported ?_
    (fun delegator block held => (flowRowAt_refreshCurrentStake completed).mpr held)
    (fun delegator block held => Or.inl ((flowRowAt_refreshCurrentStake completed).mp held))
  have along : ∀ (anchor : NewRoundAnchor) (states : List RefreshedState) (stored : Db),
      (states.foldl (writeState anchor) stored).rawProtocolEvents = stored.rawProtocolEvents := by
    intro anchor states
    induction states with
    | nil => exact fun stored => rfl
    | cons state rest inductionHypothesis =>
        exact fun stored => inductionHypothesis (writeState anchor stored state)
  unfold refreshCurrentStake at completed
  split at completed
  · cases completed
    rfl
  · next anchor _ =>
      dsimp only at completed
      split at completed
      · cases completed
        rfl
      · obtain ⟨states, _, rfl⟩ := Option.map_eq_some_iff.mp completed
        exact along anchor states db

/-- An allowed step keeps the rows supported. -/
theorem supported_step (db : Db) (a : StakeAction) (db' : Db) (supported : Supported db)
    (allowed : orphansNoRow db a) (stepped : StakeHistory.step db a = some db') :
    Supported db' := by
  cases a with
  | rows write => exact supported_rows supported allowed stepped
  | flow includeTentative =>
      cases stepped
      exact supported_flow supported allowed.1
  | pending reads includeTentative => exact supported_pending supported allowed stepped
  | current reads includeTentative => exact supported_current supported stepped

end Steps

/-- **In a run whose reorg watcher marks no block that rows were derived at, a flow run leaves
each delegator that it replays rows at exactly the blocks of its replay.** -/
theorem flowRows_canonical {db : Db} {includeTentative : Bool}
    (run : GuardedRun StakeHistory.step orphansNoRow Db.empty db)
    (allowed : orphansNoRow db (.flow includeTentative)) :
    FlowRowsCanonical includeTentative db := by
  have start : Supported Db.empty := by
    rintro delegator block ⟨row, stored, _⟩
    cases stored
  have supported := GuardedRun.invariant supported_step run start
  obtain ⟨finalized, whole⟩ := allowed
  intro bucket replayed block
  rw [flowRowAt_runFlowBackfill]
  constructor
  · rintro (⟨other, replayed', same, written⟩ | old)
    · refine replayBlocks_mono ((bucket_sublist finalized ?_).map _) (same ▸ written)
      exact same ▸ replayed'
    · exact mem_replayBlocks_of_supported supported old
  · intro member
    rcases whole bucket replayed with complete | held
    · exact Or.inl ⟨bucket, replayed, rfl, complete.symm ▸ member⟩
    · exact Or.inr (held block member)

/-! ## A Bond that is orphaned -/

/-- Two Bonds of an orchestrator, in blocks 1 and 2; a third one is orphaned before any run has
read it. -/
def rebondedHistory : List StakeAction :=
  [.rows (.insert [(1, (finalizedBond 1 "0xa" "0xa").toPreparedRow)]), .rows (.finalize 0 1000),
    .flow false, .rows (.insert [(2, (finalizedBond 3 "0xa" "0xc").toPreparedRow)]),
    .rows (.diverge 3), .rows (.insert [(3, (finalizedBond 2 "0xa" "0xb").toPreparedRow)]),
    .rows (.finalize 0 1000)]

def rebondedDb : Db := (execute StakeHistory.step Db.empty rebondedHistory).get (by decide +kernel)

/-- The orphaned Bond leaves no row. -/
theorem rebonded_canonical :
    (flowReplays false rebondedDb).map Prod.fst = ["0xa"] ∧ FlowRowsCanonical false rebondedDb := by
  have executed : execute StakeHistory.step Db.empty rebondedHistory = some rebondedDb :=
    (Option.some_get _).symm
  refine ⟨by decide +kernel, flowRows_canonical ?_ (by decide +kernel)⟩
  exact execute_guardedRun executed (by decide +kernel)

/-- Block 1 is orphaned after a run has read its Bond: a late row of the block makes the reorg
watcher look at it.  The second Bond then has the delegator replayed. -/
def orphanedHistory : List StakeAction :=
  [.rows (.insert [(1, (finalizedBond 1 "0xa" "0xa").toPreparedRow)]), .rows (.finalize 0 1000),
    .flow false,
    .rows (.insert [(2, { (finalizedBond 1 "0xb" "0xb").toPreparedRow with logIndex := 9 })]),
    .rows (.diverge 1), .rows (.insert [(3, (finalizedBond 2 "0xa" "0xb").toPreparedRow)]),
    .rows (.finalize 0 1000)]

/-- **The row of an orphaned Bond survives the replay.** -/
theorem orphanedBond_leaves_row :
    ¬ ∀ db, Run StakeHistory.step Db.empty db → FlowRowsCanonical false db := by
  intro law
  obtain ⟨db, executed⟩ : ∃ db, execute StakeHistory.step Db.empty orphanedHistory = some db :=
    ⟨(execute StakeHistory.step Db.empty orphanedHistory).get (by decide +kernel),
      (Option.some_get _).symm⟩
  have same : db = (execute StakeHistory.step Db.empty orphanedHistory).get (by decide +kernel) :=
    (Option.get_of_eq_some _ executed).symm
  have replayed : ("0xa", completeStream db "0xa") ∈ flowReplays false db := by
    rw [same]
    decide +kernel
  have stale : (1 : ℤ) ∈ replayBlocks "0xa" (completeStream db "0xa") := by
    refine (law db (execute_run executed) _ replayed 1).mp ?_
    rw [same]
    decide +kernel
  rw [same] at stale
  exact absurd stale (by decide +kernel)

end ProtocolExplorer.Staker
