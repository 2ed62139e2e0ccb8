import ProtocolExplorer.Staker.Flow

/-!
# Which streams a flow run replays

A bucket of a run is complete for every delegator the batch names, because every event of
such a delegator touches it (`touches_of_mem_delegatorsOf`).  The history query also
returns events that only have an affected address as their counterparty, and the grouping
loop files these under their sender: a delegator that bonded to an affected orchestrator
is replayed too, from the events that happen to touch the affected set.

* `replayDelegator_rows_eq_nil_iff` — a replay writes exactly when its stream holds an
  opening event: a Bond or a claim sent, or a TransferBond received;
* `bucket_eq_completeStream_iff` — a bucket is complete exactly when every stake event of
  its delegator touches the affected set;
* `flow_neverPartial_iff_batchIsolated` — **no partial replay is written exactly when the
  batch is isolated**: no delegator outside it is opened by an event that touches it
  while another of its events does not.
-/

set_option autoImplicit false

namespace ProtocolExplorer.Staker

open ProtocolExplorer.Lib
open ProtocolExplorer.Store

/-! ## When a replay writes -/

/-- Events that make a replay write a row whatever came before. -/
def opensRow (delegator : Address) (ev : RawEvent) : Bool :=
  match ev.eventName with
  | .Bond | .EarningsClaimed => decide (ev.fromAddress = some delegator)
  | .TransferBond => decide (ev.toAddress = some delegator)
  | _ => false

theorem insertRow_ne_nil (row : RowWrite) (rows : List RowWrite) : insertRow row rows ≠ [] := by
  cases rows with
  | nil => simp [insertRow]
  | cons head rest =>
      rw [insertRow]
      split
      · simp
      · split <;> simp

section StateLemmas

variable (s : ReplayState) (ev : RawEvent) (source : StakeSource) (amount : Numeric)

@[simp] theorem writeRow_rows_ne_nil : (s.writeRow ev source).rows ≠ [] :=
  insertRow_ne_nil _ _

@[simp] theorem writeRow_registered : (s.writeRow ev source).registered = s.registered := rfl

@[simp] theorem see_rows : (s.see ev).rows = s.rows := rfl

@[simp] theorem see_registered : (s.see ev).registered = s.registered := rfl

@[simp] theorem skip_rows : s.skip.rows = s.rows := rfl

@[simp] theorem skip_registered : s.skip.registered = s.registered := rfl

end StateLemmas

/-- What one step does to the rows: it writes one, or it leaves rows and registration
alone, which happens only when the event is not an opening one. -/
theorem replayStep_cases (delegator : Address) (s : ReplayState) (ev : RawEvent) :
    (replayStep delegator s ev).rows ≠ [] ∧ (opensRow delegator ev = true ∨ s.registered = true) ∨
      (replayStep delegator s ev).rows = s.rows ∧
        (replayStep delegator s ev).registered = s.registered ∧ opensRow delegator ev = false := by
  cases name : ev.eventName <;> cases sender : decide (ev.fromAddress = some delegator) <;>
    simp only [replayStep, opensRow, name, sender] <;> try simp
  case TransferBond.true =>
    by_cases receiver : ev.toAddress = some delegator
    · simp [receiver]
    · cases known : s.registered <;> simp [receiver, known]
  case TransferBond.false =>
    by_cases receiver : ev.toAddress = some delegator <;> simp [receiver]
  all_goals cases known : s.registered <;> simp [known]

/-- Nothing is written and nobody is registered before the first opening event. -/
structure Unopened (s : ReplayState) : Prop where
  rows : s.rows = []
  registered : s.registered = false

theorem replay_unopened {delegator : Address} {events : List RawEvent}
    (closed : ∀ e ∈ events, opensRow delegator e = false) :
    ∀ {s : ReplayState}, Unopened s → Unopened (events.foldl (replayStep delegator) s) := by
  induction events with
  | nil => exact fun start => start
  | cons ev rest inductionHypothesis =>
      intro s start
      rw [List.foldl_cons]
      refine inductionHypothesis (fun e later => closed e (List.mem_cons_of_mem _ later)) ?_
      rcases replayStep_cases delegator s ev with ⟨_, opened | known⟩ | ⟨rows, registered, _⟩
      · rw [closed ev (List.mem_cons_self ..)] at opened
        cases opened
      · rw [start.registered] at known
        cases known
      · exact ⟨rows.trans start.rows, registered.trans start.registered⟩

/-- Rows are never lost again. -/
theorem replay_rows_ne_nil {delegator : Address} {events : List RawEvent} :
    ∀ {s : ReplayState}, s.rows ≠ [] → (events.foldl (replayStep delegator) s).rows ≠ [] := by
  induction events with
  | nil => exact fun start => start
  | cons ev rest inductionHypothesis =>
      intro s start
      rw [List.foldl_cons]
      refine inductionHypothesis ?_
      rcases replayStep_cases delegator s ev with ⟨written, _⟩ | ⟨rows, _, _⟩
      · exact written
      · exact rows ▸ start

theorem replay_rows_ne_nil_of_opensRow {delegator : Address} {events : List RawEvent}
    {ev : RawEvent} (member : ev ∈ events) (opens : opensRow delegator ev = true) :
    ∀ {s : ReplayState}, (events.foldl (replayStep delegator) s).rows ≠ [] := by
  induction events with
  | nil => cases member
  | cons head rest inductionHypothesis =>
      intro s
      rw [List.foldl_cons]
      rcases List.mem_cons.mp member with rfl | later
      · refine replay_rows_ne_nil ?_
        rcases replayStep_cases delegator s ev with ⟨written, _⟩ | ⟨_, _, closed⟩
        · exact written
        · rw [opens] at closed
          cases closed
      · exact inductionHypothesis later

/-- A replay writes no row exactly when its stream holds no opening event. -/
theorem replayDelegator_rows_eq_nil_iff {delegator : Address} {events : List RawEvent} :
    (replayDelegator delegator events).rows = [] ↔
      ∀ e ∈ events, opensRow delegator e = false := by
  constructor
  · intro silent e member
    by_contra opens
    exact replay_rows_ne_nil_of_opensRow member (by simpa using opens) silent
  · intro closed
    exact (replay_unopened closed (s := ReplayState.start) ⟨rfl, rfl⟩).rows

/-- A replay that writes no row registers nobody. -/
theorem replayDelegator_registry_eq_none {delegator : Address} {events : List RawEvent}
    (silent : (replayDelegator delegator events).rows = []) :
    (replayDelegator delegator events).registry = none := by
  have closed := replayDelegator_rows_eq_nil_iff.mp silent
  have unopened := replay_unopened closed (s := ReplayState.start) ⟨rfl, rfl⟩
  simp [replayDelegator, unopened.registered]

/-! ## Buckets -/

/-- The complete stream of a delegator: all its finalized canonical stake events, in
chain order. -/
def completeStream (db : Db) (delegator : Address) : List RawEvent :=
  orderBy RawEvent.position
    ((stakeEvents false db).filter fun e => decide (delegator ∈ delegatorsOf e))

/-- The delegators of the next batch. -/
def batchDelegators (includeTentative : Bool) (db : Db) : List Address :=
  affectedDelegators (flowBatch includeTentative db)

theorem mem_affectedDelegators {events : List RawEvent} {delegator : Address} :
    delegator ∈ affectedDelegators events ↔ ∃ e ∈ events, delegator ∈ delegatorsOf e := by
  simp [affectedDelegators, List.mem_flatMap]

/-- A delegator of an event is its sender or its receiver. -/
theorem mem_delegatorsOf {delegator : Address} {ev : RawEvent}
    (concerned : delegator ∈ delegatorsOf ev) :
    ev.fromAddress = some delegator ∨ ev.toAddress = some delegator := by
  have sides : delegator ∈ ev.fromAddress.toList ++
      (ev.toAddress.filter fun other => decide (some other ≠ ev.fromAddress)).toList := by
    unfold delegatorsOf at concerned
    split at concerned
    · exact concerned
    · exact List.mem_append_left _ concerned
  rcases List.mem_append.mp sides with sender | receiver
  · exact Or.inl (Option.mem_toList.mp sender)
  · have found := Option.mem_toList.mp receiver
    exact Or.inr (Option.filter_eq_some_iff.mp found).1

/-- Every event of a delegator touches a set that has the delegator in it. -/
theorem touches_of_mem_delegatorsOf {delegators : List Address} {delegator : Address}
    {ev : RawEvent} (member : delegator ∈ delegators) (concerned : delegator ∈ delegatorsOf ev) :
    touches delegators ev = true := by
  rcases mem_delegatorsOf concerned with sender | receiver
  · simp [touches, sender, member]
  · simp [touches, receiver, member]

/-- An opening event concerns the delegator it opens. -/
theorem mem_delegatorsOf_of_opensRow {delegator : Address} {ev : RawEvent}
    (opens : opensRow delegator ev = true) : delegator ∈ delegatorsOf ev := by
  cases name : ev.eventName <;> simp only [opensRow, name, decide_eq_true_eq] at opens <;>
    try cases opens
  case TransferBond =>
    by_cases self : ev.fromAddress = some delegator
    · simp [delegatorsOf, name, self]
    · have other : some delegator ≠ ev.fromAddress := fun same => self same.symm
      simp [delegatorsOf, name, opens, Option.filter, other]
  all_goals simp [delegatorsOf, name, opens]

theorem mem_fetchFullHistory {includeTentative : Bool} {delegators : List Address} {db : Db}
    {ev : RawEvent} :
    ev ∈ fetchFullHistory includeTentative delegators db ↔
      ev ∈ stakeEvents includeTentative db ∧ touches delegators ev = true := by
  unfold fetchFullHistory
  split
  · next none => simp [none, touches]
  · simp

/-- The bucket of a delegator is the part of its complete stream that touches the batch. -/
theorem mem_flowReplays {includeTentative : Bool} {db : Db} {delegator : Address}
    {events : List RawEvent} (replayed : (delegator, events) ∈ flowReplays includeTentative db) :
    events = orderBy RawEvent.position
      ((stakeEvents includeTentative db).filter fun e =>
        touches (batchDelegators includeTentative db) e && decide (delegator ∈ delegatorsOf e)) := by
  obtain ⟨d, _, same⟩ := List.mem_map.mp replayed
  obtain ⟨rfl, rfl⟩ := Prod.mk.inj same
  unfold fetchFullHistory
  split
  · next none =>
      have untouched : ∀ e, touches (batchDelegators includeTentative db) e = false := by
        intro e
        simp [touches, batchDelegators, none]
      simp [untouched, orderBy]
  · rw [filter_orderBy, List.filter_filter]
    exact congrArg (orderBy RawEvent.position)
      (List.filter_congr fun e _ => Bool.and_comm _ _)

/-- A delegator one of whose events touches the batch has a bucket. -/
theorem exists_bucket {includeTentative : Bool} {db : Db} {delegator : Address} {ev : RawEvent}
    (stored : ev ∈ stakeEvents includeTentative db) (concerned : delegator ∈ delegatorsOf ev)
    (touching : touches (batchDelegators includeTentative db) ev = true) :
    ∃ events, (delegator, events) ∈ flowReplays includeTentative db ∧ ev ∈ events := by
  have fetched : ev ∈ fetchFullHistory includeTentative (batchDelegators includeTentative db) db :=
    mem_fetchFullHistory.mpr ⟨stored, touching⟩
  refine ⟨_, List.mem_map_of_mem (List.mem_dedup.mpr
    (List.mem_flatMap.mpr ⟨ev, fetched, concerned⟩)), ?_⟩
  exact List.mem_filter.mpr ⟨fetched, by simpa using concerned⟩

/-- A bucket is complete exactly when every stake event of its delegator touches the
batch. -/
theorem bucket_eq_completeStream_iff {db : Db} {delegator : Address} {events : List RawEvent}
    (replayed : (delegator, events) ∈ flowReplays false db) :
    events = completeStream db delegator ↔
      ∀ e ∈ stakeEvents false db, delegator ∈ delegatorsOf e →
        touches (batchDelegators false db) e = true := by
  rw [mem_flowReplays replayed]
  constructor
  · intro same e stored concerned
    have complete : e ∈ completeStream db delegator :=
      mem_orderBy.mpr (List.mem_filter.mpr ⟨stored, by simpa using concerned⟩)
    rw [← same, mem_orderBy, List.mem_filter] at complete
    simpa using (Bool.and_eq_true _ _ ▸ complete.2).1
  · intro touching
    refine congrArg (orderBy RawEvent.position) (List.filter_congr fun e stored => ?_)
    by_cases concerned : delegator ∈ delegatorsOf e
    · simp [concerned, touching e stored concerned]
    · simp [concerned]

/-! ## The property and its exact condition -/

/-- Every row a run writes is the one the delegator's complete stream gives, and no
address is written from a partial stream. -/
structure NeverPartial (db : Db) : Prop where
  stakeRows : ∀ d events, (d, events) ∈ flowReplays false db →
    ∀ row ∈ (replayDelegator d events).rows,
      row ∈ (replayDelegator d (completeStream db d)).rows
  registryRows : ∀ d events, (d, events) ∈ flowReplays false db →
    ∀ row ∈ (replayDelegator d events).registry,
      row ∈ (replayDelegator d (completeStream db d)).registry
  streams : ∀ d events, (d, events) ∈ flowReplays false db →
    ((replayDelegator d events).rows ≠ [] ∨ (replayDelegator d events).registry ≠ none) →
      events = completeStream db d

/-- No delegator that the batch does not name is opened by an event whose counterparty the
batch names, while another of its stake events has no such counterparty. -/
def BatchIsolated (db : Db) : Prop :=
  ∀ d, (∀ e ∈ flowBatch false db, d ∉ delegatorsOf e) →
    (∃ e ∈ stakeEvents false db, opensRow d e = true ∧ touches (batchDelegators false db) e = true) →
      ∀ e ∈ stakeEvents false db, d ∈ delegatorsOf e → touches (batchDelegators false db) e = true

/-- In an isolated batch every bucket that writes is complete. -/
theorem bucket_complete_of_batchIsolated {db : Db} (isolated : BatchIsolated db)
    {delegator : Address} {events : List RawEvent}
    (replayed : (delegator, events) ∈ flowReplays false db)
    (written : (replayDelegator delegator events).rows ≠ []) :
    events = completeStream db delegator := by
  rw [bucket_eq_completeStream_iff replayed]
  by_cases named : delegator ∈ batchDelegators false db
  · exact fun e _ concerned => touches_of_mem_delegatorsOf named concerned
  · have outside : ∀ e ∈ flowBatch false db, delegator ∉ delegatorsOf e :=
      fun e fetched concerned => named (mem_affectedDelegators.mpr ⟨e, fetched, concerned⟩)
    have opened : ∃ e ∈ events, opensRow delegator e = true := by
      by_contra closed
      refine written (replayDelegator_rows_eq_nil_iff.mpr fun e member => ?_)
      by_contra opens
      exact closed ⟨e, member, by simpa using opens⟩
    obtain ⟨e, member, opens⟩ := opened
    rw [mem_flowReplays replayed, mem_orderBy, List.mem_filter, Bool.and_eq_true] at member
    exact isolated delegator outside ⟨e, member.1, opens, member.2.1⟩

/-- **A run writes nothing from a partial stream exactly when its batch is isolated.** -/
theorem flow_neverPartial_iff_batchIsolated (db : Db) : NeverPartial db ↔ BatchIsolated db := by
  constructor
  · intro complete d _ ⟨opening, stored, opens, touching⟩
    obtain ⟨events, replayed, member⟩ :=
      exists_bucket stored (mem_delegatorsOf_of_opensRow opens) touching
    have written : (replayDelegator d events).rows ≠ [] := by
      intro silent
      have closed := replayDelegator_rows_eq_nil_iff.mp silent opening member
      rw [opens] at closed
      cases closed
    exact (bucket_eq_completeStream_iff replayed).mp
      (complete.streams d events replayed (Or.inl written))
  · intro isolated
    have whole : ∀ d events, (d, events) ∈ flowReplays false db →
        (replayDelegator d events).rows ≠ [] → events = completeStream db d :=
      fun _ _ replayed written => bucket_complete_of_batchIsolated isolated replayed written
    have registering : ∀ d events, (replayDelegator d events).registry ≠ none →
        (replayDelegator d events).rows ≠ [] :=
      fun _ _ registers silent => registers (replayDelegator_registry_eq_none silent)
    refine ⟨?_, ?_, ?_⟩
    · intro d events replayed row member
      rw [← whole d events replayed (List.ne_nil_of_mem member)]
      exact member
    · intro d events replayed row member
      have registers : (replayDelegator d events).registry ≠ none := by
        rw [Option.mem_def.mp member]
        simp
      rw [← whole d events replayed (registering d events registers)]
      exact member
    · rintro d events replayed (written | registers)
      · exact whole d events replayed written
      · exact whole d events replayed (registering d events registers)

/-! ## A delegator dragged in by its orchestrator -/

/-- A finalized Bond. -/
def finalizedBond (id : ℤ) (sender delegate : Address) : RawEvent where
  txHash := "0xt"
  logIndex := id.toNat
  blockNumber := id
  blockHash := "0xb"
  blockTimestamp := 0
  contractName := .BondingManager
  eventName := .Bond
  asset := some .LPT
  amountNormalized := some ⟨1000⟩
  isValuable := true
  fromAddress := some sender
  toAddress := some delegate
  decoded := .none
  amount_of_asset := amount_given
  id := id
  finality := .finalized
  isCanonical := true
  finalizedAt := some 0

/-- Delegator `0xd` has bonded to `0xa` and moved to `0xb`, both before the checkpoint;
then orchestrator `0xa` bonds to itself. -/
def orchestratorBonds : Db :=
  { Db.empty.advanceCheckpoint .stakerFlowBackfillV2 2 with
    rawProtocolEvents :=
      [finalizedBond 1 "0xd" "0xa", finalizedBond 2 "0xd" "0xb", finalizedBond 3 "0xa" "0xa"] }

/-- The run replays `0xd` from its first Bond only. -/
theorem orchestratorBonds_not_neverPartial : ¬ NeverPartial orchestratorBonds := by
  intro complete
  have whole : [finalizedBond 1 "0xd" "0xa"] = completeStream orchestratorBonds "0xd" :=
    complete.streams "0xd" _ (by decide +kernel) (Or.inl (by decide +kernel))
  exact absurd whole (by decide +kernel)

end ProtocolExplorer.Staker
