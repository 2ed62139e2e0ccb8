import ProtocolExplorer.Lib.Transition
import ProtocolExplorer.Staker.Profile

/-!
# The rows of a round

`orch_stake_by_round` has two writers.  Migration 044 ports the rows of the former
`orchestrator_profile` table, each as of the block it happened to have; a profile run stores the
rows of a round as of its `NewRound` event.

The system lets profile runs complete or be interrupted, and lets the other writers do anything to
the other tables as long as the event log follows a history of rounds.

* `bootstrapped_start` — what the migration leaves;
* `placed_step` — the step lemma: every row is bootstrapped, or lies at the start of its round;
* `startsAgree_of_run` — **if the bootstrapped rows of a round agree with each other and with the
  history, all rows of a round always agree**.
-/

set_option autoImplicit false

namespace ProtocolExplorer.Staker

open ProtocolExplorer.Lib
open ProtocolExplorer.Store

/-! ## The migration -/

/-- A row of the former table `orchestrator_profile`, keyed by orchestrator. -/
structure FormerProfile where
  totalStake : Numeric
  latestFeeCutPercent : Percent
  latestRewardCutPercent : Percent
  latestFeeSharePercent : Percent
  isActive : Bool
  lastLifecycleEventAt : Option Timestamp
  asOfBlock : ℤ
  asOfRound : Option ℤ
  lastEventId : ℤ
  serviceUri : Option String
  deriving DecidableEq

/-- A former row as a row of its round, with the event it is joined to. -/
def FormerProfile.ported (profile : FormerProfile) (e : RawEvent) : OrchStake where
  blockNumber := profile.asOfBlock
  blockTimestamp := e.blockTimestamp
  blockHash := e.blockHash
  totalStake := profile.totalStake
  serviceUri := profile.serviceUri
  latestFeeCutPercent := profile.latestFeeCutPercent
  latestRewardCutPercent := profile.latestRewardCutPercent
  latestFeeSharePercent := profile.latestFeeSharePercent
  isActive := profile.isActive
  lastLifecycleEventAt := profile.lastLifecycleEventAt
  triggeringEventId := some profile.lastEventId

/-- A row with its key. -/
abbrev KeyedStake := (Address × ℤ) × OrchStake

/-- The rows that the migration selects. -/
def portedRows (profiles : Table Address FormerProfile) (events : List RawEvent) :
    List KeyedStake :=
  (sortKeys profiles.keys).filterMap fun address =>
    (profiles.lookup address).bind fun profile =>
      (events.find? fun e => decide (e.id = profile.lastEventId)).map fun e =>
        ((address, profile.asOfRound.getD 0), profile.ported e)

/-- The bootstrap of migration 044, on the table that migration 043 created. -/
def bootstrapOrchStake (profiles : Table Address FormerProfile) (db : Db) : Db :=
  { db with
    orchStakeByRound := (portedRows profiles db.rawProtocolEvents).foldl
      (fun rows ported => Table.insertNew rows ported.1 ported.2) ∅ }

/-! ## Histories of rounds -/

/-- The `NewRound` event of a round. -/
structure RoundStart where
  round : ℤ
  blockNumber : ℤ
  blockTimestamp : Timestamp
  deriving DecidableEq

/-- `NewRound` events with strictly increasing rounds and blocks. -/
structure RoundHistory where
  starts : List RoundStart
  ascending : starts.Pairwise fun a b => a.round < b.round ∧ a.blockNumber < b.blockNumber

/-- A round starts once. -/
theorem RoundHistory.start_unique (history : RoundHistory) {a b : RoundStart}
    (first : a ∈ history.starts) (second : b ∈ history.starts) (same : a.round = b.round) :
    a = b := by
  have distinct : (history.starts.map RoundStart.round).Nodup :=
    List.pairwise_map.mpr (history.ascending.imp fun below => below.1.ne)
  exact List.inj_on_of_nodup_map distinct first second same

/-- The `NewRound` events of a log are those of the history. -/
def RoundHistory.Follows (history : RoundHistory) (events : List RawEvent) : Prop :=
  ∀ e ∈ events, e.eventName = .NewRound → ∃ start ∈ history.starts,
    extractRound e = some start.round ∧ e.blockNumber = start.blockNumber ∧
      e.blockTimestamp = start.blockTimestamp

/-! ## The system -/

inductive SnapshotAction where
  /-- Whatever the other writers make of the other tables. -/
  | others (written : Db)
  | profile (includeTentative : Bool) (limit : ℕ)
  /-- A run that a failing read ends. -/
  | interrupt (includeTentative : Bool) (limit completed : ℕ)

namespace Snapshots

variable (reads : OrchReads) (history : RoundHistory)

def step (db : Db) : SnapshotAction → Option Db
  | .others written => some { written with orchStakeByRound := db.orchStakeByRound }
  | .profile includeTentative limit => some (runProfileBackfill reads includeTentative limit db).1
  | .interrupt includeTentative limit completed =>
      some (interruptProfileBackfill reads includeTentative limit completed db)

/-- The log follows the history. -/
def follows (_ : Db) : SnapshotAction → Prop
  | .others written => history.Follows written.rawProtocolEvents
  | _ => True

/-- After the migration. -/
def start (profiles : Table Address FormerProfile) (events : List RawEvent) : Db :=
  bootstrapOrchStake profiles { Db.empty with rawProtocolEvents := events }

/-! ## The law and its condition -/

/-- Do two rows have the same block and timestamp? -/
def SameStart (a b : OrchStake) : Prop :=
  a.blockNumber = b.blockNumber ∧ a.blockTimestamp = b.blockTimestamp

instance (a b : OrchStake) : Decidable (SameStart a b) := inferInstanceAs (Decidable (_ ∧ _))

/-- All rows of a round have the same block and timestamp. -/
def StartsAgree (db : Db) : Prop :=
  ∀ key key' row row', db.orchStakeByRound.lookup key = some row →
    db.orchStakeByRound.lookup key' = some row' → key.2 = key'.2 → SameStart row row'

/-- Is a row as of the start of its round? -/
def AtStart (start : RoundStart) (row : OrchStake) : Prop :=
  row.blockNumber = start.blockNumber ∧ row.blockTimestamp = start.blockTimestamp

instance (start : RoundStart) (row : OrchStake) : Decidable (AtStart start row) :=
  inferInstanceAs (Decidable (_ ∧ _))

/-- The ported rows of a round agree with each other, and with the `NewRound` event of the round
if the history has one. -/
structure PortedAgree (ported : List KeyedStake) : Prop where
  among : ∀ a ∈ ported, ∀ b ∈ ported, a.1.2 = b.1.2 → SameStart a.2 b.2
  starts : ∀ a ∈ ported, ∀ start ∈ history.starts, start.round = a.1.2 → AtStart start a.2

variable {reads history} {profiles : Table Address FormerProfile} {events : List RawEvent}

theorem bootstrapped_start {key : Address × ℤ} {row : OrchStake}
    (stored : (start profiles events).orchStakeByRound.lookup key = some row) :
    (key, row) ∈ portedRows profiles events := by
  have grown : Table.Grown (fun key row => (key, row) ∈ portedRows profiles events) ∅
      (start profiles events).orchStakeByRound :=
    Table.grown_foldl_insertNew (fun ported : KeyedStake => ported.1) (fun ported => ported.2)
      (fun ported member => member) ∅
  rcases grown.fresh key row stored with before | ⟨_, ported⟩
  · simp at before
  · exact ported

/-! ## The invariant -/

/-- Every row is ported, or lies at the start of its round. -/
structure Placed (history : RoundHistory) (ported : List KeyedStake) (db : Db) : Prop where
  log : history.Follows db.rawProtocolEvents
  rows : ∀ key row, db.orchStakeByRound.lookup key = some row →
    (key, row) ∈ ported ∨ ∃ start ∈ history.starts, start.round = key.2 ∧ AtStart start row

variable {ported : List KeyedStake} {db : Db}

theorem roundsGiven_of_follows {includeTentative : Bool} {limit : ℕ}
    (log : history.Follows db.rawProtocolEvents) :
    RoundsGiven (profileBatch includeTentative limit db) := by
  intro e member newRound
  have stored := List.mem_of_mem_filter (mem_of_mem_orderedBatch member)
  obtain ⟨start, _, round, _⟩ := log e stored newRound
  exact Option.isSome_iff_exists.mpr ⟨start.round, round⟩

/-- An offered row lies at the start of its round. -/
theorem atStart_of_offered {includeTentative : Bool} {limit : ℕ} {known : Finset Address}
    (log : history.Follows db.rawProtocolEvents) {key : Address × ℤ} {row : OrchStake}
    (offered : Offered reads db.rawProtocolEvents known (profileBatch includeTentative limit db)
      key row) : ∃ start ∈ history.starts, start.round = key.2 ∧ AtStart start row := by
  obtain ⟨before, e, after, split, newRound, round, _, rfl⟩ := offered
  have inBatch : e ∈ profileBatch includeTentative limit db := by
    rw [split]
    exact List.mem_append_right _ (List.mem_cons_self ..)
  have stored := List.mem_of_mem_filter (mem_of_mem_orderedBatch inBatch)
  obtain ⟨start, listed, named, block, timestamp⟩ := log e stored newRound
  rw [round] at named
  exact ⟨start, listed, (Option.some.inj named).symm, block, timestamp⟩

theorem Placed.grow {after : Db} (placed : Placed history ported db)
    (events : after.rawProtocolEvents = db.rawProtocolEvents)
    {includeTentative : Bool} {limit : ℕ} {known : Finset Address}
    (grown : Table.Grown (Offered reads db.rawProtocolEvents known
      (profileBatch includeTentative limit db)) db.orchStakeByRound after.orchStakeByRound) :
    Placed history ported after := by
  refine ⟨by rw [events]; exact placed.log, fun key row found => ?_⟩
  rcases grown.fresh key row found with earlier | ⟨_, offered⟩
  · exact placed.rows key row earlier
  · exact Or.inr (atStart_of_offered placed.log offered)

/-- The step lemma. -/
theorem placed_step (db : Db) (a : SnapshotAction) (db' : Db) (placed : Placed history ported db)
    (allowed : follows history db a) (stepped : step reads db a = some db') :
    Placed history ported db' := by
  cases a with
  | others written =>
      cases stepped
      exact ⟨allowed, placed.rows⟩
  | profile includeTentative limit =>
      cases stepped
      have framed : ∃ rows checkpoints, (runProfileBackfill reads includeTentative limit db).1 =
          { db with orchStakeByRound := rows, indexerCheckpoints := checkpoints } :=
        runProfileBackfill_frame reads
      obtain ⟨rows, checkpoints, frame⟩ := framed
      refine placed.grow ?_ (grown_runProfileBackfill reads (roundsGiven_of_follows placed.log)).1
      rw [frame]
  | interrupt includeTentative limit completed =>
      cases stepped
      have framed : ∃ rows, interruptProfileBackfill reads includeTentative limit completed db =
          { db with orchStakeByRound := rows } := interruptProfileBackfill_frame reads
      obtain ⟨rows, frame⟩ := framed
      refine placed.grow ?_
        (grown_interruptProfileBackfill reads (roundsGiven_of_follows placed.log))
      rw [frame]

theorem placed_start (log : history.Follows events) :
    Placed history (portedRows profiles events) (start profiles events) where
  log := log
  rows _ _ stored := Or.inl (bootstrapped_start stored)

theorem startsAgree_of_placed (placed : Placed history ported db)
    (agree : PortedAgree history ported) : StartsAgree db := by
  intro key key' row row' found found' same
  rcases placed.rows key row found with inPorted | ⟨start, listed, round, at_⟩
  · rcases placed.rows key' row' found' with inPorted' | ⟨start', listed', round', at'⟩
    · exact agree.among _ inPorted _ inPorted' same
    · have own := agree.starts _ inPorted start' listed' (round'.trans same.symm)
      exact ⟨own.1.trans at'.1.symm, own.2.trans at'.2.symm⟩
  · rcases placed.rows key' row' found' with inPorted' | ⟨start', listed', round', at'⟩
    · have own := agree.starts _ inPorted' start listed (round.trans same)
      exact ⟨at_.1.trans own.1.symm, at_.2.trans own.2.symm⟩
    · have one := history.start_unique listed listed' (by rw [round, round', same])
      subst one
      exact ⟨at_.1.trans at'.1.symm, at_.2.trans at'.2.symm⟩

/-- **If the ported rows agree with each other and with the history, all rows of a round agree in
every state.** -/
theorem startsAgree_of_run (log : history.Follows events)
    (agree : PortedAgree history (portedRows profiles events))
    (run : GuardedRun (step reads) (follows history) (start profiles events) db) :
    StartsAgree db :=
  startsAgree_of_placed (run.invariant placed_step (placed_start log)) agree

end Snapshots

end ProtocolExplorer.Staker
