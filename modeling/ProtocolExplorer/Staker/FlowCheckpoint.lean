import ProtocolExplorer.Lib.Transition
import ProtocolExplorer.Finality.Watcher
import ProtocolExplorer.Indexer.InsertEvents
import ProtocolExplorer.Staker.ReplayCompleteness

/-!
# The flow checkpoint under interleaving

The checkpoint of the flow walker is an insertion id, and a row is taken up only when it
is eligible.  Nothing ties the two orders together: a patch backfill inserts an old block
after a recent one, so the larger id is finalized first, the checkpoint moves past the
smaller id, and the event is never fetched.

The system interleaves inserts (ids become visible in any order), finality iterations and
flow runs, and records which event has been replayed for which delegator.

* `FlowSystem.covered_step` — the step lemma: events up to the checkpoint stay replayed as
  long as no step overtakes one;
* `flow_loses_nothing` — **in every run that overtakes no stake event, every finalized stake
  event has been replayed for each of its delegators once the system has caught up**;
* `overtaken_event_is_lost` — a four-step schedule in which an event is lost.
-/

set_option autoImplicit false

namespace ProtocolExplorer.Staker

open ProtocolExplorer.Lib
open ProtocolExplorer.Store
open ProtocolExplorer.Indexer
open ProtocolExplorer.Finality

/-- The database together with the replays that have taken place. -/
structure FlowSystem where
  db : Db
  replayed : List (Address × ℤ)

inductive FlowAction where
  | insert (rows : NumberedRows)
  | finality (now : Timestamp) (latestTs finalizedTs : ℤ)
  | flow (includeTentative : Bool)

namespace FlowSystem

/-- Every stake event of the buckets a run replays, under the delegator of its bucket. -/
def replaysOf (includeTentative : Bool) (db : Db) : List (Address × ℤ) :=
  (flowReplays includeTentative db).flatMap fun bucket =>
    bucket.2.map fun e => (bucket.1, e.id)

def start : FlowSystem := ⟨Db.empty, []⟩

def step (s : FlowSystem) : FlowAction → Option FlowSystem
  | .insert rows =>
      if freshIds rows s.db.rawProtocolEvents then
        some { s with
          db := { s.db with rawProtocolEvents := insertEvents rows s.db.rawProtocolEvents } }
      else none
  | .finality now latestTs finalizedTs =>
      some { s with db := runOnce now latestTs finalizedTs s.db }
  | .flow includeTentative =>
      some
        { db := (runFlowBackfill includeTentative s.db).1
          replayed := s.replayed ++ replaysOf includeTentative s.db }

/-- The flow checkpoint. -/
def checkpoint (s : FlowSystem) : Option ℤ := s.db.loadCheckpoint .stakerFlowBackfillV2

/-- The canonical stake events, whatever their finality. -/
def canonicalStakeEvents (s : FlowSystem) : List RawEvent := stakeEvents true s.db

theorem mem_canonicalStakeEvents {s : FlowSystem} {e : RawEvent} :
    e ∈ s.canonicalStakeEvents ↔
      e ∈ s.db.rawProtocolEvents ∧ e.isCanonical = true ∧ isStakeEvent e.eventName = true := by
  simp [canonicalStakeEvents, stakeEvents, RawEvent.eligible]

/-! ## The law and its condition -/

/-- Every event is finalized and a flow run would find nothing new. -/
def Settled (s : FlowSystem) : Prop :=
  (∀ e ∈ s.canonicalStakeEvents, e.finality = .finalized) ∧ flowBatch false s.db = []

/-- Once settled, every finalized canonical stake event has been replayed for each
delegator it concerns. -/
def LosesNothing (s : FlowSystem) : Prop :=
  s.Settled → ∀ e ∈ stakeEvents false s.db, ∀ d ∈ delegatorsOf e, (d, e.id) ∈ s.replayed

/-- A step that overtakes no stake event: an inserted stake event has an id past the
checkpoint, and no canonical stake event between the checkpoint and the end of a run's
batch is one the run may not read. -/
def overtakesNothing (s : FlowSystem) : FlowAction → Prop
  | .insert rows =>
      ∀ row ∈ rows, isStakeEvent row.2.eventName = true →
        ∀ seen ∈ s.checkpoint, seen < row.1
  | .finality .. => True
  | .flow includeTentative =>
      ∀ e ∈ s.canonicalStakeEvents, pastCheckpoint s.checkpoint e = true →
        e.id ≤ flowTarget includeTentative s.db → e.eligible includeTentative = true

instance decidableOvertakesNothing (s : FlowSystem) : ∀ a, Decidable (overtakesNothing s a)
  | .insert rows =>
      inferInstanceAs (Decidable (∀ row ∈ rows, isStakeEvent row.2.eventName = true →
        ∀ seen ∈ s.checkpoint, seen < row.1))
  | .finality .. => inferInstanceAs (Decidable True)
  | .flow includeTentative =>
      inferInstanceAs (Decidable (∀ e ∈ s.canonicalStakeEvents,
        pastCheckpoint s.checkpoint e = true → e.id ≤ flowTarget includeTentative s.db →
          e.eligible includeTentative = true))

/-! ## The invariant -/

/-- Ids are a primary key, and every canonical stake event up to the checkpoint has been
replayed for each of its delegators. -/
structure Covered (s : FlowSystem) : Prop where
  ids : IdsValid s.db.rawProtocolEvents
  replayed : ∀ e ∈ s.canonicalStakeEvents, ∀ seen ∈ s.checkpoint, e.id ≤ seen →
    ∀ d ∈ delegatorsOf e, (d, e.id) ∈ s.replayed

theorem covered_start : Covered start where
  ids := ⟨List.nodup_nil, by simp [start, Db.empty]⟩
  replayed := by simp [start, canonicalStakeEvents, stakeEvents, Db.empty]

theorem covered_insert {s s' : FlowSystem} {rows : NumberedRows} (covered : Covered s)
    (allowed : overtakesNothing s (.insert rows)) (stepped : step s (.insert rows) = some s') :
    Covered s' := by
  simp only [step, Option.ite_none_right_eq_some, Option.some.injEq] at stepped
  obtain ⟨fresh, rfl⟩ := stepped
  refine ⟨idsValid_insertEvents fresh covered.ids, ?_⟩
  intro e member seen loaded below d concerned
  obtain ⟨stored, canonical, stake⟩ := mem_canonicalStakeEvents.mp member
  rcases mem_insertEvents stored with old | ⟨row, offered, rfl⟩
  · exact covered.replayed e (mem_canonicalStakeEvents.mpr ⟨old, canonical, stake⟩) seen loaded
      below d concerned
  · have past := allowed row offered stake seen loaded
    exact absurd below (not_le.mpr past)

theorem covered_finality {s s' : FlowSystem} {now : Timestamp} {latestTs finalizedTs : ℤ}
    (covered : Covered s) (stepped : step s (.finality now latestTs finalizedTs) = some s') :
    Covered s' := by
  cases stepped
  refine ⟨?_, ?_⟩
  · rw [runOnce_rawProtocolEvents]
    exact covered.ids.map fun _ => markRow_id
  · intro e member seen loaded below d concerned
    obtain ⟨stored, canonical, stake⟩ := mem_canonicalStakeEvents.mp member
    rw [runOnce_rawProtocolEvents] at stored
    obtain ⟨old, present, rfl⟩ := List.mem_map.mp stored
    have unmoved : s.checkpoint = some seen := by
      rw [← Option.mem_def.mp loaded]
      exact (loadCheckpoint_runOnce now latestTs finalizedTs s.db (by decide) (by decide)
        (by decide)).symm
    have same : delegatorsOf (markRow now latestTs finalizedTs old) = delegatorsOf old := by
      simp only [delegatorsOf, markRow_toPreparedRow]
    rw [same] at concerned
    rw [markRow_id] at below ⊢
    refine covered.replayed old (mem_canonicalStakeEvents.mpr ⟨present, ?_, ?_⟩) seen unmoved
      below d concerned
    · rwa [markRow_isCanonical] at canonical
    · rwa [markRow_toPreparedRow] at stake

/-- Every event of a run's batch is replayed for each of its delegators. -/
theorem mem_replaysOf {includeTentative : Bool} {db : Db} {e : RawEvent}
    (fetched : e ∈ flowBatch includeTentative db) {d : Address} (concerned : d ∈ delegatorsOf e) :
    (d, e.id) ∈ replaysOf includeTentative db := by
  have affected : d ∈ batchDelegators includeTentative db :=
    mem_affectedDelegators.mpr ⟨e, fetched, concerned⟩
  have stored : e ∈ stakeEvents includeTentative db :=
    (List.mem_filter.mp (mem_of_mem_orderedBatch fetched)).1
  obtain ⟨events, bucket, member⟩ :=
    exists_bucket stored concerned (touches_of_mem_delegatorsOf affected concerned)
  exact List.mem_flatMap.mpr ⟨(d, events), bucket, List.mem_map.mpr ⟨e, member, rfl⟩⟩

/-- A canonical stake event that a run's new checkpoint passes is in its batch. -/
theorem mem_flowBatch_of_le_target {s : FlowSystem} {includeTentative : Bool} {e : RawEvent}
    (covered : Covered s) (allowed : overtakesNothing s (.flow includeTentative))
    (member : e ∈ s.canonicalStakeEvents) (past : pastCheckpoint s.checkpoint e = true)
    (below : e.id ≤ flowTarget includeTentative s.db) : e ∈ flowBatch includeTentative s.db := by
  have eligible := allowed e member past below
  obtain ⟨stored, _, stake⟩ := mem_canonicalStakeEvents.mp member
  have selected : e ∈ (stakeEvents includeTentative s.db).filter (pastCheckpoint s.checkpoint) :=
    List.mem_filter.mpr ⟨List.mem_filter.mpr ⟨stored, by simp [eligible, stake]⟩, past⟩
  cases largest : ((flowBatch includeTentative s.db).map (·.id)).max? with
  | none =>
      have nothing := List.map_eq_nil_iff.mp (List.max?_eq_none_iff.mp largest)
      rw [flowBatch, fetchNewEventHeads, orderedBatch_eq_nil (by decide)] at nothing
      rw [checkpoint, nothing] at selected
      cases selected
  | some maxEventId =>
      obtain ⟨last, fetched, same⟩ := List.mem_map.mp (List.max?_mem largest)
      refine mem_orderedBatch_of_le ?_ fetched selected ?_
      · intro a inA b inB sameId
        exact covered.ids.eq_of_id_eq (List.mem_of_mem_filter (List.mem_of_mem_filter inA))
          (List.mem_of_mem_filter (List.mem_of_mem_filter inB)) sameId
      · rw [flowTarget, largest, Option.getD_some] at below
        exact same ▸ below

theorem covered_flow {s s' : FlowSystem} {includeTentative : Bool} (covered : Covered s)
    (allowed : overtakesNothing s (.flow includeTentative))
    (stepped : step s (.flow includeTentative) = some s') : Covered s' := by
  cases stepped
  have untouched : (runFlowBackfill includeTentative s.db).1.rawProtocolEvents =
      s.db.rawProtocolEvents := runFlowBackfill_rawProtocolEvents ..
  refine ⟨untouched ▸ covered.ids, ?_⟩
  intro e member seen loaded below d concerned
  have present : e ∈ s.canonicalStakeEvents := by
    rw [mem_canonicalStakeEvents] at member ⊢
    exact untouched ▸ member
  have moved : seen = s.checkpoint.elim (flowTarget includeTentative s.db)
      fun previous => max previous (flowTarget includeTentative s.db) := by
    rw [checkpoint, loadCheckpoint_runFlowBackfill] at loaded
    exact (Option.some.inj loaded).symm
  refine List.mem_append.mpr ?_
  cases before : s.checkpoint with
  | none =>
      rw [before, Option.elim_none] at moved
      exact Or.inr (mem_replaysOf (mem_flowBatch_of_le_target covered allowed present
        (by simp [before, pastCheckpoint]) (moved ▸ below)) concerned)
  | some previous =>
      by_cases past : previous < e.id
      · -- the event is new, so only the batch can have moved the checkpoint past it
        rw [before, Option.elim_some] at moved
        have reached : e.id ≤ flowTarget includeTentative s.db :=
          (le_max_iff.mp (moved ▸ below)).resolve_left (not_le.mpr past)
        exact Or.inr (mem_replaysOf (mem_flowBatch_of_le_target covered allowed present
          (by simp [before, pastCheckpoint, past]) reached) concerned)
      · exact Or.inl (covered.replayed e present previous before (not_lt.mp past) d concerned)

/-- An allowed step keeps the events up to the checkpoint replayed. -/
theorem covered_step (s : FlowSystem) (a : FlowAction) (s' : FlowSystem) (covered : Covered s)
    (allowed : overtakesNothing s a) (stepped : step s a = some s') : Covered s' := by
  cases a with
  | insert rows => exact covered_insert covered allowed stepped
  | finality now latestTs finalizedTs => exact covered_finality covered stepped
  | flow includeTentative => exact covered_flow covered allowed stepped

/-- A settled covered system has replayed everything. -/
theorem losesNothing_of_covered {s : FlowSystem} (covered : Covered s) : LosesNothing s := by
  intro ⟨allFinal, caughtUp⟩ e member d concerned
  obtain ⟨stored, passes⟩ := List.mem_filter.mp member
  obtain ⟨eligible, stake⟩ := Bool.and_eq_true _ _ ▸ passes
  have canonical := (RawEvent.eligible_false_iff e).mp eligible
  have notNew : pastCheckpoint s.checkpoint e = false := by
    by_contra isNew
    rw [flowBatch, fetchNewEventHeads, orderedBatch_eq_nil (by decide)] at caughtUp
    exact List.filter_eq_nil_iff.mp caughtUp e member (by simpa [checkpoint] using isNew)
  cases before : s.checkpoint with
  | none => simp [before, pastCheckpoint] at notNew
  | some seen =>
      refine covered.replayed e (mem_canonicalStakeEvents.mpr ⟨stored, canonical.1, stake⟩) seen
        before ?_ d concerned
      simpa [before, pastCheckpoint] using notNew

/-- **In a run that overtakes no stake event, no finalized stake event is lost.** -/
theorem flow_loses_nothing {s : FlowSystem} (run : GuardedRun step overtakesNothing start s) :
    LosesNothing s :=
  losesNothing_of_covered (GuardedRun.invariant covered_step run covered_start)

/-! ## Two backfills -/

/-- A Bond in a block of the given timestamp. -/
def bondRow (position : ℕ) (timestamp : Timestamp) (sender delegate : Address) : PreparedRow where
  txHash := "0xt"
  logIndex := position
  blockNumber := position
  blockHash := "0xb"
  blockTimestamp := timestamp
  contractName := .BondingManager
  eventName := .Bond
  asset := some .LPT
  amountNormalized := some ⟨1000⟩
  isValuable := true
  fromAddress := some sender
  toAddress := some delegate
  decoded := .none
  amount_of_asset := amount_given

/-- Both rows are finalized before the first flow run. -/
def orderlySchedule : List FlowAction :=
  [.insert [(1, bondRow 9 (toTimestamp 900) "0xd" "0xa")],
    .insert [(2, bondRow 1 (toTimestamp 100) "0xe" "0xb")],
    .finality 0 2000 1000, .flow false, .flow false]

/-- An orderly schedule ends settled, and its first event has been replayed. -/
theorem orderlySchedule_loses_nothing :
    ∃ s, execute step start orderlySchedule = some s ∧ s.Settled ∧ LosesNothing s := by
  refine ⟨(execute step start orderlySchedule).get (by decide +kernel),
    (Option.some_get _).symm, by unfold Settled; decide +kernel, ?_⟩
  exact flow_loses_nothing (execute_guardedRun (Option.some_get _).symm (by decide +kernel))

/-- The patch backfill of an old block is finalized first: the run in between moves the
checkpoint past the live event, which is still tentative. -/
def overtakingSchedule : List FlowAction :=
  [.insert [(1, bondRow 9 (toTimestamp 900) "0xd" "0xa")],
    .insert [(2, bondRow 1 (toTimestamp 100) "0xe" "0xb")],
    .finality 0 2000 200, .flow false, .finality 0 2000 1000, .flow false]

/-- **An overtaken event is lost**: the system is settled and event 1 was never replayed. -/
theorem overtaken_event_is_lost : ¬ ∀ s, Run step start s → LosesNothing s := by
  intro law
  have executed : execute step start overtakingSchedule =
      some ((execute step start overtakingSchedule).get (by decide +kernel)) :=
    (Option.some_get _).symm
  have replayed := law _ (execute_run executed) (by unfold Settled; decide +kernel)
    ((bondRow 9 (toTimestamp 900) "0xd" "0xa").finalizedAs 1 0) (by decide +kernel) "0xd"
    (by decide +kernel)
  exact absurd replayed (by decide +kernel)

end FlowSystem

end ProtocolExplorer.Staker
